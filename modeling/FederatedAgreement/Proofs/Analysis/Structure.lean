/-
What an analysis depends on. The search looks at a system through its nodes, and through which of them have a slice
within each set of nodes. For the slices of a network these are the nodes whose quorum sets the set satisfies, so
neither the order of the nodes nor that of the members of quorum sets matters for what is found. Where names are words,
this is all that the text of the structure tells.

Results:
- `structureText_eq_iff`: **structure texts tell structures apart**, if names are words.
- `SliceSystem.masks_congr`: the search depends on the nodes and on their support.
- `Analysis.ofNodes_congr`: **an analysis depends on the structure only**.
-/
import FederatedAgreement.Proofs.Analysis.Order
import FederatedAgreement.Proofs.QuorumSet.Alike

namespace FederatedAgreement

open Sorting (SortedSet ascending ascending_eq_iff_perm)
open Text (IsWord)

/-! ## Structures -/

/-- the nodes have the same key and trust alike -/
structure Node.Alike (n m : Node) : Prop where
  key : n.key = m.key
  trust : n.quorumSet.tree.Alike m.quorumSet.tree

/-- the key and all validators are words -/
def Node.Worded (n : Node) : Prop := IsWord n.key ∧ n.quorumSet.tree.Worded

instance (n : Node) : Decidable n.Worded := inferInstanceAs (Decidable (_ ∧ _))

variable {nodes others : List Node}

/-- the part of a structure text that is about one node -/
def Node.structureEntry (n : Node) : String := n.key ++ ":" ++ n.quorumSet.canonical

theorem Node.toList_structureEntry (n : Node) :
    n.structureEntry.toList = n.key.toList ++ ':' :: n.quorumSet.canonical.toList := by
  simp [structureEntry]

theorem Node.Worded.structureEntry {n : Node} (h : n.Worded) :
    n.structureEntry.toList ≠ [] ∧ '|' ∉ n.structureEntry.toList := by
  rw [toList_structureEntry]
  refine ⟨List.append_ne_nil_of_right_ne_nil _ (List.cons_ne_nil _ _), fun inside => ?_⟩
  rcases List.mem_append.1 inside with key | colon_or_trust
  · exact h.1.not_mem (by decide) key
  · exact h.2.not_mem_canonical (Or.inr rfl) ((List.mem_cons.1 colon_or_trust).resolve_left (by decide))

theorem Node.alike_of_structureEntry {n m : Node} (hn : n.Worded) (hm : m.Worded)
    (same : n.structureEntry = m.structureEntry) : n.Alike m := by
  have chars := congrArg String.toList same
  rw [toList_structureEntry, toList_structureEntry] at chars
  obtain ⟨key, trust⟩ := Text.append_cons_inj (hn.1.not_mem (by decide)) (hm.1.not_mem (by decide)) chars
  exact ⟨String.toList_inj.1 key, (TrustTree.canonical_eq_iff hn.2 hm.2).1 (String.toList_inj.1 trust)⟩

/-- **Structure texts.** Lists of nodes whose names are words have the same structure text exactly when they hold alike
nodes, in whatever order. -/
theorem structureText_eq_iff (hn : ∀ n ∈ nodes, n.Worded) (ho : ∀ n ∈ others, n.Worded) :
    structureText nodes = structureText others ↔ Rearranged Node.Alike nodes others := by
  constructor
  · intro same
    have entries : ∀ l : List Node, (∀ n ∈ l, n.Worded) →
        ∀ s ∈ ascending (l.map Node.structureEntry), s.toList ≠ [] ∧ '|' ∉ s.toList := by
      intro l worded s hs
      obtain ⟨n, hn, rfl⟩ := List.mem_map.1 (Sorting.mem_ascending.1 hs)
      exact (worded n hn).structureEntry
    have sorted : ascending (nodes.map Node.structureEntry) = ascending (others.map Node.structureEntry) :=
      Text.join_inj rfl (entries nodes hn) (entries others ho) same
    refine rearranged_of_perm_map (fun n hn' m hm same => ?_) (ascending_eq_iff_perm.1 sorted)
    exact Node.alike_of_structureEntry (hn n hn') (ho m hm) same
  · intro alike
    have entries := alike.perm_map (f := Node.structureEntry) fun n _ m h => by
      have trust : n.quorumSet.canonical = m.quorumSet.canonical := h.trust.canonical_eq
      rw [Node.structureEntry, Node.structureEntry, h.key, trust]
    exact congrArg ("|".intercalate ·) (ascending_eq_iff_perm.2 entries)

/-! ## What the search depends on -/

namespace SliceSystem

variable {sys sys' : SliceSystem}

/-- the search depends on the nodes and on the support of each mask -/
theorem masks_congr (nodes : sys.nodes = sys'.nodes) (support : ∀ m, sys.support m = sys'.support m) :
    sys.quorumMasks = sys'.quorumMasks ∧ sys.dispensableMasks = sys'.dispensableMasks := by
  have count : sys.count = sys'.count := congrArg (fun nodes : NodeSet => nodes.toList.length) nodes
  have table : sys.supportTable = sys'.supportTable := by
    unfold supportTable
    rw [count]
    exact congrArg Array.ofFn (funext fun m => support m)
  have full : sys.full = sys'.full := by rw [full, SliceSystem.full, count]
  have subsets : sys.subsets = sys'.subsets := by rw [subsets, SliceSystem.subsets, count]
  have quorums : ∀ f, quorumsWithin f sys = quorumsWithin f sys' := by
    intro f
    funext nodes deleted
    rw [quorumsWithin, quorumsWithin, subsets]
  have dispensable : ∀ f, isDispensable f sys = isDispensable f sys' := by
    intro f
    funext b
    rw [isDispensable, isDispensable, full, quorums]
  constructor
  · rw [quorumMasks, quorumMasks, table, full, quorums]
  · rw [dispensableMasks, dispensableMasks, table, subsets, dispensable]

variable {slices slices' : SliceMap}

theorem testBit_support_iff {m i : Nat} : ((ofSlices slices).support m).testBit i = true ↔
    ∃ k, (ofSlices slices).nodes.toList[i]? = some k ∧
      ∃ own, slices.get? k = some own ∧ ∃ s ∈ own, s ⊆ Mask.toSet (ofSlices slices).nodes m := by
  constructor
  · intro set
    have held := set
    rw [support, testBit_supportedBy] at held
    obtain ⟨row, hrow, _⟩ := held
    obtain ⟨k, place, _⟩ := getElem?_slices.1 hrow
    exact ⟨k, place, (testBit_support place).1 set⟩
  · rintro ⟨k, place, covered⟩
    exact (testBit_support place).2 covered

/-- systems with the same nodes, of which the same have a slice within each set, have the same support -/
theorem support_congr (nodes : (ofSlices slices).nodes = (ofSlices slices').nodes)
    (covered : ∀ k u, (∃ own, slices.get? k = some own ∧ ∃ s ∈ own, s ⊆ u) ↔
      ∃ own, slices'.get? k = some own ∧ ∃ s ∈ own, s ⊆ u) (m : Nat) :
    (ofSlices slices).support m = (ofSlices slices').support m := by
  refine Nat.eq_of_testBit_eq fun i => ?_
  rw [Bool.eq_iff_iff, testBit_support_iff, testBit_support_iff, nodes]
  exact exists_congr fun k => and_congr_right fun _ => covered k _

end SliceSystem

/-! ## Networks -/

/-- a node of a network has a slice within a set if it is in the set and the set satisfies its quorum set -/
theorem SliceMap.covered_ofNodes (nodup : (nodes.map Node.key).Nodup) {k : NodeId} {u : NodeSet} :
    (∃ own, (SliceMap.ofNodes nodes).get? k = some own ∧ ∃ s ∈ own, s ⊆ u) ↔
      k ∈ u ∧ (k, true) ∈ nodes.map fun n => (n.key, n.quorumSet.isSlice u) := by
  constructor
  · rintro ⟨own, hown, s, hs, within⟩
    obtain ⟨n, hn, rfl, rfl⟩ := (SliceMap.get?_ofNodes nodup).1 hown
    obtain ⟨t, ht, rfl⟩ := List.mem_map.1 (List.mem_eraseDups.1 hs)
    obtain ⟨slice, itself⟩ := union_subset_iff.1 within
    have enough := n.quorumSet.isSlice_iff_exists_slice.2 ⟨t, ht, slice⟩
    refine ⟨itself n.key (SortedSet.mem_singleton.2 rfl), List.mem_map.2 ⟨n, hn, ?_⟩⟩
    rw [enough]
  · rintro ⟨hk, listed⟩
    obtain ⟨n, hn, same⟩ := List.mem_map.1 listed
    obtain ⟨rfl, enough⟩ := Prod.mk.inj same
    obtain ⟨t, ht, within⟩ := n.quorumSet.isSlice_iff_exists_slice.1 enough
    refine ⟨_, (SliceMap.get?_ofNodes nodup).2 ⟨n, hn, rfl, rfl⟩, t ∪ {n.key},
      List.mem_eraseDups.2 (List.mem_map_of_mem ht), union_subset_iff.2 ⟨within, fun z hz => ?_⟩⟩
    rw [SortedSet.mem_singleton.1 hz]
    exact hk

namespace Analysis

/-- the analyses find the same; their slices may be listed in different orders -/
structure SameFindings (a b : Analysis) : Prop where
  nodes : a.nodes = b.nodes
  quorums : a.quorums = b.quorums
  minimalQuorums : a.minimalQuorums = b.minimalQuorums
  dispensable : a.dispensable = b.dispensable
  topTier : a.topTier = b.topTier
  hasIntersection : a.hasIntersection = b.hasIntersection

/-- **Structure decides.** Lists of alike nodes with different keys, in whatever order, are both refused, for the same
reason, or both analysed, and then the same is found. -/
theorem ofNodes_congr (nodup : (nodes.map Node.key).Nodup) (alike : Rearranged Node.Alike nodes others) (limit : Int) :
    (∃ m, ofNodes nodes limit = .error m ∧ ofNodes others limit = .error m) ∨
    ∃ a b, ofNodes nodes limit = .ok a ∧ ofNodes others limit = .ok b ∧ a.SameFindings b := by
  have keys := alike.perm_map (f := Node.key) fun _ _ _ h => h.key
  have nodup' : (others.map Node.key).Nodup := keys.nodup_iff.1 nodup
  have length : nodes.length = others.length := by simpa using keys.length_eq
  have sys_nodes : (SliceSystem.ofSlices (.ofNodes nodes)).nodes = (SliceSystem.ofSlices (.ofNodes others)).nodes := by
    rw [SliceMap.nodes_ofNodes nodup, SliceMap.nodes_ofNodes nodup']
    refine SortedSet.ext fun k => ?_
    rw [SortedSet.mem_ofList, SortedSet.mem_ofList, keys.mem_iff]
  have covered : ∀ k u, (∃ own, (SliceMap.ofNodes nodes).get? k = some own ∧ ∃ s ∈ own, s ⊆ u) ↔
      ∃ own, (SliceMap.ofNodes others).get? k = some own ∧ ∃ s ∈ own, s ⊆ u := by
    intro k u
    have satisfied := alike.perm_map (f := fun n => (n.key, n.quorumSet.isSlice u)) fun n _ m h =>
      Prod.ext h.key (h.trust.isSlice_eq u)
    rw [SliceMap.covered_ofNodes nodup, SliceMap.covered_ofNodes nodup', satisfied.mem_iff]
  obtain ⟨quorums, dispensable⟩ := SliceSystem.masks_congr sys_nodes (SliceSystem.support_congr sys_nodes covered)
  unfold ofNodes
  rw [length]
  split
  · exact Or.inl ⟨_, rfl, rfl⟩
  · refine Or.inr ⟨_, _, rfl, rfl, ?_⟩
    constructor <;> simp only [SliceSystem.sets, SliceSystem.count, sys_nodes, quorums, dispensable]

end Analysis

end FederatedAgreement
