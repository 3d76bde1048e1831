/-
What the search over masks finds, in terms of sets. The quorums that are listed are all the sets of nodes that are not
empty and in which every node is satisfied, and if every two minimal ones share a node, so do every two of them.

Results:
- `isQuorum_iff`: what the search asks of masks, asked of sets.
- `mem_findQuorums`: the listed quorums of a system of slices.
- `Analysis.eq_of_made`: all that an analysis says.
- `Analysis.mem_quorums`: the listed quorums of a network are the sets that satisfy each of their nodes.
- `Analysis.quorums_meet`: where the analysis reports intersection, every two quorums share a node.
-/
import FederatedAgreement.Analysis.Report
import FederatedAgreement.Proofs.Analysis.Masks
import FederatedAgreement.Proofs.QuorumSet.Slices

namespace FederatedAgreement

open Sorting (SortedSet)

/-- a quorum after deletion: not empty, and each of its nodes has a slice in it and the deleted nodes together -/
structure SliceMap.IsQuorum (slices : SliceMap) (deleted u : NodeSet) : Prop where
  nonempty : ∃ k, k ∈ u
  supported : ∀ k ∈ u, ∃ own, slices.get? k = some own ∧ ∃ s ∈ own, s ⊆ u ∪ deleted

namespace SliceSystem

variable {slices : SliceMap} {deleted m : Nat} {u : NodeSet}

/-! ## Masks of slices -/

theorem mem_nodes {k : NodeId} : k ∈ (ofSlices slices).nodes ↔ k ∈ slices := by
  rw [ofSlices, SortedSet.mem_ofList, Roster.mem_iff_mem_keys]

theorem testBit_supportedBy {rows : List (List Nat)} {i : Nat} :
    (supportedBy rows m).testBit i = true ↔ ∃ row, rows[i]? = some row ∧ ∃ a ∈ row, Mask.within a m = true := by
  induction rows generalizing i with
  | nil => simp [supportedBy]
  | cons row rows ih =>
    cases i with
    | zero =>
      rw [supportedBy, Nat.testBit_zero]
      by_cases h : row.any (Mask.within · m) = true
      · simpa [h] using List.any_eq_true.1 h
      · have none : ¬ ∃ a ∈ row, Mask.within a m = true := fun e => h (List.any_eq_true.2 e)
        simpa [h] using none
    | succ i =>
      have half : (supportedBy (row :: rows) m) / 2 = supportedBy rows m := by
        rw [supportedBy]
        split <;> omega
      rw [← Nat.testBit_div_two, half, ih, List.getElem?_cons_succ]

/-- the masks at a place are those of the slices of known nodes that the node at this place has -/
theorem getElem?_slices {i : Nat} {row : List Nat} :
    (ofSlices slices).slices[i]? = some row ↔ ∃ k, (ofSlices slices).nodes.toList[i]? = some k ∧
      row = (((slices.get? k).getD []).filter fun s => s.toList.all (· ∈ (ofSlices slices).nodes)).map
        (Mask.ofSet (ofSlices slices).nodes.toList) := by
  show (((ofSlices slices).nodes.toList.map _)[i]? = some row) ↔ _
  rw [List.getElem?_map, Option.map_eq_some_iff]
  exact exists_congr fun k => and_congr_right fun _ => eq_comm

/-- a node has a mask within `m` if and only if it has a slice whose nodes are all in the set of `m` -/
theorem testBit_support {i : Nat} {k : NodeId} (place : (ofSlices slices).nodes.toList[i]? = some k) :
    ((ofSlices slices).support m).testBit i = true ↔
      ∃ own, slices.get? k = some own ∧ ∃ s ∈ own, s ⊆ Mask.toSet (ofSlices slices).nodes m := by
  have known : ∀ s : NodeSet, s.toList.all (· ∈ (ofSlices slices).nodes) = true ↔ s ⊆ (ofSlices slices).nodes := by
    intro s
    simp only [List.all_eq_true, decide_eq_true_eq]
    exact Iff.rfl
  have inside : ∀ s : NodeSet, s ⊆ (ofSlices slices).nodes →
      (Mask.within (Mask.ofSet (ofSlices slices).nodes.toList s) m = true ↔
        s ⊆ Mask.toSet (ofSlices slices).nodes m) := by
    intro s hs
    rw [Mask.within_iff (Mask.ofSet_lt _ s), Mask.toSet_ofSet hs]
  rw [support, testBit_supportedBy]
  constructor
  · rintro ⟨row, hrow, a, ha, within⟩
    obtain ⟨k', place', rfl⟩ := getElem?_slices.1 hrow
    cases place.symm.trans place'
    obtain ⟨s, hs, rfl⟩ := List.mem_map.1 ha
    obtain ⟨hs, hknown⟩ := List.mem_filter.1 hs
    cases hown : slices.get? k with
    | none => simp [hown] at hs
    | some own =>
      rw [hown] at hs
      exact ⟨own, rfl, s, hs, (inside s ((known s).1 hknown)).1 within⟩
  · rintro ⟨own, hown, s, hs, within⟩
    have hknown : s ⊆ (ofSlices slices).nodes := SortedSet.Subset.trans within (Mask.toSet_subset _ m)
    refine ⟨_, getElem?_slices.2 ⟨k, place, rfl⟩, _, List.mem_map_of_mem ?_, (inside s hknown).2 within⟩
    rw [hown]
    exact List.mem_filter.2 ⟨hs, (known s).2 hknown⟩

/-- **Quorums of masks and sets.** What the search asks of a mask, it asks of the set of the mask. -/
theorem isQuorum_iff (h : m < 1 <<< (ofSlices slices).count) :
    isQuorum (ofSlices slices).support deleted m = true ↔
      slices.IsQuorum (Mask.toSet (ofSlices slices).nodes deleted) (Mask.toSet (ofSlices slices).nodes m) := by
  rw [isQuorum, Bool.and_eq_true, bne_iff_ne, Mask.ne_zero_iff h, Mask.within_iff_testBit]
  have union : ∀ s : NodeSet, s ⊆ Mask.toSet (ofSlices slices).nodes (m ||| deleted) ↔
      s ⊆ Mask.toSet (ofSlices slices).nodes m ∪ Mask.toSet (ofSlices slices).nodes deleted := by
    intro s
    simp only [SortedSet.subset_def, Mask.mem_toSet_or, SortedSet.mem_union]
  constructor
  · rintro ⟨nonempty, supported⟩
    refine ⟨nonempty, fun k hk => ?_⟩
    obtain ⟨i, place, hi⟩ := Mask.mem_toSet.1 hk
    obtain ⟨own, hown, s, hs, within⟩ := (testBit_support place).1 (supported i hi)
    exact ⟨own, hown, s, hs, (union s).1 within⟩
  · rintro ⟨nonempty, supported⟩
    refine ⟨nonempty, fun i hi => ?_⟩
    obtain ⟨k, place⟩ := Mask.exists_of_testBit h hi
    obtain ⟨own, hown, s, hs, within⟩ := supported k (Mask.mem_toSet.2 ⟨i, place, hi⟩)
    exact (testBit_support place).2 ⟨own, hown, s, hs, (union s).2 within⟩

/-! ## Lists of quorums -/

theorem mem_subsets {sys : SliceSystem} : m ∈ sys.subsets ↔ m < 1 <<< sys.count := List.mem_range

theorem within_full {sys : SliceSystem} (h : m < 1 <<< sys.count) : Mask.within m sys.full = true := by
  rw [Nat.one_shiftLeft] at h
  rw [Mask.within, full, Nat.one_shiftLeft, Nat.and_two_pow_sub_one_eq_mod, Nat.mod_eq_of_lt h, beq_self_eq_true]

theorem toSet_zero (nodes : NodeSet) : Mask.toSet nodes 0 = ∅ := by
  refine SortedSet.ext fun k => ?_
  simp [Mask.mem_toSet]

theorem mem_quorumMasks :
    m ∈ (ofSlices slices).quorumMasks ↔
      m < 1 <<< (ofSlices slices).count ∧ slices.IsQuorum ∅ (Mask.toSet (ofSlices slices).nodes m) := by
  rw [quorumMasks, quorumsWithin, List.mem_filter, mem_subsets]
  refine and_congr_right fun h => ?_
  have looked_up : isQuorum ((ofSlices slices).supportTable.getD · 0) 0 m = isQuorum (ofSlices slices).support 0 m := by
    rw [isQuorum, isQuorum, Nat.or_zero, supportTable_get _ h]
  rw [within_full h, Bool.true_and, looked_up, isQuorum_iff h, toSet_zero]

theorem quorumMasks_lt : ∀ m ∈ (ofSlices slices).quorumMasks, m < 1 <<< (ofSlices slices).count :=
  fun _ hm => (mem_quorumMasks.1 hm).1

theorem quorumMasks_ne_zero : ∀ m ∈ (ofSlices slices).quorumMasks, m ≠ 0 := by
  intro m hm
  obtain ⟨small, quorum⟩ := mem_quorumMasks.1 hm
  exact (Mask.ne_zero_iff small).2 quorum.nonempty

theorem mem_sets {sys : SliceSystem} {ms : List Nat} : u ∈ sys.sets ms ↔ ∃ m ∈ ms, Mask.toSet sys.nodes m = u := by
  simp only [sets, List.mem_map, Mask.mem_bySize]

end SliceSystem

/-- **Listed quorums.** The listed quorums of a system of slices are the sets that are quorums. -/
theorem mem_findQuorums {slices : SliceMap} {u : NodeSet} : u ∈ findQuorums slices ↔ slices.IsQuorum ∅ u := by
  rw [findQuorums, SliceSystem.mem_sets]
  constructor
  · rintro ⟨m, hm, rfl⟩
    exact (SliceSystem.mem_quorumMasks.1 hm).2
  · intro h
    have known : u ⊆ (SliceSystem.ofSlices slices).nodes := by
      intro k hk
      obtain ⟨own, hown, _⟩ := h.supported k hk
      rw [SliceSystem.mem_nodes]
      by_cases hk : k ∈ slices
      · exact hk
      · rw [Roster.get?_eq_none_iff.2 hk] at hown
        exact absurd hown nofun
    have found := Mask.toSet_ofSet known
    refine ⟨_, SliceSystem.mem_quorumMasks.2 ⟨Mask.ofSet_lt _ u, ?_⟩, found⟩
    rw [found]
    exact h

/-! ## Networks -/

theorem SliceMap.entries_ofNodes {nodes : List Node} (nodup : (nodes.map Node.key).Nodup) :
    (SliceMap.ofNodes nodes).entries =
      nodes.map fun n => (n.key, (n.quorumSet.slices.map (· ∪ {n.key})).eraseDups) := by
  apply Roster.entries_ofList
  rw [List.map_map]
  exact nodup

theorem SliceMap.get?_ofNodes {nodes : List Node} (nodup : (nodes.map Node.key).Nodup) {k : NodeId}
    {own : List NodeSet} : (SliceMap.ofNodes nodes).get? k = some own ↔
      ∃ n ∈ nodes, n.key = k ∧ own = (n.quorumSet.slices.map (· ∪ {n.key})).eraseDups := by
  rw [Roster.get?_eq_some_iff, entries_ofNodes nodup, List.mem_map]
  refine exists_congr fun n => and_congr_right fun _ => ?_
  rw [Prod.mk.injEq, eq_comm (a := own)]

/-- the set is a quorum of the slices of nodes if and only if it satisfies each of its nodes -/
theorem SliceMap.isQuorum_ofNodes {nodes : List Node} (nodup : (nodes.map Node.key).Nodup) {u : NodeSet} :
    (SliceMap.ofNodes nodes).IsQuorum ∅ u ↔
      (∃ k, k ∈ u) ∧ ∀ k ∈ u, ∃ n ∈ nodes, n.key = k ∧ n.quorumSet.isSlice u = true := by
  constructor
  · rintro ⟨nonempty, supported⟩
    refine ⟨nonempty, fun k hk => ?_⟩
    obtain ⟨own, hown, s, hs, within⟩ := supported k hk
    obtain ⟨n, hn, rfl, rfl⟩ := (SliceMap.get?_ofNodes nodup).1 hown
    obtain ⟨t, ht, rfl⟩ := List.mem_map.1 (List.mem_eraseDups.1 hs)
    refine ⟨n, hn, rfl, n.quorumSet.isSlice_iff_exists_slice.2 ⟨t, ht, fun z hz => ?_⟩⟩
    have := within z (SortedSet.mem_union.2 (Or.inl hz))
    simpa using this
  · rintro ⟨nonempty, satisfied⟩
    refine ⟨nonempty, fun k hk => ?_⟩
    obtain ⟨n, hn, rfl, enough⟩ := satisfied k hk
    obtain ⟨t, ht, within⟩ := n.quorumSet.isSlice_iff_exists_slice.1 enough
    refine ⟨_, (SliceMap.get?_ofNodes nodup).2 ⟨n, hn, rfl, rfl⟩, t ∪ {n.key}, ?_, fun z hz => ?_⟩
    · exact List.mem_eraseDups.2 (List.mem_map_of_mem ht)
    · rcases SortedSet.mem_union.1 hz with hz | hz
      · exact SortedSet.mem_union.2 (Or.inl (within z hz))
      · rw [SortedSet.mem_singleton.1 hz]
        exact SortedSet.mem_union.2 (Or.inl hk)

namespace Analysis

variable {nodes : List Node} {limit : Int} {a : Analysis}

/-- all that an analysis says, if there is one -/
theorem eq_of_made (h : ofNodes nodes limit = .ok a) :
    let sys := SliceSystem.ofSlices (.ofNodes nodes)
    a = { nodes := sys.nodes
          slices := .ofNodes nodes
          quorums := findQuorums (.ofNodes nodes)
          minimalQuorums := sys.sets (Mask.minimal sys.quorumMasks)
          dispensable := findDispensableSets (.ofNodes nodes)
          topTier := (sys.sets (Mask.minimal sys.quorumMasks)).foldl (· ∪ ·) ∅
          hasIntersection := Mask.allMeet (Mask.minimal sys.quorumMasks) } := by
  unfold ofNodes at h
  split at h
  · exact absurd h nofun
  · cases h
    rfl

theorem quorums_eq (h : ofNodes nodes limit = .ok a) : a.quorums = findQuorums (.ofNodes nodes) := by
  rw [eq_of_made h]

/-- **Quorums of a network.** The listed quorums are the sets that are not empty and satisfy each of their nodes. -/
theorem mem_quorums (h : ofNodes nodes limit = .ok a) (nodup : (nodes.map Node.key).Nodup) {u : NodeSet} :
    u ∈ a.quorums ↔ (∃ k, k ∈ u) ∧ ∀ k ∈ u, ∃ n ∈ nodes, n.key = k ∧ n.quorumSet.isSlice u = true := by
  rw [quorums_eq h, mem_findQuorums, SliceMap.isQuorum_ofNodes nodup]

/-- **Intersection.** Where the analysis reports it, every two quorums share a node. -/
theorem quorums_meet (h : ofNodes nodes limit = .ok a) (meet : a.hasIntersection = true) {u v : NodeSet}
    (hu : u ∈ a.quorums) (hv : v ∈ a.quorums) : ∃ k, k ∈ u ∧ k ∈ v := by
  rw [quorums_eq h, findQuorums] at hu hv
  rw [eq_of_made h] at meet
  obtain ⟨m, hm, rfl⟩ := SliceSystem.mem_sets.1 hu
  obtain ⟨m', hm', rfl⟩ := SliceSystem.mem_sets.1 hv
  have small := SliceSystem.quorumMasks_lt m hm
  exact (Mask.meets_iff small).1 (Mask.meets_of_allMeet_minimal meet SliceSystem.quorumMasks_ne_zero hm hm')

end Analysis

end FederatedAgreement
