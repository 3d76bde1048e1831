/-
The order in which sets of nodes are listed: smaller sets come first, and sets of one size come in the order of their
masks over the ascending nodes. Searches meet masks in ascending order, and sorting them by size keeps this order within
each size.

Results:
- `size_toSet`: a mask counts the nodes of its set.
- `bySize_ordered`: ascending masks, put in order of size.
- `SliceSystem.sets_ordered`: a search that meets masks in ascending order lists their sets in order.
- `Analysis.quorums_listed`: **the quorums of a network**, each once and in order, are the sets that satisfy their nodes.
-/
import FederatedAgreement.Proofs.Analysis.Quorums
import Mathlib.Data.List.Nodup

namespace FederatedAgreement

open Sorting (SortedSet)

namespace Mask

variable {nodes s t : NodeSet}

/-- the first set is listed before the second: it is smaller, or it is of the same size and has the lower mask -/
def Precedes (nodes s t : NodeSet) : Prop :=
  s.size < t.size ∨ (s.size = t.size ∧ ofSet nodes.toList s < ofSet nodes.toList t)

theorem Precedes.ne (h : Precedes nodes s t) : s ≠ t := by
  rintro rfl
  rcases h with smaller | ⟨_, lower⟩
  · exact Nat.lt_irrefl _ smaller
  · exact Nat.lt_irrefl _ lower

/-! ## Sizes -/

theorem length_pick (ks : List NodeId) (m : Nat) : (pick ks m).length = size ks.length m := by
  induction ks generalizing m with
  | nil => rfl
  | cons k ks ih =>
    rw [pick, List.length_cons, size]
    split
    · next odd => rw [List.length_cons, ih, odd, Nat.add_comm]
    · next even =>
      have zero : m % 2 = 0 := (Nat.mod_two_eq_zero_or_one m).resolve_right even
      rw [ih, zero, Nat.zero_add]

/-- a mask has as many bits as its set has nodes -/
theorem size_toSet (nodes : NodeSet) (m : Nat) : (toSet nodes m).size = size nodes.toList.length m :=
  length_pick nodes.toList m

/-! ## Order by size -/

/-- the sizes are gone through in ascending order, and masks of one size keep their order -/
theorem bySize_ordered {ms : List Nat} (n : Nat) (ascending : ms.Pairwise (· < ·)) :
    (bySize n ms).Pairwise fun a b => size n a < size n b ∨ (size n a = size n b ∧ a < b) := by
  have has_size : ∀ k, ∀ m ∈ ms.filter (size n · == k), size n m = k := by
    intro k m hm
    exact beq_iff_eq.1 (List.mem_filter.1 hm).2
  rw [bySize, List.pairwise_flatMap]
  constructor
  · intro k _
    have kept := ascending.filter (size n · == k)
    apply kept.imp_of_mem
    intro a b ha hb lower
    exact Or.inr ⟨(has_size k a ha).trans (has_size k b hb).symm, lower⟩
  · apply List.pairwise_lt_range.imp
    intro j k smaller a ha b hb
    rw [has_size j a ha, has_size k b hb]
    exact Or.inl smaller

end Mask

/-! ## Lists of sets -/

namespace SliceSystem

/-- **Listing order.** Masks that a search meets in ascending order are listed as sets in order. -/
theorem sets_ordered {sys : SliceSystem} {ms : List Nat} (ascending : ms.Pairwise (· < ·))
    (small : ∀ m ∈ ms, m < 1 <<< sys.count) : (sys.sets ms).Pairwise (Mask.Precedes sys.nodes) := by
  rw [sets, List.pairwise_map]
  apply (Mask.bySize_ordered sys.count ascending).imp_of_mem
  intro a b ha hb before
  have mask : ∀ m ∈ Mask.bySize sys.count ms, Mask.ofSet sys.nodes.toList (Mask.toSet sys.nodes m) = m := by
    intro m hm
    exact Mask.ofSet_toSet (small m (Mask.mem_bySize.1 hm))
  rw [Mask.Precedes, Mask.size_toSet, Mask.size_toSet, mask a ha, mask b hb]
  exact before

theorem quorumMasks_ascending (sys : SliceSystem) : sys.quorumMasks.Pairwise (· < ·) :=
  List.pairwise_lt_range.filter _

end SliceSystem

/-! ## Networks -/

theorem SliceMap.nodes_ofNodes {nodes : List Node} (nodup : (nodes.map Node.key).Nodup) :
    (SliceSystem.ofSlices (.ofNodes nodes)).nodes = .ofList (nodes.map Node.key) := by
  refine SortedSet.ext fun k => ?_
  have keys : (SliceMap.ofNodes nodes).keys = nodes.map Node.key := by
    rw [Roster.keys, SliceMap.entries_ofNodes nodup, List.map_map]
    rfl
  rw [SliceSystem.mem_nodes, Roster.mem_iff_mem_keys, keys, SortedSet.mem_ofList]

namespace Analysis

variable {nodes : List Node} {limit : Int} {u : NodeSet}

/-- within the limit an analysis is made -/
theorem ofNodes_isOk (enough : (nodes.length : Int) ≤ limit) : ∃ a, ofNodes nodes limit = .ok a := by
  unfold ofNodes
  rw [if_neg (Int.not_lt.2 enough)]
  exact ⟨_, rfl⟩

/-- where nodes have different keys, each member of a set belongs to a node that the set satisfies if and only if the
members are keys and the set satisfies every node whose key is a member -/
theorem satisfied_iff (nodup : (nodes.map Node.key).Nodup) :
    (∀ k ∈ u, ∃ n ∈ nodes, n.key = k ∧ n.quorumSet.isSlice u = true) ↔
      u ⊆ .ofList (nodes.map Node.key) ∧ ∀ n ∈ nodes, n.key ∈ u → n.quorumSet.isSlice u = true := by
  constructor
  · intro satisfied
    constructor
    · intro k hk
      obtain ⟨n, hn, rfl, _⟩ := satisfied k hk
      exact SortedSet.mem_ofList.2 (List.mem_map_of_mem hn)
    · intro n hn hk
      obtain ⟨n', hn', key, enough⟩ := satisfied n.key hk
      rwa [List.inj_on_of_nodup_map nodup hn' hn key] at enough
  · rintro ⟨known, satisfied⟩ k hk
    obtain ⟨n, hn, rfl⟩ := List.mem_map.1 (SortedSet.mem_ofList.1 (known k hk))
    exact ⟨n, hn, rfl, satisfied n hn hk⟩

/-- **The quorums of a network.** Let nodes have different keys, and let there be no more of them than the limit says.
Then they are analysed, and the quorums of the analysis are just those sets of keys that are not empty and satisfy each
node whose key is in them. Each is listed once, smaller ones first and those of one size by ascending masks over the
sorted keys. Quorum sets may name nodes outside the network. -/
theorem quorums_listed (nodup : (nodes.map Node.key).Nodup) (enough : (nodes.length : Int) ≤ limit) :
    ∃ a, ofNodes nodes limit = .ok a ∧ a.quorums.Nodup ∧
      (∀ u, u ∈ a.quorums ↔
        (∃ k, k ∈ u) ∧ u ⊆ .ofList (nodes.map Node.key) ∧
          ∀ n ∈ nodes, n.key ∈ u → n.quorumSet.isSlice u = true) ∧
      a.quorums.Pairwise (Mask.Precedes (.ofList (nodes.map Node.key))) := by
  obtain ⟨a, made⟩ := ofNodes_isOk enough
  have ordered : a.quorums.Pairwise (Mask.Precedes (.ofList (nodes.map Node.key))) := by
    rw [quorums_eq made, findQuorums, ← SliceMap.nodes_ofNodes nodup]
    apply SliceSystem.sets_ordered (SliceSystem.quorumMasks_ascending _)
    intro m hm
    exact (SliceSystem.mem_quorumMasks.1 hm).1
  refine ⟨a, made, ordered.imp Mask.Precedes.ne, ?_, ordered⟩
  intro u
  rw [mem_quorums made nodup, satisfied_iff nodup]

/-- "C" relies on itself or a stranger; "A" on itself and one of "B" and a stranger; "B" on a stranger or on "A" and
itself together -/
def pairAndLoner : List Node :=
  [⟨"C", ⟨⟨1, ["C", "Z"], []⟩, by decide⟩⟩, ⟨"A", ⟨⟨2, ["A"], [⟨1, ["B", "Z"], []⟩]⟩, by decide⟩⟩,
    ⟨"B", ⟨⟨1, ["Z"], [⟨2, ["A", "B"], []⟩]⟩, by decide⟩⟩]

/-- the smaller quorum comes first although its mask is higher -/
theorem pairAndLoner_quorums :
    (pairAndLoner.map Node.key).Nodup ∧ (pairAndLoner.length : Int) ≤ 12 ∧
    ∃ a, ofNodes pairAndLoner 12 = .ok a ∧
      a.quorums = [.ofList ["C"], .ofList ["A", "B"], .ofList ["A", "B", "C"]] ∧
      a.quorums.Pairwise (Mask.Precedes (.ofList ["C", "A", "B"])) := by
  have nodup : (pairAndLoner.map Node.key).Nodup := by decide
  have enough : (pairAndLoner.length : Int) ≤ 12 := by decide
  obtain ⟨a, made, _, _, ordered⟩ := quorums_listed nodup enough
  have found : findQuorums (.ofNodes pairAndLoner) = [.ofList ["C"], .ofList ["A", "B"], .ofList ["A", "B", "C"]] := by
    decide +kernel
  exact ⟨nodup, enough, a, made, (quorums_eq made).trans found, ordered⟩

end Analysis

end FederatedAgreement
