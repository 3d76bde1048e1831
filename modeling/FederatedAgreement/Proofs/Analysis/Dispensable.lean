/-
Dispensable sets: what the search over masks finds, in terms of sets. The search tries every set of nodes. It takes the
set out of the slices of the other nodes by allowing what is missing, looks for quorums among the other nodes only, and
compares the minimal ones of these. What it finds are just the sets that the definition describes.

Results:
- `toSet_rest`: the nodes that a mask leaves.
- `mem_quorumsWithin`: the quorums that the search finds without a set are those of the system without the set.
- `minimal_meet_iff`: comparing minimal quorums is comparing all of them.
- `dispensable_listed`: **the listed dispensable sets** of any system of slices, each once and in order.
-/
import FederatedAgreement.Proofs.Analysis.Order

namespace FederatedAgreement

open Sorting (SortedSet)

/-! ## What is searched for -/

namespace SliceMap

/-- the nodes whose slices are known -/
def nodes (slices : SliceMap) : NodeSet := .ofList slices.keys

/-- a quorum of the system without the nodes of `b`: none of them is in it, and each of its nodes has a slice of known
nodes in which only nodes of `b` are missing from it -/
structure QuorumWithout (slices : SliceMap) (b u : NodeSet) : Prop where
  nonempty : ∃ k, k ∈ u
  within : u ⊆ slices.nodes \ b
  supported : ∀ k ∈ u, ∃ own, slices.get? k = some own ∧ ∃ s ∈ own, s ⊆ slices.nodes ∧ s ⊆ u ∪ b

/-- every two quorums of the system without the nodes of `b` share a node -/
def IntersectsWithout (slices : SliceMap) (b : NodeSet) : Prop :=
  ∀ u w, slices.QuorumWithout b u → slices.QuorumWithout b w → ∃ k, k ∈ u ∧ k ∈ w

/-- a set of nodes is dispensable: there are no other nodes, or the others are a quorum, and without the set every two
quorums share a node -/
structure Dispensable (slices : SliceMap) (b : NodeSet) : Prop where
  known : b ⊆ slices.nodes
  rest : b = slices.nodes ∨ slices.QuorumWithout ∅ (slices.nodes \ b) ∧ slices.IntersectsWithout b

variable {slices : SliceMap} {b u : NodeSet}

/-- where known nodes are deleted, slices that are covered consist of known nodes -/
theorem quorumWithout_iff (known : b ⊆ slices.nodes) :
    slices.QuorumWithout b u ↔ u ⊆ slices.nodes \ b ∧ slices.IsQuorum b u := by
  constructor
  · intro quorum
    refine ⟨quorum.within, quorum.nonempty, fun k hk => ?_⟩
    obtain ⟨own, hown, s, hs, _, covered⟩ := quorum.supported k hk
    exact ⟨own, hown, s, hs, covered⟩
  · rintro ⟨within, quorum⟩
    refine ⟨quorum.nonempty, within, fun k hk => ?_⟩
    obtain ⟨own, hown, s, hs, covered⟩ := quorum.supported k hk
    refine ⟨own, hown, s, hs, fun z hz => ?_, covered⟩
    rcases SortedSet.mem_union.1 (covered z hz) with hz | hz
    · exact (SortedSet.mem_diff.1 (within z hz)).1
    · exact known z hz

end SliceMap

namespace Mask

/-- of masks that are not empty, the minimal ones all meet if and only if all of them do -/
theorem allMeet_minimal_iff {ms : List Nat} (nonempty : ∀ m ∈ ms, m ≠ 0) :
    allMeet (minimal ms) = true ↔ ∀ a ∈ ms, ∀ b ∈ ms, meets a b = true := by
  constructor
  · intro meet a ha b hb
    exact meets_of_allMeet_minimal meet nonempty ha hb
  · intro meet
    have inside : ∀ a ∈ minimal ms, a ∈ ms := fun a ha => (mem_minimal.1 ha).1
    rw [allMeet_iff, List.pairwise_iff_forall_sublist]
    intro a b sub
    exact meet a (inside a (sub.subset (by simp))) b (inside b (sub.subset (by simp)))

end Mask

/-! ## The search -/

namespace SliceSystem

variable {slices : SliceMap} {b m : Nat} {sys : SliceSystem}

theorem testBit_full {i : Nat} : sys.full.testBit i = decide (i < sys.count) := by
  rw [full, Nat.one_shiftLeft, Nat.testBit_two_pow_sub_one]

theorem toSet_full : Mask.toSet sys.nodes sys.full = sys.nodes := by
  apply SortedSet.Subset.antisymm (Mask.toSet_subset _ _)
  intro k hk
  obtain ⟨i, inside, place⟩ := List.mem_iff_getElem.1 hk
  refine Mask.mem_toSet.2 ⟨i, List.getElem?_eq_some_iff.2 ⟨inside, place⟩, ?_⟩
  rw [testBit_full, decide_eq_true_eq]
  exact inside

theorem full_lt : sys.full < 1 <<< sys.count := by
  rw [full, Nat.one_shiftLeft]
  exact Nat.sub_lt (Nat.two_pow_pos _) Nat.one_pos

/-- the mask of all nodes is the only one that stands for all nodes -/
theorem eq_full_iff (h : b < 1 <<< sys.count) : b = sys.full ↔ Mask.toSet sys.nodes b = sys.nodes := by
  constructor
  · rintro rfl
    exact toSet_full
  · intro all
    rw [← Mask.ofSet_toSet h, ← Mask.ofSet_toSet (m := sys.full) full_lt, all, toSet_full]

theorem rest_lt (h : b < 1 <<< sys.count) : sys.full ^^^ b < 1 <<< sys.count := by
  have full := sys.full_lt
  rw [Nat.one_shiftLeft] at h full ⊢
  exact Nat.xor_lt_two_pow full h

/-- the nodes that a mask leaves are those that are not in its set -/
theorem toSet_rest (b : Nat) : Mask.toSet sys.nodes (sys.full ^^^ b) = sys.nodes \ Mask.toSet sys.nodes b := by
  refine SortedSet.ext fun k => ?_
  rw [SortedSet.mem_diff]
  constructor
  · intro hk
    obtain ⟨i, place, hi⟩ := Mask.mem_toSet.1 hk
    refine ⟨Mask.toSet_subset _ _ k hk, fun other => ?_⟩
    obtain ⟨j, place', hj⟩ := Mask.mem_toSet.1 other
    cases Mask.place_unique place place'
    obtain ⟨inside, _⟩ := List.getElem?_eq_some_iff.1 place
    have set : sys.full.testBit i = true := testBit_full.trans (decide_eq_true inside)
    rw [Nat.testBit_xor, set, hj] at hi
    exact absurd hi (by decide)
  · rintro ⟨known, absent⟩
    obtain ⟨i, inside, place⟩ := List.mem_iff_getElem.1 known
    have place : sys.nodes.toList[i]? = some k := List.getElem?_eq_some_iff.2 ⟨inside, place⟩
    refine Mask.mem_toSet.2 ⟨i, place, ?_⟩
    have unset : b.testBit i = false := by
      rw [← Bool.not_eq_true]
      exact fun hi => absent (Mask.mem_toSet.2 ⟨i, place, hi⟩)
    rw [Nat.testBit_xor, testBit_full, unset, Bool.xor_false, decide_eq_true_eq]
    exact inside

/-- the table answers for every mask that a search asks about -/
theorem isQuorum_supportTable (hb : b < 1 <<< sys.count) (hm : m < 1 <<< sys.count) :
    isQuorum (sys.supportTable.getD · 0) b m = isQuorum sys.support b m := by
  have both : m ||| b < 1 <<< sys.count := by
    rw [Nat.one_shiftLeft] at hb hm ⊢
    exact Nat.or_lt_two_pow hm hb
  rw [isQuorum, isQuorum, supportTable_get _ both]

/-- **Quorums after deletion.** The quorums that the search finds among the other nodes are those of the system without
the deleted ones. -/
theorem mem_quorumsWithin (hb : b < 1 <<< (ofSlices slices).count) :
    m ∈ quorumsWithin ((ofSlices slices).supportTable.getD · 0) (ofSlices slices) ((ofSlices slices).full ^^^ b) b ↔
      m < 1 <<< (ofSlices slices).count ∧
        slices.QuorumWithout (Mask.toSet slices.nodes b) (Mask.toSet slices.nodes m) := by
  rw [quorumsWithin, List.mem_filter, mem_subsets]
  refine and_congr_right fun hm => ?_
  rw [Bool.and_eq_true, isQuorum_supportTable hb hm, isQuorum_iff hm, Mask.within_iff hm, toSet_rest]
  exact (SliceMap.quorumWithout_iff (Mask.toSet_subset slices.nodes b)).symm

/-- every quorum of the system without some nodes has a mask -/
theorem exists_mask {u : NodeSet} (known : u ⊆ slices.nodes) :
    ∃ m < 1 <<< (ofSlices slices).count, Mask.toSet slices.nodes m = u :=
  ⟨_, Mask.ofSet_lt slices.nodes.toList u, Mask.toSet_ofSet known⟩

/-- **Minimal quorums decide.** The minimal ones of the quorums that are left all meet if and only if every two quorums
of the system without the deleted nodes share a node. -/
theorem minimal_meet_iff (hb : b < 1 <<< (ofSlices slices).count) :
    Mask.allMeet (Mask.minimal (quorumsWithin ((ofSlices slices).supportTable.getD · 0) (ofSlices slices)
      ((ofSlices slices).full ^^^ b) b)) = true ↔ slices.IntersectsWithout (Mask.toSet slices.nodes b) := by
  rw [Mask.allMeet_minimal_iff]
  · constructor
    · intro meet u w hu hw
      obtain ⟨m, hm, rfl⟩ := exists_mask fun k hk => (SortedSet.mem_diff.1 (hu.within k hk)).1
      obtain ⟨m', hm', rfl⟩ := exists_mask fun k hk => (SortedSet.mem_diff.1 (hw.within k hk)).1
      have common := meet m ((mem_quorumsWithin hb).2 ⟨hm, hu⟩) m' ((mem_quorumsWithin hb).2 ⟨hm', hw⟩)
      exact (Mask.meets_iff hm).1 common
    · intro meet m hm m' hm'
      obtain ⟨small, quorum⟩ := (mem_quorumsWithin hb).1 hm
      obtain ⟨_, quorum'⟩ := (mem_quorumsWithin hb).1 hm'
      exact (Mask.meets_iff small).2 (meet _ _ quorum quorum')
  · intro m hm
    obtain ⟨small, quorum⟩ := (mem_quorumsWithin hb).1 hm
    exact (Mask.ne_zero_iff small).2 quorum.nonempty

theorem isQuorum_rest_iff (hb : b < 1 <<< (ofSlices slices).count) :
    isQuorum ((ofSlices slices).supportTable.getD · 0) 0 ((ofSlices slices).full ^^^ b) = true ↔
      slices.QuorumWithout ∅ (slices.nodes \ Mask.toSet slices.nodes b) := by
  have zero : 0 < 1 <<< (ofSlices slices).count := Nat.lt_of_le_of_lt (Nat.zero_le b) hb
  rw [isQuorum_supportTable zero (rest_lt hb), isQuorum_iff (rest_lt hb), toSet_zero, toSet_rest,
    SliceMap.quorumWithout_iff fun k hk => absurd hk (SortedSet.not_mem_empty k)]
  refine (and_iff_right fun k hk => ?_).symm
  exact SortedSet.mem_diff.2 ⟨(SortedSet.mem_diff.1 hk).1, SortedSet.not_mem_empty k⟩

theorem mem_dispensableMasks :
    b ∈ (ofSlices slices).dispensableMasks ↔
      b < 1 <<< (ofSlices slices).count ∧ slices.Dispensable (Mask.toSet slices.nodes b) := by
  rw [dispensableMasks, List.mem_filter, mem_subsets]
  refine and_congr_right fun hb => ?_
  rw [isDispensable, Bool.or_eq_true, beq_iff_eq, eq_full_iff hb, Bool.and_eq_true, isQuorum_rest_iff hb,
    minimal_meet_iff hb]
  exact ⟨fun rest => ⟨Mask.toSet_subset _ _, rest⟩, fun dispensable => dispensable.rest⟩

theorem dispensableMasks_ascending (sys : SliceSystem) : sys.dispensableMasks.Pairwise (· < ·) :=
  List.pairwise_lt_range.filter _

end SliceSystem

/-! ## Main result -/

theorem mem_findDispensableSets {slices : SliceMap} {b : NodeSet} :
    b ∈ findDispensableSets slices ↔ slices.Dispensable b := by
  rw [findDispensableSets, SliceSystem.mem_sets]
  constructor
  · rintro ⟨m, hm, rfl⟩
    exact (SliceSystem.mem_dispensableMasks.1 hm).2
  · intro dispensable
    obtain ⟨m, small, rfl⟩ := SliceSystem.exists_mask dispensable.known
    exact ⟨m, SliceSystem.mem_dispensableMasks.2 ⟨small, dispensable⟩, rfl⟩

/-- **The dispensable sets of a system of slices**, whatever its slices are: they need not hold the node that they belong
to, and may name unknown nodes. Those and only those sets are listed that are dispensable, each once, smaller ones first
and those of one size by ascending masks over the sorted nodes. -/
theorem dispensable_listed (slices : SliceMap) :
    (findDispensableSets slices).Nodup ∧
      (∀ b, b ∈ findDispensableSets slices ↔ slices.Dispensable b) ∧
      (findDispensableSets slices).Pairwise (Mask.Precedes slices.nodes) := by
  have small : ∀ m ∈ (SliceSystem.ofSlices slices).dispensableMasks, m < 1 <<< (SliceSystem.ofSlices slices).count := by
    intro m hm
    exact (SliceSystem.mem_dispensableMasks.1 hm).1
  have ordered : (findDispensableSets slices).Pairwise (Mask.Precedes slices.nodes) :=
    SliceSystem.sets_ordered (SliceSystem.dispensableMasks_ascending _) small
  exact ⟨ordered.imp Mask.Precedes.ne, fun b => mem_findDispensableSets, ordered⟩

end FederatedAgreement
