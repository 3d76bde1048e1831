/-
Blocking sets are those that no slice avoids. Blocking counts the members that a set leaves alone, and treats trees
without members apart at every depth; satisfying counts the members that agree. The two are dual: a set blocks a quorum
set that has members exactly when the validators outside the set do not satisfy it, and this is exactly when the set has
a node in common with every listed slice.

Results:
- `isSlice_congr`: whether a set satisfies a tree depends on its validators only.
- `isSlice_diff`: the validators outside a set satisfy a tree if it has members and the set does not block it, and only
  then.
- `QuorumSet.isBlocking_iff_of_apart`: which quorum sets are blocked by sets that have none of their validators.
- `QuorumSet.blocking_dual_to_slices`: **duality**.
-/
import FederatedAgreement.Proofs.QuorumSet.Slices

namespace FederatedAgreement

open Sorting (SortedSet)

namespace TrustTree

variable {q : TrustTree} {s t : NodeSet}

/-! ## What satisfying depends on -/

/-- nodes that are no validators at any depth do not count -/
theorem isSlice_congr (same : ∀ v ∈ q.validatorSet, v ∈ s ↔ v ∈ t) : q.isSlice s = q.isSlice t := by
  induction q using induct with
  | step q ih =>
    have validators : q.validators.countP (· ∈ s) = q.validators.countP (· ∈ t) := by
      apply List.countP_congr
      intro v hv
      simp only [decide_eq_true_eq]
      exact same v (mem_validatorSet.2 (Or.inl hv))
    have inner : q.inner.countP (isSlice s) = q.inner.countP (isSlice t) := by
      apply List.countP_congr
      intro r hr
      rw [ih r hr fun v hv => same v (mem_validatorSet.2 (Or.inr ⟨r, hr, hv⟩))]
    rw [Bool.eq_iff_iff, isSlice_iff, isSlice_iff, validators, inner]

theorem isEmpty_iff : q.isEmpty = true ↔ q.memberCount = 0 := decide_eq_true_iff

/-- a threshold is at least one, which no members cannot reach -/
theorem isSlice_of_isEmpty (h : q.consistent = true) (empty : q.isEmpty = true) : q.isSlice s = false := by
  have level := (consistent_iff.1 h).1.1
  have none : q.validators.length + q.inner.length = 0 := isEmpty_iff.1 empty
  have validators : q.validators.countP (· ∈ s) ≤ q.validators.length := List.countP_le_length
  have inner : q.inner.countP (isSlice s) ≤ q.inner.length := List.countP_le_length
  rw [Bool.eq_false_iff]
  intro enough
  have := isSlice_iff.1 enough
  omega

/-! ## Duality -/

/-- **Members left alone.** The validators outside a set satisfy a tree if and only if the tree has members and the set
does not block it. Inner trees without members need no case of their own, as the statement covers them. -/
theorem isSlice_diff (h : q.consistent = true) (s : NodeSet) :
    q.isSlice (q.validatorSet \ s) = (!q.isEmpty && !q.isBlocking s) := by
  induction q using induct with
  | step q ih =>
    cases empty : q.isEmpty with
    | true => rw [isSlice_of_isEmpty h empty, Bool.not_true, Bool.false_and]
    | false =>
      have consistent := (consistent_iff.1 h).2
      have validators : q.validators.countP (· ∈ q.validatorSet \ s) = q.validators.countP (· ∉ s) := by
        apply List.countP_congr
        intro v hv
        have known : v ∈ q.validatorSet := mem_validatorSet.2 (Or.inl hv)
        simp only [decide_eq_true_eq, SortedSet.mem_diff, known, true_and]
      have inner : q.inner.countP (isSlice (q.validatorSet \ s)) =
          q.inner.countP fun r => !r.isEmpty && !r.isBlocking s := by
        apply List.countP_congr
        intro r hr
        -- the validators of `r` are among those of `q`, so the same of them are outside `s`
        have own : r.isSlice (q.validatorSet \ s) = r.isSlice (r.validatorSet \ s) := by
          apply isSlice_congr
          intro v hv
          have known : v ∈ q.validatorSet := mem_validatorSet.2 (Or.inr ⟨r, hr, hv⟩)
          simp only [SortedSet.mem_diff, known, hv]
        rw [own, ih r hr (consistent r hr)]
      have blocked : q.isBlocking s = false ↔
          q.threshold ≤ q.validators.countP (· ∉ s) + q.inner.countP fun r => !r.isEmpty && !r.isBlocking s := by
        rw [← Bool.not_eq_true, isBlocking_iff, and_iff_right empty, Nat.not_lt]
      rw [Bool.not_false, Bool.true_and, Bool.eq_iff_iff, Bool.not_eq_true', blocked, isSlice_iff, validators, inner]

/-- a set has a node in common with every listed slice if and only if no slice is left outside it -/
theorem meets_slices_iff (h : q.consistent = true) :
    (∀ t ∈ q.slices, ∃ k ∈ t, k ∈ s) ↔ q.isSlice (q.validatorSet \ s) = false := by
  rw [← Bool.not_eq_true, isSlice_iff_exists_slice h]
  constructor
  · rintro meets ⟨t, ht, outside⟩
    obtain ⟨k, hk, hks⟩ := meets t ht
    exact (SortedSet.mem_diff.1 (outside k hk)).2 hks
  · intro none t ht
    apply Classical.byContradiction
    intro apart
    refine none ⟨t, ht, fun k hk => SortedSet.mem_diff.2 ⟨slice_subset_validatorSet ht k hk, ?_⟩⟩
    intro hks
    exact apart ⟨k, hk, hks⟩

/-- blocking is leaving no slice outside, for a tree that has members -/
theorem isBlocking_iff_diff (h : q.consistent = true) :
    q.isBlocking s = true ↔ q.isEmpty = false ∧ q.isSlice (q.validatorSet \ s) = false := by
  rw [isSlice_diff h]
  constructor
  · intro blocked
    have members := (isBlocking_iff.1 blocked).1
    exact ⟨members, by rw [members, blocked]; rfl⟩
  · rintro ⟨members, left⟩
    rw [members] at left
    simpa using left

end TrustTree

namespace QuorumSet

/-- **Sets apart.** A set without any of the validators blocks a quorum set only if there is nothing left to block: if the
quorum set has members, but no slice. -/
theorem isBlocking_iff_of_apart {q : QuorumSet} {s : NodeSet} (apart : ∀ v ∈ q.validatorSet, v ∉ s) :
    q.isBlocking s = true ↔ 0 < q.memberCount ∧ q.slices = [] := by
  have members : q.tree.isEmpty = false ↔ 0 < q.memberCount := by
    rw [← Bool.not_eq_true, TrustTree.isEmpty_iff]
    exact Nat.pos_iff_ne_zero.symm
  have nothing : q.tree.isSlice (q.tree.validatorSet \ s) = false ↔ q.slices = [] := by
    rw [← TrustTree.meets_slices_iff q.consistent]
    constructor
    · intro meets
      refine List.eq_nil_iff_forall_not_mem.2 fun t ht => ?_
      obtain ⟨k, hk, hks⟩ := meets t ht
      exact apart k (TrustTree.slice_subset_validatorSet ht k hk) hks
    · intro none t ht
      have listed : t ∈ q.slices := ht
      rw [none] at listed
      exact absurd listed List.not_mem_nil
  exact (TrustTree.isBlocking_iff_diff q.consistent).trans (and_congr members nothing)

/-- **Blocking is dual to slices.** For a quorum set that has members, three things are the same: a set of nodes blocks
it, the set has a node in common with every listed slice, and the validators outside the set do not satisfy it. A quorum
set without members is blocked by no set. -/
theorem blocking_dual_to_slices (q : QuorumSet) (s : NodeSet) :
    (0 < q.memberCount →
      (q.isBlocking s = true ↔ ∀ t ∈ q.slices, ∃ k ∈ t, k ∈ s) ∧
      (q.isBlocking s = true ↔ q.isSlice (q.validatorSet \ s) = false)) ∧
    (q.memberCount = 0 → q.isBlocking s = false) := by
  have left_alone : q.isSlice (q.validatorSet \ s) = (!q.isEmpty && !q.isBlocking s) :=
    TrustTree.isSlice_diff q.consistent s
  constructor
  · intro members
    have nonempty : q.isEmpty = false := by
      rw [← Bool.not_eq_true]
      exact fun empty => absurd (TrustTree.isEmpty_iff.1 empty) (Nat.ne_of_gt members)
    have dual : q.isBlocking s = true ↔ q.isSlice (q.validatorSet \ s) = false := by
      rw [left_alone, nonempty]
      simp
    exact ⟨dual.trans (TrustTree.meets_slices_iff q.consistent).symm, dual⟩
  · intro none
    rw [← Bool.not_eq_true]
    intro blocked
    have nonempty := (TrustTree.isBlocking_iff.1 blocked).1
    rw [TrustTree.isEmpty_iff.2 none] at nonempty
    exact absurd nonempty (by decide)

/-- two of five members: "A", "B", one of "B" and "C", a quorum set without members, and one that cannot be satisfied
because it needs such a quorum set -/
def layered : QuorumSet :=
  ⟨⟨2, ["A", "B"], [⟨1, ["B", "C"], []⟩, ⟨1, [], []⟩, ⟨2, ["D"], [⟨1, [], []⟩]⟩]⟩, by decide⟩

/-- "B" and "C" together are in every slice of it; "B" alone is not, as "A" and "C" are a slice -/
theorem layered_blocked :
    0 < layered.memberCount ∧
    layered.slices = [.ofList ["A", "B"], .ofList ["A", "C"], .ofList ["B"], .ofList ["B", "C"]] ∧
    layered.isBlocking (.ofList ["B", "C"]) = true ∧
    (∀ t ∈ layered.slices, ∃ k ∈ t, k ∈ SortedSet.ofList ["B", "C"]) ∧
    layered.isSlice (layered.validatorSet \ .ofList ["B", "C"]) = false ∧
    layered.isBlocking (.ofList ["B"]) = false := by
  have members : 0 < layered.memberCount := by decide
  have blocked : layered.isBlocking (.ofList ["B", "C"]) = true := by decide
  have dual := (blocking_dual_to_slices layered (.ofList ["B", "C"])).1 members
  exact ⟨members, by decide, blocked, dual.1.1 blocked, dual.2.1 blocked, by decide⟩

end QuorumSet

end FederatedAgreement
