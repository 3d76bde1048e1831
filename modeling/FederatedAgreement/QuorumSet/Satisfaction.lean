/-
Which node sets satisfy a quorum set and which block it. Both count members: a set satisfies a quorum set if the
validators in it and the inner quorum sets that it satisfies reach the threshold; it blocks a quorum set if the members
that it leaves alone cannot reach the threshold any more.

Results:
- `isSlice_iff`, `isBlocking_iff`: both as counts over the members.
-/
import FederatedAgreement.QuorumSet.Basic

namespace FederatedAgreement

open Sorting (SortedSet)

namespace TrustTree

mutual

/-- the nodes of `s`, if they agree, satisfy the tree -/
def isSlice (s : NodeSet) : TrustTree → Bool
  | ⟨t, vs, qs⟩ => decide (t ≤ vs.countP (· ∈ s) + sliceCount s qs)

/-- how many trees of a list are satisfied -/
def sliceCount (s : NodeSet) : List TrustTree → Nat
  | [] => 0
  | q :: qs => (if isSlice s q then 1 else 0) + sliceCount s qs

end

mutual

/-- without the nodes of `s` the tree cannot be satisfied; a tree without members is not blocked by any set -/
def isBlocking (s : NodeSet) : TrustTree → Bool
  | ⟨t, vs, qs⟩ => !isEmpty ⟨t, vs, qs⟩ && decide (vs.countP (· ∉ s) + openCount s qs < t)

/-- how many trees of a list can still be satisfied; a tree without members never can -/
def openCount (s : NodeSet) : List TrustTree → Nat
  | [] => 0
  | q :: qs => (if !q.isEmpty && !isBlocking s q then 1 else 0) + openCount s qs

end

theorem sliceCount_eq_countP (s : NodeSet) (qs : List TrustTree) : sliceCount s qs = qs.countP (isSlice s) := by
  induction qs with
  | nil => rfl
  | cons q qs ih => rw [sliceCount, ih, List.countP_cons, Nat.add_comm]

theorem openCount_eq_countP (s : NodeSet) (qs : List TrustTree) :
    openCount s qs = qs.countP fun q => !q.isEmpty && !isBlocking s q := by
  induction qs with
  | nil => rfl
  | cons q qs ih => rw [openCount, ih, List.countP_cons, Nat.add_comm]

theorem isSlice_iff {s : NodeSet} {q : TrustTree} :
    q.isSlice s = true ↔ q.threshold ≤ q.validators.countP (· ∈ s) + q.inner.countP (isSlice s) := by
  cases q
  simp [isSlice, sliceCount_eq_countP]

theorem isBlocking_iff {s : NodeSet} {q : TrustTree} :
    q.isBlocking s = true ↔ q.isEmpty = false ∧
      q.validators.countP (· ∉ s) + (q.inner.countP fun r => !r.isEmpty && !r.isBlocking s) < q.threshold := by
  cases q
  simp only [isBlocking, openCount_eq_countP, Bool.and_eq_true, Bool.not_eq_true', decide_eq_true_eq]

end TrustTree

/-- the nodes of `s`, if they agree, satisfy the quorum set -/
def QuorumSet.isSlice (q : QuorumSet) (s : NodeSet) : Bool := q.tree.isSlice s

/-- the nodes of `s` can keep the quorum set from being satisfied -/
def QuorumSet.isBlocking (q : QuorumSet) (s : NodeSet) : Bool := q.tree.isBlocking s

end FederatedAgreement
