/-
Slices of a quorum set, listed: each picks as many members as the threshold says, and an inner quorum set that is picked
stands for each of its own slices in turn. Larger sets that hold a slice are not listed.
-/
import FederatedAgreement.QuorumSet.Basic

namespace FederatedAgreement

open Sorting (SortedSet)

/-- the ways to pick `k` elements of a list in their order, those with earlier elements first -/
def selections {α : Type} : Nat → List α → List (List α)
  | 0, _ => [[]]
  | _ + 1, [] => []
  | k + 1, a :: as => (selections k as).map (a :: ·) ++ selections (k + 1) as

/-- the unions of one set from each list, the last list varying fastest -/
def unions (choices : List (List NodeSet)) : List NodeSet :=
  choices.foldl (fun partials options => partials.flatMap fun p => options.map (p ∪ ·)) [∅]

namespace TrustTree

mutual

/-- the listed slices of a tree, each once, in the order in which they are found -/
def slices : TrustTree → List NodeSet
  | ⟨t, vs, qs⟩ =>
    if vs.length + qs.length = 0 then []
    else ((selections t (vs.map (fun v => [SortedSet.singleton v]) ++ sliceLists qs)).flatMap unions).eraseDups

/-- the slices of each tree that has some -/
def sliceLists : List TrustTree → List (List NodeSet)
  | [] => []
  | q :: qs =>
    match slices q with
    | [] => sliceLists qs
    | options => options :: sliceLists qs

end

theorem sliceLists_eq_filter (qs : List TrustTree) : sliceLists qs = (qs.map slices).filter (!·.isEmpty) := by
  induction qs with
  | nil => rfl
  | cons q qs ih =>
    rw [sliceLists, ih, List.map_cons, List.filter_cons]
    split <;> simp_all

end TrustTree

/-- the listed slices of a quorum set -/
def QuorumSet.slices (q : QuorumSet) : List NodeSet := q.tree.slices

end FederatedAgreement
