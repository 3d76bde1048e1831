/-
Masks: the subsets of an ascending list of nodes as numbers, the first node being the lowest bit. All subsets of n nodes
are then the numbers below 2 ^ n, which is the order in which searches meet them.

Results:
- `toSet_ofSet`: a set of listed nodes is found again from its mask.
-/
import FederatedAgreement.QuorumSet.Basic

namespace FederatedAgreement

open Sorting (SortedSet)

namespace Mask

/-- the mask of those listed nodes that are in a set -/
def ofSet : List NodeId → NodeSet → Nat
  | [], _ => 0
  | k :: ks, s => (if k ∈ s then 1 else 0) + 2 * ofSet ks s

/-- the listed nodes of a mask -/
def pick : List NodeId → Nat → List NodeId
  | [], _ => []
  | k :: ks, m => if m % 2 = 1 then k :: pick ks (m / 2) else pick ks (m / 2)

theorem pick_sublist (ks : List NodeId) (m : Nat) : (pick ks m).Sublist ks := by
  induction ks generalizing m with
  | nil => exact List.Sublist.refl _
  | cons k ks ih =>
    simp only [pick]
    split
    · exact (ih _).cons_cons k
    · exact (ih _).cons k

/-- the set of a mask -/
def toSet (nodes : NodeSet) (m : Nat) : NodeSet :=
  ⟨pick nodes.toList m, nodes.ascending.sublist (pick_sublist nodes.toList m)⟩

theorem pick_ofSet (ks : List NodeId) (s : NodeSet) : pick ks (ofSet ks s) = ks.filter (· ∈ s) := by
  induction ks with
  | nil => rfl
  | cons k ks ih =>
    have half : ((if k ∈ s then 1 else 0) + 2 * ofSet ks s) / 2 = ofSet ks s := by split <;> omega
    have low : ((if k ∈ s then 1 else 0) + 2 * ofSet ks s) % 2 = if k ∈ s then 1 else 0 := by split <;> omega
    rw [ofSet, pick, half, low, ih, List.filter_cons]
    by_cases h : k ∈ s <;> simp [h]

/-- **Masks name sets.** A set of listed nodes is found again from its mask. -/
theorem toSet_ofSet {nodes s : NodeSet} (h : s ⊆ nodes) : toSet nodes (ofSet nodes.toList s) = s := by
  refine SortedSet.ext fun a => ?_
  show a ∈ pick nodes.toList (ofSet nodes.toList s) ↔ _
  rw [pick_ofSet]
  rw [List.mem_filter, decide_eq_true_eq]
  exact ⟨fun ha => ha.2, fun ha => ⟨h a ha, ha⟩⟩

/-- how many of the lowest `n` bits are one -/
def size : Nat → Nat → Nat
  | 0, _ => 0
  | n + 1, m => m % 2 + size n (m / 2)

/-- every node of the first mask is in the second -/
def within (a b : Nat) : Bool := a &&& b == a

/-- the masks share a node -/
def meets (a b : Nat) : Bool := a &&& b != 0

/-- every two of the masks share a node -/
def allMeet : List Nat → Bool
  | [] => true
  | m :: ms => ms.all (meets m) && allMeet ms

/-- the masks that hold no other of the masks -/
def minimal (ms : List Nat) : List Nat := ms.filter fun m => ms.all fun other => !within other m || other == m

/-- the masks over `n` nodes by ascending size, those of one size in the order given -/
def bySize (n : Nat) (ms : List Nat) : List Nat :=
  (List.range (n + 1)).flatMap fun k => ms.filter (size n · == k)

end Mask

end FederatedAgreement
