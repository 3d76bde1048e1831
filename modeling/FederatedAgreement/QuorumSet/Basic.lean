/-
Quorum sets: which nodes a node trusts. A quorum set has a threshold over its members, which are validators and further
quorum sets. `TrustTree` is the bare shape, `QuorumSet` a shape whose counts make sense at every level.

Results:
- `TrustTree.induct`: induction over the members of members.
- `QuorumSet.make_eq_ok_iff`: when a quorum set can be made, and which one it is.
- `QuorumSet.inner_trees`: the inner quorum sets are the inner trees.
-/
import FederatedAgreement.Fault
import FederatedAgreement.Sorting.SortedSet

namespace FederatedAgreement

open Sorting (SortedSet)

/-- a set of nodes -/
abbrev NodeSet := SortedSet NodeId

/-! ## Shapes -/

/-- a threshold over validators and inner trees -/
structure TrustTree where
  threshold : Nat
  validators : List NodeId
  inner : List TrustTree
deriving Repr

namespace TrustTree

theorem sizeOf_inner_lt {q r : TrustTree} (h : r ∈ q.inner) : sizeOf r < sizeOf q := by
  have := List.sizeOf_lt_of_mem h
  cases q
  simp only [TrustTree.mk.sizeOf_spec] at this ⊢
  omega

/-- induction over the members of members -/
theorem induct {P : TrustTree → Prop} (step : ∀ q : TrustTree, (∀ r ∈ q.inner, P r) → P q) (q : TrustTree) : P q :=
  step q fun r _ => induct step r
termination_by sizeOf q
decreasing_by exact sizeOf_inner_lt ‹_›

mutual

def decideEq : (q r : TrustTree) → Decidable (q = r)
  | ⟨t, vs, qs⟩, ⟨t', vs', rs⟩ =>
    if h : t = t' ∧ vs = vs' then
      match decideEqAll qs rs with
      | isTrue e => isTrue (by rw [h.1, h.2, e])
      | isFalse n => isFalse fun e => n (by injection e)
    else isFalse fun e => h (by injection e with h1 h2; exact ⟨h1, h2⟩)

def decideEqAll : (qs rs : List TrustTree) → Decidable (qs = rs)
  | [], [] => isTrue rfl
  | [], _ :: _ => isFalse nofun
  | _ :: _, [] => isFalse nofun
  | q :: qs, r :: rs =>
    match decideEq q r, decideEqAll qs rs with
    | isTrue e, isTrue e' => isTrue (by rw [e, e'])
    | isFalse n, _ => isFalse fun e => n (by injection e)
    | _, isFalse n => isFalse fun e => n (by injection e)

end

instance : DecidableEq TrustTree := decideEq

/-- validators and inner trees together -/
def memberCount (q : TrustTree) : Nat := q.validators.length + q.inner.length

/-- a tree without members -/
def isEmpty (q : TrustTree) : Bool := q.memberCount = 0

/-- the counts of one level make sense: the threshold is at least one, no validator is named twice, and there are enough
members to reach the threshold unless there are none at all -/
def LevelConsistent (q : TrustTree) : Prop :=
  1 ≤ q.threshold ∧ q.validators.Nodup ∧ (q.memberCount = 0 ∨ q.threshold ≤ q.memberCount)

instance (q : TrustTree) : Decidable q.LevelConsistent := by unfold LevelConsistent; infer_instance

mutual

/-- the counts make sense at every level -/
def consistent : TrustTree → Bool
  | ⟨t, vs, qs⟩ => decide (LevelConsistent ⟨t, vs, qs⟩) && allConsistent qs

def allConsistent : List TrustTree → Bool
  | [] => true
  | q :: qs => consistent q && allConsistent qs

end

theorem allConsistent_iff {qs : List TrustTree} : allConsistent qs = true ↔ ∀ q ∈ qs, q.consistent = true := by
  induction qs with
  | nil => simp [allConsistent]
  | cons q qs ih => simp [allConsistent, ih]

theorem consistent_iff {q : TrustTree} :
    q.consistent = true ↔ q.LevelConsistent ∧ ∀ r ∈ q.inner, r.consistent = true := by
  cases q
  simp [consistent, allConsistent_iff]

mutual

/-- every validator at any depth -/
def validatorSet : TrustTree → NodeSet
  | ⟨_, vs, qs⟩ => SortedSet.ofList vs ∪ validatorSetAll qs

def validatorSetAll : List TrustTree → NodeSet
  | [] => ∅
  | q :: qs => validatorSet q ∪ validatorSetAll qs

end

theorem mem_validatorSetAll {v : NodeId} {qs : List TrustTree} :
    v ∈ validatorSetAll qs ↔ ∃ q ∈ qs, v ∈ q.validatorSet := by
  induction qs with
  | nil => simp [validatorSetAll]
  | cons q qs ih => simp [validatorSetAll, ih]

theorem mem_validatorSet {v : NodeId} {q : TrustTree} :
    v ∈ q.validatorSet ↔ v ∈ q.validators ∨ ∃ r ∈ q.inner, v ∈ r.validatorSet := by
  cases q
  simp [validatorSet, mem_validatorSetAll]

mutual

/-- a text that does not depend on the order of members: the threshold, the sorted validators and the sorted texts of
the inner trees -/
def canonical : TrustTree → String
  | ⟨t, vs, qs⟩ =>
    let level := toString t ++ ":[" ++ ",".intercalate (Sorting.ascending vs) ++ "]"
    match canonicalAll qs with
    | [] => level
    | inner => level ++ "(" ++ ",".intercalate (Sorting.ascending inner) ++ ")"

def canonicalAll : List TrustTree → List String
  | [] => []
  | q :: qs => canonical q :: canonicalAll qs

end

theorem canonicalAll_eq_map (qs : List TrustTree) : canonicalAll qs = qs.map canonical := by
  induction qs with
  | nil => rfl
  | cons q qs ih => rw [canonicalAll, ih, List.map_cons]

end TrustTree

/-! ## Quorum sets -/

/-- a trust configuration whose counts make sense at every level -/
structure QuorumSet where
  tree : TrustTree
  consistent : tree.consistent = true
deriving DecidableEq

namespace QuorumSet

instance : Repr QuorumSet := ⟨fun q => reprPrec q.tree⟩

def threshold (q : QuorumSet) : Nat := q.tree.threshold

def validators (q : QuorumSet) : List NodeId := q.tree.validators

/-- the quorum sets among the members -/
def inner (q : QuorumSet) : List QuorumSet :=
  q.tree.inner.attach.map fun r => ⟨r.1, (TrustTree.consistent_iff.1 q.consistent).2 r.1 r.2⟩

theorem inner_trees (q : QuorumSet) : q.inner.map tree = q.tree.inner := by
  simp [inner, Function.comp_def]

theorem ext_tree {q r : QuorumSet} (h : q.tree = r.tree) : q = r := by
  cases q; cases r; cases h; rfl

def memberCount (q : QuorumSet) : Nat := q.tree.memberCount

def isEmpty (q : QuorumSet) : Bool := q.tree.isEmpty

/-- every validator at any depth -/
def validatorSet (q : QuorumSet) : NodeSet := q.tree.validatorSet

/-- a text that does not depend on the order of members -/
def canonical (q : QuorumSet) : String := q.tree.canonical

/-- make a quorum set of its parts, or say what does not fit: the threshold is checked first, then the validators, then
the threshold against the number of members -/
def make (threshold : Int) (validators : List NodeId) (inner : List QuorumSet) : Except Misconfiguration QuorumSet :=
  if hlow : threshold < 1 then .error (.thresholdBelowOne threshold)
  else if hdup : ¬ validators.Nodup then .error (.repeatedValidators (validators.map .text))
  else
    let members := validators.length + inner.length
    if hhigh : 0 < members ∧ (members : Int) < threshold then .error (.thresholdAboveMembers threshold members)
    else
      .ok {
        tree := ⟨threshold.toNat, validators, inner.map tree⟩
        consistent := by
          refine TrustTree.consistent_iff.2 ⟨⟨by show 1 ≤ threshold.toNat; omega, Classical.not_not.1 hdup, ?_⟩, ?_⟩
          · have hm : TrustTree.memberCount ⟨threshold.toNat, validators, inner.map tree⟩ = members := by
              simp [TrustTree.memberCount, members]
            rw [hm]
            show members = 0 ∨ threshold.toNat ≤ members
            omega
          · intro r hr
            obtain ⟨q, _, rfl⟩ := List.mem_map.1 hr
            exact q.consistent }

/-- **What can be made.** Making succeeds exactly when the counts of the new level make sense, and yields that level. -/
theorem make_eq_ok_iff {threshold : Int} {validators : List NodeId} {inner : List QuorumSet} {q : QuorumSet} :
    make threshold validators inner = .ok q ↔
      1 ≤ threshold ∧ validators.Nodup ∧
      (validators.length + inner.length = 0 ∨ threshold ≤ (validators.length + inner.length : Nat)) ∧
      q.tree = ⟨threshold.toNat, validators, inner.map tree⟩ := by
  unfold make
  split
  · next hlow => exact ⟨nofun, fun h => absurd h.1 (by omega)⟩
  · split
    · next hdup => exact ⟨nofun, fun h => absurd h.2.1 hdup⟩
    · next hlow hdup =>
      have hdup := Classical.not_not.1 hdup
      dsimp only
      split
      · next hhigh => exact ⟨nofun, fun h => absurd h.2.2.1 (by omega)⟩
      · constructor
        · rintro ⟨rfl⟩
          exact ⟨by omega, hdup, by omega, rfl⟩
        · rintro ⟨_, _, _, h⟩
          exact congrArg Except.ok (ext_tree h.symm)

/-- a level of validators only, with a threshold that they can reach -/
def flat (threshold : Nat) (validators : List NodeId) (h : TrustTree.LevelConsistent ⟨threshold, validators, []⟩) :
    QuorumSet :=
  ⟨⟨threshold, validators, []⟩, TrustTree.consistent_iff.2 ⟨h, by simp⟩⟩

end QuorumSet

end FederatedAgreement
