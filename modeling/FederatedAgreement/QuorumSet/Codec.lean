/-
Quorum sets as documents: a record of the threshold, the validators and the inner quorum sets. Reading takes the
threshold as any whole number, takes absent members as none, and checks the inner sets before the outer one.

Result:
- `ofDocument_toDocument`: what was written reads back.
-/
import FederatedAgreement.Document.Field
import FederatedAgreement.QuorumSet.Basic

namespace FederatedAgreement

namespace TrustTree

mutual

def toDocument : TrustTree → Document
  | ⟨t, vs, qs⟩ =>
    .record [("threshold", .int t), ("validators", .texts vs), ("inner_quorum_sets", .list (toDocuments qs))]

def toDocuments : List TrustTree → List Document
  | [] => []
  | q :: qs => toDocument q :: toDocuments qs

end

end TrustTree

namespace QuorumSet

/-- the record of a quorum set -/
def toDocument (q : QuorumSet) : Document := q.tree.toDocument

/-- why validators that are not all texts give no quorum set; what is wrong with their number or with repetitions is
found first -/
def validatorsFault (threshold : Int) (items : List Document) (inner : Nat) : Fault :=
  if threshold < 1 then .misconfigured (.thresholdBelowOne threshold)
  else
    match items.mapM Document.scalar? with
    | none => .unreadable .wrongKind
    | some names =>
      let members := items.length + inner
      if (Scalar.distinct names).length < names.length then .misconfigured (.repeatedValidators names)
      else if (members : Int) < threshold then .misconfigured (.thresholdAboveMembers threshold members)
      else .unreadable .wrongKind

/-- join the parts of a record that were read, in the order in which they are checked: threshold, validators, inner
sets, and then the counts -/
def ofParts (threshold : Except ReadFault Int) (validators : Except ReadFault (List Document))
    (inner : Except Fault (List QuorumSet)) : Except Fault QuorumSet := do
  let threshold ← Fault.ofReadFault threshold
  let items ← Fault.ofReadFault validators
  let inner ← inner
  match items.mapM Document.text? with
  | some validators => Fault.ofMisconfiguration (make threshold validators inner)
  | none => .error (validatorsFault threshold items inner.length)

mutual

/-- the quorum set that a document describes -/
def ofDocument : Document → Except Fault QuorumSet
  | .record fields =>
    ofParts
      (do (← (Document.record fields).require "threshold").asInteger)
      (do (← (Document.record fields).optional "validators" (.list [])).items)
      (ofField "inner_quorum_sets" fields)
  | _ => .error (.unreadable .wrongKind)

/-- the quorum sets that the named field lists; none if it is absent -/
def ofField (name : Scalar) : List (Scalar × Document) → Except Fault (List QuorumSet)
  | [] => .ok []
  | (other, value) :: fields => if other.identity = name.identity then ofItems value else ofField name fields

/-- the quorum sets that a document lists -/
def ofItems : Document → Except Fault (List QuorumSet)
  | .list items => ofList items
  | .text s => if s = "" then .ok [] else .error (.unreadable .wrongKind)
  | .record fields => if fields.isEmpty then .ok [] else .error (.unreadable .wrongKind)
  | _ => .error (.unreadable .wrongKind)

def ofList : List Document → Except Fault (List QuorumSet)
  | [] => .ok []
  | d :: ds => do
    let q ← ofDocument d
    let qs ← ofList ds
    .ok (q :: qs)

end

/-! ## Reading back -/

theorem ofParts_ok {t : Int} {vs : List NodeId} {qs : List QuorumSet} :
    ofParts (.ok t) (.ok (vs.map .text)) (.ok qs) = Fault.ofMisconfiguration (make t vs qs) := by
  have h : (vs.map Document.text).mapM Document.text? = some vs := Document.mapM_text? vs
  show (match (vs.map Document.text).mapM Document.text? with
    | some validators => Fault.ofMisconfiguration (make t validators qs)
    | none => .error (validatorsFault t (vs.map .text) qs.length)) = _
  rw [h]

theorem make_parts (q : QuorumSet) : make q.threshold q.validators q.inner = .ok q := by
  refine make_eq_ok_iff.2 ?_
  obtain ⟨⟨low, nodup, high⟩, _⟩ := TrustTree.consistent_iff.1 q.consistent
  have count : q.validators.length + q.inner.length = q.tree.memberCount := by
    rw [TrustTree.memberCount, ← inner_trees, List.length_map]; rfl
  refine ⟨Int.ofNat_le.2 low, nodup, ?_, ?_⟩
  · rw [count]
    exact high.imp id Int.ofNat_le.2
  · rw [inner_trees, Int.toNat_natCast]
    obtain ⟨⟨t, vs, qs⟩, h⟩ := q
    rfl

theorem ofList_toDocuments {qs : List QuorumSet} (h : ∀ q ∈ qs, ofDocument q.toDocument = .ok q) :
    ofList (TrustTree.toDocuments (qs.map tree)) = .ok qs := by
  induction qs with
  | nil => rfl
  | cons q qs ih =>
    have hq : ofDocument (TrustTree.toDocument q.tree) = .ok q := h q List.mem_cons_self
    rw [List.map_cons, TrustTree.toDocuments, ofList, hq, ih fun r hr => h r (List.mem_cons_of_mem _ hr)]
    rfl

/-- **Quorum sets survive writing and reading.** -/
theorem ofDocument_toDocument (q : QuorumSet) : ofDocument q.toDocument = .ok q := by
  obtain ⟨t, h⟩ := q
  induction t using TrustTree.induct with
  | step t ih =>
    have back : ∀ r ∈ inner ⟨t, h⟩, ofDocument r.toDocument = .ok r := by
      intro r hr
      obtain ⟨s, _, rfl⟩ := List.mem_map.1 hr
      exact ih s.1 s.2 _
    have inner : ofList (TrustTree.toDocuments t.inner) = .ok (inner ⟨t, h⟩) := by
      have := ofList_toDocuments back
      rwa [inner_trees] at this
    have whole := make_parts ⟨t, h⟩
    cases t with
    | mk n vs qs =>
      show ofParts (.ok n) (.ok (vs.map .text)) (ofList (TrustTree.toDocuments qs)) = _
      rw [inner, ofParts_ok]
      show Fault.ofMisconfiguration (make n vs _) = _
      exact (congrArg Fault.ofMisconfiguration whole).trans rfl

end QuorumSet

end FederatedAgreement
