/-
Events as documents: a record of the kind's name, the node and the details. Details are read from a record or from a
list of pairs; those of an event which is being reported need a record. The node must be a text: another value, which a
reader that checks no kinds takes over, is refused as being of the wrong kind. The values of details are not looked at.

Result:
- `Event.ofDocument_toDocument`: what was written reads back.
-/
import FederatedAgreement.Event
import FederatedAgreement.Vote.Codec

namespace FederatedAgreement

/-- the kind that a document names -/
def EventKind.ofDocument : Document → Except ReadFault EventKind := Document.asMember ofName? "EventType"

namespace Event

def toDocument (e : Event) : Document :=
  .record [("type", .text e.kind.name), ("target_id", .text e.target), ("metadata", .record e.details)]

/-- a detail out of the pair of its name and its value -/
def detailOf (index : Nat) (pair : Document) : Except ReadFault (Scalar × Document) := do
  match ← pair.items with
  | [.scalar name, value] => .ok (name, value)
  | [_, _] => .error .wrongKind
  | found => .error (.entryLength index found.length)

/-- the fields of a record, or those that a list of pairs gives; of a name given twice the last value counts -/
def detailsOf : Document → Except ReadFault (List (Scalar × Document))
  | .record fields => .ok fields
  | d => do
    let pairs ← (← d.items).zipIdx.mapM fun item => detailOf item.2 item.1
    .ok (pairs.foldl (fun fields pair => Document.put pair.1 pair.2 fields) [])

/-- names that stand for parts of an event which is being reported, so that none of its details can have them -/
def reservedNames : List Scalar.Identity := [.text "self", .text "event_type", .text "target_id"]

/-- the details of an event which is being reported -/
def reportedDetails : Document → Except ReadFault (List (Scalar × Document))
  | .record fields => if fields.any (reservedNames.contains ·.1.identity) then .error .wrongKind else .ok fields
  | _ => .error .wrongKind

def ofDocument (d : Document) : Except ReadFault Event := do
  let kind ← EventKind.ofDocument (← d.require "type")
  let target ← d.require "target_id"
  let details ← detailsOf (← d.optional "metadata" (.record []))
  .ok ⟨kind, ← target.asText, details⟩

theorem ofDocument_toDocument (e : Event) : ofDocument e.toDocument = .ok e := by
  obtain ⟨kind, target, details⟩ := e
  cases kind <;> rfl

end Event

end FederatedAgreement
