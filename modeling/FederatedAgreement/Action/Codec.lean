/-
Actions as documents: a record with the name of the kind and the fields of that kind. The nodes and the statement of an
action must be texts, both of them where there are two; where a reader that checks no kinds takes other values over, they
are refused as being of the wrong kind.

Results:
- `UserAction.ofDocument_toDocument`, `ProtocolAction.ofDocument_toDocument`: what was written reads back.
-/
import FederatedAgreement.Action
import FederatedAgreement.Vote.Codec

namespace FederatedAgreement

/-- the kind that a document names -/
def ActionKind.ofDocument : Document → Except ReadFault ActionKind := Document.asMember ofName? "ActionType"

namespace UserAction

def toDocument : UserAction → Document
  | .addNode node quorumSet =>
    .record [("type", .text ActionKind.addNode.name), ("public_key", .text node), ("quorum_set", quorumSet.toDocument)]
  | .removeNode node => .record [("type", .text ActionKind.removeNode.name), ("public_key", .text node)]
  | .updateQuorumSet node quorumSet =>
    .record [("type", .text ActionKind.updateQuorumSet.name), ("public_key", .text node),
      ("quorum_set", quorumSet.toDocument)]
  | .vote node statement =>
    .record [("type", .text ActionKind.vote.name), ("public_key", .text node), ("statement", .text statement)]
  | .connect a b => .record [("type", .text ActionKind.connect.name), ("a", .text a), ("b", .text b)]
  | .disconnect a b => .record [("type", .text ActionKind.disconnect.name), ("a", .text a), ("b", .text b)]
  | .forge message => .record [("type", .text ActionKind.forge.name), ("message", message.toDocument)]

/-- the texts of two required fields -/
def textPair (d : Document) (first second : String) : Except Fault (String × String) := Fault.ofReadFault do
  let a ← d.require first
  let b ← d.require second
  .ok (← a.asText, ← b.asText)

/-- the fields of an action of a given kind -/
def ofFields (d : Document) : ActionKind → Except Fault UserAction
  | .addNode => do
    let node ← Node.ofDocument d
    .ok (.addNode node.key node.quorumSet)
  | .removeNode => Fault.ofReadFault do .ok (.removeNode (← d.requireText "public_key"))
  | .updateQuorumSet => do
    let node ← Node.ofDocument d
    .ok (.updateQuorumSet node.key node.quorumSet)
  | .vote => do
    let (node, statement) ← textPair d "public_key" "statement"
    .ok (.vote node statement)
  | .connect => do
    let (a, b) ← textPair d "a" "b"
    .ok (.connect a b)
  | .disconnect => do
    let (a, b) ← textPair d "a" "b"
    .ok (.disconnect a b)
  | .forge => Fault.ofReadFault do .ok (.forge (← Message.ofDocument (← d.require "message")))
  | kind => .error (.unreadable (.wrongRole kind.name "user action"))

def ofDocument (d : Document) : Except Fault UserAction := do
  let kind ← Fault.ofReadFault (do ActionKind.ofDocument (← d.require "type"))
  ofFields d kind

theorem ofDocument_toDocument (a : UserAction) : ofDocument a.toDocument = .ok a := by
  cases a with
  | addNode node quorumSet =>
    have h : Node.ofDocument (addNode node quorumSet).toDocument = .ok ⟨node, quorumSet⟩ :=
      Node.ofDocument_eq_ok rfl rfl
    show ofFields (addNode node quorumSet).toDocument .addNode = _
    rw [ofFields, h]
    rfl
  | updateQuorumSet node quorumSet =>
    have h : Node.ofDocument (updateQuorumSet node quorumSet).toDocument = .ok ⟨node, quorumSet⟩ :=
      Node.ofDocument_eq_ok rfl rfl
    show ofFields (updateQuorumSet node quorumSet).toDocument .updateQuorumSet = _
    rw [ofFields, h]
    rfl
  | removeNode node => rfl
  | vote node statement => rfl
  | connect a b => rfl
  | disconnect a b => rfl
  | forge message =>
    show Fault.ofReadFault (Message.ofDocument message.toDocument >>= fun m => .ok (forge m)) = _
    rw [Message.ofDocument_toDocument]
    rfl

end UserAction

namespace ProtocolAction

def toDocument (a : ProtocolAction) : Document :=
  .record [("type", .text a.kind.name), ("message", a.message.toDocument), ("disrupted", .bool a.disrupted)]

/-- the half of a hop that an action kind names -/
def deliveryOf : ActionKind → Except ReadFault Delivery
  | .send => .ok .send
  | .receive => .ok .receive
  | kind => .error (.wrongRole kind.name "protocol action")

def ofDocument (d : Document) : Except ReadFault ProtocolAction := do
  let kind ← ActionKind.ofDocument (← d.require "type")
  let message ← Message.ofDocument (← d.require "message")
  let disrupted ← d.optional "disrupted" (.bool false)
  let delivery ← deliveryOf kind
  .ok ⟨delivery, message, disrupted.isTrue⟩

theorem ofDocument_toDocument (a : ProtocolAction) : ofDocument a.toDocument = .ok a := by
  obtain ⟨delivery, message, disrupted⟩ := a
  cases delivery <;>
  · show (Message.ofDocument message.toDocument >>= fun m => .ok (⟨_, m, disrupted⟩ : ProtocolAction)) = _
    rw [Message.ofDocument_toDocument]
    rfl

end ProtocolAction

end FederatedAgreement
