/-
Nodes, votes, messages and phases as documents. That a field is missing is found before what is wrong with the kinds of
the others. Keys and statements are texts. A reader that checks no kinds takes any value over in their place; this one
refuses what is no text as being of the wrong kind, so the keys of nodes, the statements and voters of votes, and the ends
of messages that were read are texts.

Results:
- `Node.ofDocument_toDocument`, `Vote.ofDocument_toDocument`, `Message.ofDocument_toDocument`: what was written reads
  back.
-/
import FederatedAgreement.QuorumSet.Codec
import FederatedAgreement.Vote

namespace FederatedAgreement

/-- the text of a required field -/
def Document.requireText (d : Document) (name : String) : Except ReadFault String := do (← d.require name).asText

/-- the phase that a document names -/
def Phase.ofDocument : Document → Except ReadFault Phase := Document.asMember ofName? "Phase"

namespace Vote

def toDocument (v : Vote) : Document :=
  .record [("statement", .text v.statement), ("public_key", .text v.voter), ("is_accept", .bool v.isAccept)]

def ofDocument (d : Document) : Except ReadFault Vote := do
  let statement ← d.require "statement"
  let voter ← d.require "public_key"
  let isAccept ← d.optional "is_accept" (.bool false)
  .ok ⟨← statement.asText, ← voter.asText, isAccept.isTrue⟩

theorem ofDocument_toDocument (v : Vote) : ofDocument v.toDocument = .ok v := rfl

end Vote

namespace Message

def toDocument (m : Message) : Document :=
  .record [("sender", .text m.sender), ("receiver", .text m.receiver), ("vote", m.vote.toDocument)]

def ofDocument (d : Document) : Except ReadFault Message := do
  let sender ← d.require "sender"
  let receiver ← d.require "receiver"
  let vote ← Vote.ofDocument (← d.require "vote")
  .ok ⟨← sender.asText, ← receiver.asText, vote⟩

theorem ofDocument_toDocument (m : Message) : ofDocument m.toDocument = .ok m := by
  show (Vote.ofDocument m.vote.toDocument >>= fun vote => .ok (⟨m.sender, m.receiver, vote⟩ : Message)) = _
  rw [Vote.ofDocument_toDocument]
  rfl

end Message

namespace Node

def toDocument (n : Node) : Document :=
  .record [("public_key", .text n.key), ("quorum_set", n.quorumSet.toDocument)]

def ofDocument (d : Document) : Except Fault Node := do
  let key ← Fault.ofReadFault (d.require "public_key")
  let quorumSet ← QuorumSet.ofDocument (← Fault.ofReadFault (d.require "quorum_set"))
  .ok ⟨← Fault.ofReadFault key.asText, quorumSet⟩

theorem ofDocument_eq_ok {d : Document} {key : NodeId} {quorumSet : QuorumSet}
    (hkey : d.require "public_key" = .ok (.text key)) (hset : d.require "quorum_set" = .ok quorumSet.toDocument) :
    ofDocument d = .ok ⟨key, quorumSet⟩ := by
  have h := QuorumSet.ofDocument_toDocument quorumSet
  simp only [ofDocument, hkey, hset, Fault.ofReadFault_ok, Document.asText, bind, Except.bind, h]

theorem ofDocument_toDocument (n : Node) : ofDocument n.toDocument = .ok n := ofDocument_eq_ok rfl rfl

end Node

end FederatedAgreement
