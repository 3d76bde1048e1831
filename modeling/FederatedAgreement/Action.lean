/-
Actions: what operators order and what the network itself does next. User actions are queued by an operator; protocol
actions are the two halves of a message's hop, which one step leaves for the next to carry out.
-/
import FederatedAgreement.Vote

namespace FederatedAgreement

/-! ## Kinds -/

inductive ActionKind where
  | addNode
  | removeNode
  | updateQuorumSet
  | vote
  | connect
  | disconnect
  | forge
  | send
  | receive
deriving DecidableEq, Repr

namespace ActionKind

def all : List ActionKind :=
  [.addNode, .removeNode, .updateQuorumSet, .vote, .connect, .disconnect, .forge, .send, .receive]

def name : ActionKind → String
  | .addNode => "AddNode"
  | .removeNode => "RemoveNode"
  | .updateQuorumSet => "UpdateQuorumSet"
  | .vote => "VoteOnStatement"
  | .connect => "AddConnection"
  | .disconnect => "RemoveConnection"
  | .forge => "ForgeMessage"
  | .send => "SendMessage"
  | .receive => "ReceiveMessage"

def ofName? (s : String) : Option ActionKind := all.find? (·.name = s)

/-- a node may have several of these waiting in one step -/
def isRepeatable : ActionKind → Bool
  | .connect | .disconnect => true
  | _ => false

end ActionKind

/-! ## User actions -/

/-- what an operator can order -/
inductive UserAction where
  | addNode (node : NodeId) (quorumSet : QuorumSet)
  | removeNode (node : NodeId)
  | updateQuorumSet (node : NodeId) (quorumSet : QuorumSet)
  | vote (node : NodeId) (statement : Statement)
  | connect (a b : NodeId)
  | disconnect (a b : NodeId)
  /-- put a message on its way whose vote its sender may never have cast -/
  | forge (message : Message)
deriving DecidableEq, Repr

namespace UserAction

def kind : UserAction → ActionKind
  | .addNode .. => .addNode
  | .removeNode .. => .removeNode
  | .updateQuorumSet .. => .updateQuorumSet
  | .vote .. => .vote
  | .connect .. => .connect
  | .disconnect .. => .disconnect
  | .forge .. => .forge

/-- the node to which the action is attributed -/
def author : UserAction → NodeId
  | .addNode node _ => node
  | .removeNode node => node
  | .updateQuorumSet node _ => node
  | .vote node _ => node
  | .connect a _ => a
  | .disconnect a _ => a
  | .forge message => message.sender

/-- changes of the network go before votes and messages -/
def isImmediate : UserAction → Bool
  | .vote .. | .forge .. => false
  | _ => true

def text : UserAction → String
  | .addNode node quorumSet => "Add node " ++ node ++ " with quorum set " ++ quorumSet.canonical
  | .removeNode node => "Remove node " ++ node
  | .updateQuorumSet node quorumSet => "Update quorum set of " ++ node ++ " to " ++ quorumSet.canonical
  | .vote node statement => node ++ " votes on " ++ statement
  | .connect a b => "Connect " ++ a ++ " and " ++ b
  | .disconnect a b => "Disconnect " ++ a ++ " and " ++ b
  | .forge message => "Forge message " ++ message.text

end UserAction

/-! ## Protocol actions -/

/-- the two halves of a hop -/
inductive Delivery where
  | send
  | receive
deriving DecidableEq, Repr

def Delivery.kind : Delivery → ActionKind
  | .send => .send
  | .receive => .receive

/-- one half of a message's hop; a disrupted one is lost at the node to which it is attributed -/
structure ProtocolAction where
  delivery : Delivery
  message : Message
  disrupted : Bool
deriving DecidableEq, Repr

namespace ProtocolAction

def send (m : Message) : ProtocolAction := ⟨.send, m, false⟩

def receive (m : Message) : ProtocolAction := ⟨.receive, m, false⟩

def kind (a : ProtocolAction) : ActionKind := a.delivery.kind

/-- the node to which the action is attributed: the sender sends, the receiver receives -/
def author (a : ProtocolAction) : NodeId :=
  match a.delivery with
  | .send => a.message.sender
  | .receive => a.message.receiver

def text (a : ProtocolAction) : String := "[" ++ a.kind.name ++ "] " ++ a.message.text

/-- all that distinguishes the action, the disruption included -/
def fingerprint (a : ProtocolAction) : String :=
  a.kind.name ++ a.message.text ++ a.author ++ if a.disrupted then "True" else "False"

end ProtocolAction

end FederatedAgreement
