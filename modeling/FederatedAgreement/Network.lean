/-
Networks: the nodes that take part, with their voting states, and the overlay between them. A batch of actions is
carried out in order, user actions before protocol actions.
-/
import FederatedAgreement.Overlay
import FederatedAgreement.Voting.Protocol

namespace FederatedAgreement

/-- the nodes in order of arrival, and who can talk to whom -/
structure Network where
  roster : Roster VotingState
  overlay : Overlay
deriving DecidableEq

namespace Network

/-- the nodes, in order of arrival -/
def keys (n : Network) : List NodeId := n.roster.keys

/-- the nodes that a node can exchange messages with -/
def peersOf (n : Network) (key : NodeId) : List NodeId := n.overlay.peersOf key n.keys

/-- the nodes with their present quorum sets -/
def nodes (n : Network) : List Node := n.roster.entries.map fun e => ⟨e.1, e.2.quorumSet⟩

/-- a network in which no node has heard or said anything -/
def ofNodes (nodes : List Node) (overlay : Overlay) : Network :=
  ⟨.ofList (nodes.map fun n => (n.key, .fresh n.quorumSet)), overlay⟩

/-! ## Single actions -/

/-- nothing was done, for a reason -/
def ignore (n : Network) (key : NodeId) (reason : String) : Outcome Network :=
  .noting n (.make .actionIgnored key [("reason", reason)])

/-- let a node act on its state; an action for a node that is not there is ignored -/
def atNode (n : Network) (key : NodeId) (act : VotingState → Outcome VotingState) : Outcome Network :=
  match n.roster.get? key with
  | some st => (act st).map fun st' => { n with roster := n.roster.put key st' }
  | none => n.ignore key "node does not exist"

def addNode (n : Network) (key : NodeId) (quorumSet : QuorumSet) : Outcome Network :=
  if key ∈ n.roster then n.ignore key "node already exists"
  else .noting { n with roster := n.roster.put key (.fresh quorumSet) } (.make .nodeAdded key [])

def removeNode (n : Network) (key : NodeId) : Outcome Network :=
  if key ∈ n.roster then
    .noting { roster := n.roster.erase key, overlay := n.overlay.dropNode key } (.make .nodeRemoved key [])
  else n.ignore key "node does not exist"

/-- trust others from now on; votes that were processed may now be enough -/
def updateQuorumSet (n : Network) (key : NodeId) (quorumSet : QuorumSet) : Outcome Network :=
  n.atNode key fun st =>
    (Outcome.noting { st with quorumSet } (.make .quorumSetUpdated key [("quorum_set", quorumSet.canonical)])).andThen
      (VotingState.evaluate key (n.peersOf key))

/-- make or drop a link between two nodes of the network -/
def changeLink (n : Network) (a b : NodeId) (change : Overlay → NodeId → NodeId → Option Overlay) (kind : EventKind) :
    Outcome Network :=
  if a ∈ n.roster ∧ b ∈ n.roster then
    match change n.overlay a b with
    | some overlay =>
      let link := Link.between a b
      .noting { n with overlay } (.make kind link.lower [("peer", link.upper)])
    | none => .noting n (.make .connectionIgnored a [("peer", b)])
  else n.ignore a ("connection to " ++ b ++ " names an unknown node")

/-- a message that cannot go on is lost -/
def drop (n : Network) (m : Message) (reason : String) : Outcome Network :=
  .noting n (.make .messageDropped m.receiver [("message", m.text), ("reason", reason)])

/-- put a message on its way, to be received in the next step; the sender may be unknown, but a known sender must be
connected with the receiver -/
def send (n : Network) (m : Message) : Outcome Network :=
  if m.sender ∈ n.roster ∧ n.overlay.isConnected m.sender m.receiver n.keys = false then n.drop m "not connected"
  else ⟨n, [.receive m], [.make .messageSent m.sender [("message", m.text)]]⟩

/-- deliver a message to its receiver -/
def receive (n : Network) (m : Message) : Outcome Network :=
  if m.receiver ∈ n.roster then
    n.atNode m.receiver fun st =>
      (Outcome.noting st (.make .messageReceived m.receiver [("message", m.text)])).andThen
        (VotingState.receive m.receiver (n.peersOf m.receiver) n.overlay.gossip m)
  else n.drop m "receiver does not exist"

def applyUser (n : Network) : UserAction → Outcome Network
  | .addNode node quorumSet => n.addNode node quorumSet
  | .removeNode node => n.removeNode node
  | .updateQuorumSet node quorumSet => n.updateQuorumSet node quorumSet
  | .vote node statement => n.atNode node (VotingState.vote node (n.peersOf node) statement)
  | .connect a b => n.changeLink a b Overlay.connect? .connectionAdded
  | .disconnect a b => n.changeLink a b Overlay.disconnect? .connectionRemoved
  | .forge message => ⟨n, [.send message], [.make .messageForged message.sender [("message", message.text)]]⟩

def applyProtocol (n : Network) (a : ProtocolAction) : Outcome Network :=
  if a.disrupted then
    .noting n (.make .messageDisrupted a.author [("message", a.message.text), ("action", a.kind.name)])
  else
    match a.delivery with
    | .send => n.send a.message
    | .receive => n.receive a.message

/-! ## Batches -/

/-- carry out a batch: the user actions in order, then the protocol actions in order -/
def execute (n : Network) (users : List UserAction) (protocol : List ProtocolAction) : Outcome Network :=
  (Outcome.runEach applyUser n users).andThen fun n' => Outcome.runEach applyProtocol n' protocol

end Network

end FederatedAgreement
