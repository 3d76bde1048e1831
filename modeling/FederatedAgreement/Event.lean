/-
Events: what can be observed while actions are executed. An event has a kind, the node that it is about, and named
details. An event is shown with its details in the order of their names; names of different kinds have no order.
-/
import FederatedAgreement.Vote

namespace FederatedAgreement

inductive EventKind where
  | nodeAdded
  | nodeRemoved
  | quorumSetUpdated
  | connectionAdded
  | connectionRemoved
  | connectionIgnored
  | messageSent
  | messageReceived
  | messageDropped
  | messageDisrupted
  | messageForged
  | messageRelayed
  | voted
  | voteIgnored
  | accepted
  | confirmed
  | actionIgnored
deriving DecidableEq, Repr

namespace EventKind

def all : List EventKind :=
  [.nodeAdded, .nodeRemoved, .quorumSetUpdated, .connectionAdded, .connectionRemoved, .connectionIgnored, .messageSent,
   .messageReceived, .messageDropped, .messageDisrupted, .messageForged, .messageRelayed, .voted, .voteIgnored,
   .accepted, .confirmed, .actionIgnored]

def name : EventKind → String
  | .nodeAdded => "node_added"
  | .nodeRemoved => "node_removed"
  | .quorumSetUpdated => "quorum_set_updated"
  | .connectionAdded => "connection_added"
  | .connectionRemoved => "connection_removed"
  | .connectionIgnored => "connection_ignored"
  | .messageSent => "message_sent"
  | .messageReceived => "message_received"
  | .messageDropped => "message_dropped"
  | .messageDisrupted => "message_disrupted"
  | .messageForged => "message_forged"
  | .messageRelayed => "message_relayed"
  | .voted => "voted"
  | .voteIgnored => "vote_ignored"
  | .accepted => "accepted"
  | .confirmed => "confirmed"
  | .actionIgnored => "action_ignored"

def ofName? (s : String) : Option EventKind := all.find? (·.name = s)

end EventKind

/-- something that happened to a node -/
structure Event where
  kind : EventKind
  target : NodeId
  details : List (Scalar × Document)

namespace Event

/-- an event whose details are texts -/
def make (kind : EventKind) (target : NodeId) (details : List (String × String)) : Event :=
  ⟨kind, target, details.map fun d => (d.1, .text d.2)⟩

/-- the details as `name=value`, by ascending names, if they have an order -/
def detailTexts? (e : Event) : Option (List String) :=
  (Scalar.ascending? (e.details.map Prod.fst)).map fun names => names.map fun name =>
    name.shown ++ "=" ++ ((Document.get? e.details name).getD .null).shown

/-- how the event is shown -/
def text (e : Event) : Except ReadFault String :=
  match e.detailTexts? with
  | some details =>
    .ok ("[" ++ e.kind.name ++ "] " ++ e.target ++
      if details.isEmpty then "" else " (" ++ ", ".intercalate details ++ ")")
  | none => .error .wrongKind

/-- the event without its details -/
def label (e : Event) : String := "Event(" ++ e.kind.name ++ ", " ++ e.target ++ ")"

end Event

/-- how a buffer of events is shown -/
def bufferLabel (events : List Event) : String := "EventBuffer(" ++ toString events.length ++ " events)"

end FederatedAgreement
