/-
Scenarios as documents, in format version 1. Reading takes absent steps as none and gives a scenario without steps a
blank one. The ends of links and the hashes of steps must be texts: other values, which a reader that checks no kinds takes
over, are refused as being of the wrong kind. The identifier, the name and the description can be any values.
-/
import FederatedAgreement.Action.Codec
import FederatedAgreement.Event.Codec
import FederatedAgreement.Scenario.Basic

namespace FederatedAgreement

/-- the optional list of a field, each item read -/
def Document.optionalList {α : Type} (d : Document) (name : String) (item : Document → Except Fault α) :
    Except Fault (List α) := do
  let items ← Fault.ofReadFault (do (← d.optional name (.list [])).items)
  items.mapM item

namespace Step

def toDocument (s : Step UserAction) : Document :=
  .record [
    ("user_actions", .list (s.userActions.map UserAction.toDocument)),
    ("protocol_actions", .list (s.protocolActions.map ProtocolAction.toDocument)),
    ("previous_events", .list (s.precedingEvents.map Event.toDocument)),
    ("previous_step_hash", .text s.previousHash)]

def ofDocument (d : Document) : Except Fault (Step UserAction) := do
  let userActions ← d.optionalList "user_actions" UserAction.ofDocument
  let protocolActions ← d.optionalList "protocol_actions" fun a => Fault.ofReadFault (ProtocolAction.ofDocument a)
  let precedingEvents ← d.optionalList "previous_events" fun e => Fault.ofReadFault (Event.ofDocument e)
  let previousHash ← Fault.ofReadFault (do (← d.optional "previous_step_hash" (.text "")).asText)
  .ok ⟨userActions, protocolActions, precedingEvents, previousHash⟩

end Step

namespace Scenario

/-- the version number of the format -/
def formatVersion : Nat := 1

/-- the document stands for the known version; a truth value counts as its number -/
def isKnownVersion : Document → Bool
  | .int n => n = formatVersion
  | .bool b => b
  | .float x => x == 1.0
  | _ => false

/-- a pair of nodes -/
def linkOf (d : Document) : Except ReadFault (NodeId × NodeId) := do
  let pair ← d.asPair
  .ok (← pair.1.asText, ← pair.2.asText)

def linkDocument (l : NodeId × NodeId) : Document := .texts [l.1, l.2]

def toDocument (s : Scenario) : Document :=
  .record [
    ("version", .int formatVersion),
    ("id", s.id),
    ("name", s.name),
    ("description", s.description),
    ("is_overlay_fully_connected", .bool s.fullMesh),
    ("is_overlay_gossip_enabled", .bool s.gossip),
    ("initial_nodes", .list (s.nodes.map Node.toDocument)),
    ("initial_connections", .list (s.links.map linkDocument)),
    ("steps", .list (s.steps.map Step.toDocument))]

def ofDocument (d : Document) : Except Fault Scenario := do
  let version ← Fault.ofReadFault (d.optional "version" (.int formatVersion))
  if !isKnownVersion version then .error (.unreadable (.unsupportedVersion version))
  else
    let steps ← d.optionalList "steps" Step.ofDocument
    let id ← Fault.ofReadFault (d.require "id")
    let name ← Fault.ofReadFault (d.require "name")
    let description ← Fault.ofReadFault (d.optional "description" (.text ""))
    let fullMesh ← Fault.ofReadFault (d.optional "is_overlay_fully_connected" (.bool true))
    let gossip ← Fault.ofReadFault (d.optional "is_overlay_gossip_enabled" (.bool false))
    let nodes ← d.optionalList "initial_nodes" Node.ofDocument
    let links ← d.optionalList "initial_connections" fun l => Fault.ofReadFault (linkOf l)
    .ok {
      id, name, description
      fullMesh := fullMesh.isTrue
      gossip := gossip.isTrue
      nodes, links
      steps := if steps.isEmpty then [.blank] else steps }

end Scenario

end FederatedAgreement
