/-
Engines: a live network with the setup to which it can be reset, and the events that were not yet collected.

Results:
- `Setup.checkTrust_eq_ok_iff`: when all nodes trust given nodes only.
- `Engine.load_eq_ok_iff`: what loading leaves.
-/
import FederatedAgreement.Network

namespace FederatedAgreement

open Sorting (SortedSet)

/-! ## Setups -/

/-- the nodes and the overlay from which an engine starts -/
structure Setup where
  nodes : List Node
  overlay : Overlay
deriving DecidableEq

namespace Setup

/-- the network at the start -/
def network (s : Setup) : Network := .ofNodes s.nodes s.overlay

/-- the validators of a node that are none of the given nodes -/
def unknownTrust (known : List NodeId) (n : Node) : NodeSet :=
  n.quorumSet.validatorSet.filter fun v => !known.contains v

/-- every node trusts given nodes only; of several that do not, the first is named -/
def checkTrust (known : List NodeId) : List Node → Except Misconfiguration Unit
  | [] => .ok ()
  | n :: ns =>
    let unknown := (unknownTrust known n).toList
    if unknown.isEmpty then checkTrust known ns else .error (.unknownTrust n.key unknown)

/-- add links between given nodes, one after the other -/
def addLinks (known : List NodeId) : Overlay → List (NodeId × NodeId) → Except Misconfiguration Overlay
  | overlay, [] => .ok overlay
  | overlay, (a, b) :: links =>
    if known.contains a ∧ known.contains b then addLinks known ((overlay.connect? a b).getD overlay) links
    else .error (.unknownEndpoint a b)

/-- the setup of some nodes and links: no key twice, no unknown node trusted, no unknown node linked -/
def make (fullMesh gossip : Bool) (nodes : List Node) (links : List (NodeId × NodeId)) :
    Except Misconfiguration Setup := do
  let keys := nodes.map Node.key
  if ¬ keys.Nodup then .error (.repeatedNodes keys)
  else
    checkTrust keys nodes
    let overlay ← addLinks keys (.bare fullMesh gossip) links
    .ok ⟨nodes, overlay⟩

theorem checkTrust_eq_ok_iff {known : List NodeId} {nodes : List Node} :
    checkTrust known nodes = .ok () ↔ ∀ n ∈ nodes, ∀ v ∈ n.quorumSet.validatorSet, v ∈ known := by
  induction nodes with
  | nil => simp [checkTrust]
  | cons n ns ih =>
    have empty : (unknownTrust known n).toList = [] ↔ ∀ v ∈ n.quorumSet.validatorSet, v ∈ known := by
      simp [unknownTrust, SortedSet.filter, List.filter_eq_nil_iff, SortedSet.mem_def]
    simp only [checkTrust, List.isEmpty_iff, List.forall_mem_cons]
    split
    · next h => rw [ih, ← empty, and_iff_right h]
    · next h => exact ⟨nofun, fun h' => absurd (empty.2 h'.1) h⟩

end Setup

/-! ## Engines -/

/-- a live network, where it started, and the events since they were last collected -/
structure Engine where
  setup : Setup
  network : Network
  buffer : List Event

namespace Engine

/-- an engine at the start of a setup -/
def ofSetup (setup : Setup) : Engine := ⟨setup, setup.network, []⟩

/-- an engine without nodes -/
def bare (fullMesh gossip : Bool) : Engine := ofSetup ⟨[], .bare fullMesh gossip⟩

/-- back to the start; uncollected events are kept -/
def reset (e : Engine) : Engine := { e with network := e.setup.network }

/-- start over with other nodes and links under the same overlay mode -/
def load (e : Engine) (nodes : List Node) (links : List (NodeId × NodeId)) : Except Misconfiguration Engine := do
  let setup ← Setup.make e.setup.overlay.fullMesh e.setup.overlay.gossip nodes links
  .ok (reset { e with setup })

/-- an engine that was loaded is at the start of its new setup, with the events that were not yet collected -/
theorem load_eq_ok_iff {e loaded : Engine} {nodes : List Node} {links : List (NodeId × NodeId)} :
    e.load nodes links = .ok loaded ↔
      ∃ setup, Setup.make e.setup.overlay.fullMesh e.setup.overlay.gossip nodes links = .ok setup ∧
        loaded = ⟨setup, setup.network, e.buffer⟩ := by
  unfold load
  cases Setup.make e.setup.overlay.fullMesh e.setup.overlay.gossip nodes links with
  | error m => simp [bind, Except.bind]
  | ok setup => simp [bind, Except.bind, reset, eq_comm]

/-- an engine with nodes and links; without nodes the links are not looked at -/
def start (fullMesh gossip : Bool) (nodes : List Node) (links : List (NodeId × NodeId)) :
    Except Misconfiguration Engine :=
  if nodes.isEmpty then .ok (bare fullMesh gossip) else (bare fullMesh gossip).load nodes links

/-- take over what an action left behind: the events go to the buffer, the actions to the caller -/
def absorb (e : Engine) (o : Outcome Network) : Engine × List ProtocolAction :=
  ({ e with network := o.state, buffer := e.buffer ++ o.events }, o.actions)

/-- carry out a batch of actions; the actions that it calls for are returned -/
def execute (e : Engine) (users : List UserAction) (protocol : List ProtocolAction) : Engine × List ProtocolAction :=
  e.absorb (e.network.execute users protocol)

def send (e : Engine) (m : Message) : Engine × List ProtocolAction := e.absorb (e.network.send m)

def receive (e : Engine) (m : Message) : Engine × List ProtocolAction := e.absorb (e.network.receive m)

/-- collect the events -/
def drain (e : Engine) : Engine × List Event := ({ e with buffer := [] }, e.buffer)

def label (e : Engine) : String :=
  "Context(" ++ toString e.network.roster.size ++ " nodes, " ++ e.network.overlay.label ++ ")"

end Engine

end FederatedAgreement
