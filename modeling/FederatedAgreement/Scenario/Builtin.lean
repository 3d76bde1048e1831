/-
Built-in scenarios: networks in which every node trusts a group of nodes in the same way, each node votes, and the
simulation is recorded until nothing is left to do.
-/
import FederatedAgreement.Scenario.Basic

namespace FederatedAgreement.Scenario

/-- nodes that all trust in the same way -/
def symmetricNodes (keys : List NodeId) (quorumSet : QuorumSet) : List Node := keys.map fun k => ⟨k, quorumSet⟩

/-- record how nodes in a full mesh settle after each has voted; the simulation is wound back to its first step -/
def ofVotes (id name description : String) (nodes : List Node) (votes : List (NodeId × Statement)) (limit : Nat) :
    Scenario :=
  let begun := Simulation.start (Engine.ofSetup ⟨nodes, .bare true false⟩) []
  let queued := votes.foldl (fun sim v => sim.submit ⟨.vote v.1 v.2, none⟩) begun
  ofSimulation (queued.run limit).1.rewind (.text id) (.text name) (.text description)

def abc : QuorumSet := .flat 2 ["A", "B", "C"] (by decide)

def basicConsensus (limit : Nat) : Scenario :=
  ofVotes "basic-consensus" "Basic consensus" "Three nodes trusting each other 2-of-3 all vote x and confirm it."
    (symmetricNodes ["A", "B", "C"] abc) [("A", "x"), ("B", "x"), ("C", "x")] limit

def stuck (limit : Nat) : Scenario :=
  ofVotes "stuck" "Stuck" "Every node votes a different statement, so no slice agrees on anything."
    (symmetricNodes ["A", "B", "C"] abc) [("A", "x"), ("B", "y"), ("C", "z")] limit

def networkSplit (limit : Nat) : Scenario :=
  ofVotes "network-split" "Network split" "Two groups without quorum intersection confirm different statements."
    (symmetricNodes ["A", "B"] (.flat 2 ["A", "B"] (by decide)) ++
      symmetricNodes ["C", "D"] (.flat 2 ["C", "D"] (by decide)))
    [("A", "x"), ("B", "x"), ("C", "y"), ("D", "y")] limit

/-- the built-in scenarios by name -/
def builtin? (limit : Nat) : String → Option Scenario
  | "basic_consensus" => some (basicConsensus limit)
  | "stuck" => some (stuck limit)
  | "network_split" => some (networkSplit limit)
  | _ => none

/-- the built-in scenario of a name; any other scalar names none -/
def builtin (name : Document) (limit : Nat) : Except Fault Scenario :=
  match name with
  | .scalar a =>
    match a.text?.bind (builtin? limit) with
    | some s => .ok s
    | none => .error (.unknownScenario a)
  | _ => .error (.unreadable .wrongKind)

/-- all built-in scenarios -/
def builtins (limit : Nat) : List Scenario := [basicConsensus limit, stuck limit, networkSplit limit]

end FederatedAgreement.Scenario
