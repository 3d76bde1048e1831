/-
Scenarios: named recordings of simulations, with the nodes and links at the start and the whole chain of steps. A loaded
scenario stands at its first step; going forwards without changes meets the recorded steps again.

Result:
- `ofSimulation_steps_ne_nil`: a recording has a first step.
-/
import FederatedAgreement.Simulation.Basic

namespace FederatedAgreement

/-- a recording; identifier, name and description are any data -/
structure Scenario where
  id : Document
  name : Document
  description : Document
  fullMesh : Bool
  gossip : Bool
  nodes : List Node
  links : List (NodeId × NodeId)
  steps : List (Step UserAction)

namespace Scenario

/-- record the whole history of a simulation -/
def ofSimulation (sim : Simulation) (id name description : Document) : Scenario where
  id := id
  name := name
  description := description
  fullMesh := sim.engine.network.overlay.fullMesh
  gossip := sim.engine.network.overlay.gossip
  nodes := sim.engine.setup.nodes
  links := sim.engine.setup.overlay.links.toList.map fun l => (l.lower, l.upper)
  steps := sim.steps.map (Step.map Submission.action)

theorem ofSimulation_steps_ne_nil (sim : Simulation) (id name description : Document) :
    (ofSimulation sim id name description).steps ≠ [] := by
  simp [ofSimulation, Simulation.steps]

/-- the scenario under other overlay flags; a flag that is not given stays -/
def withOverlay (s : Scenario) (fullMesh gossip : Option Bool) : Scenario :=
  { s with fullMesh := fullMesh.getD s.fullMesh, gossip := gossip.getD s.gossip }

/-- a simulation at the first step of the scenario -/
def load (s : Scenario) : Except Misconfiguration Simulation := do
  let engine ← Engine.start s.fullMesh s.gossip s.nodes s.links
  .ok (.start engine (s.steps.map (Step.map fun a => ⟨a, none⟩)))

/-- the hashes of the steps' actions -/
def hashes (s : Scenario) : List String := s.steps.map fun step => actionsHash step.userActions step.protocolActions

end Scenario

end FederatedAgreement
