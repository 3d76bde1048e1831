/-
Recording a simulation and loading the recording. The recording keeps everything but the tickets by which pending
actions can be withdrawn, and whether steps were met again. What is loaded is the simulation without these, rewound to
its first step. Going forward from there meets every recorded step again, as rewinding and going forward does.

Results:
- `Faithful.unmarked`, `Linked.unmarked`: without tickets and meetings a simulation is as sound as before.
- `load_ofSimulation`: what is loaded is the simulation without them, rewound.
- `export_replayed`: **a recording replays**, up to where it was taken.
-/
import FederatedAgreement.Proofs.Network.Setups
import FederatedAgreement.Proofs.Scenario.RoundTrip
import FederatedAgreement.Proofs.Simulation.History

namespace FederatedAgreement

/-! ## Steps without tickets -/

/-- the step with its user actions as if they had come with a recording -/
def LiveStep.unmarked (s : LiveStep) : LiveStep := (s.map Submission.action).map fun a => ⟨a, none⟩

theorem LiveStep.action_unmarked (s : LiveStep) : s.unmarked.map Submission.action = s.map Submission.action := by
  simp [unmarked, Step.map, Function.comp_def]

theorem LiveStep.batch_unmarked (s : LiveStep) : s.unmarked.batch = s.batch :=
  congrArg (fun t : Step UserAction => (t.userActions, t.protocolActions)) s.action_unmarked

theorem replay_unmarked (n : Network) (history : List LiveStep) :
    replay n (history.map LiveStep.unmarked) = replay n history := by
  induction history generalizing n with
  | nil => rfl
  | cons s history ih =>
    show replay (s.unmarked.executeOn n).state (history.map LiveStep.unmarked) = replay (s.executeOn n).state history
    rw [ih, LiveStep.executeOn_congr s.batch_unmarked]

namespace Simulation

variable {sim : Simulation} {setup : Setup}

/-- what the steps hold, whatever the tickets are -/
def contents (sim : Simulation) : List (Step UserAction) := sim.steps.map (Step.map Submission.action)

/-- the simulation without tickets, no step having been met again yet -/
def unmarked (sim : Simulation) : Simulation where
  engine := sim.engine
  past := sim.past.map LiveStep.unmarked
  current := sim.current.unmarked
  future := sim.future.map LiveStep.unmarked
  reused := 0

theorem steps_unmarked (sim : Simulation) : sim.unmarked.steps = sim.steps.map LiveStep.unmarked := by
  simp [steps, unmarked]

theorem contents_unmarked (sim : Simulation) : sim.unmarked.contents = sim.contents := by
  rw [contents, steps_unmarked, List.map_map]
  exact List.map_congr_left fun s _ => s.action_unmarked

theorem cursor_unmarked (sim : Simulation) : sim.unmarked.cursor = sim.cursor := List.length_map _

theorem eventLog_unmarked (sim : Simulation) : sim.unmarked.eventLog = sim.eventLog := by
  have upTo : sim.unmarked.past ++ [sim.unmarked.current] = (sim.past ++ [sim.current]).map LiveStep.unmarked := by
    simp [unmarked]
  rw [eventLog, upTo, List.map_map]
  rfl

theorem Faithful.unmarked (h : Faithful setup sim) : Faithful setup sim.unmarked :=
  ⟨h.origin, h.buffer, h.network.trans (replay_unmarked _ _).symm⟩

theorem follows_unmarked {s t : LiveStep} : Follows s.unmarked t.unmarked ↔ Follows s t := by
  have hash : s.unmarked.hash = s.hash := by rw [LiveStep.hash_eq, LiveStep.hash_eq, LiveStep.batch_unmarked]
  show t.previousHash = s.unmarked.hash ↔ t.previousHash = s.hash
  rw [hash]

theorem Linked.unmarked (h : Linked sim) : Linked sim.unmarked := by
  have upTo : sim.unmarked.past ++ [sim.unmarked.current] = (sim.past ++ [sim.current]).map LiveStep.unmarked := by
    simp [Simulation.unmarked]
  unfold Linked
  rw [upTo, List.isChain_map]
  exact h.imp fun _ _ => follows_unmarked.2

/-! ## Recording and loading -/

/-- carrying out steps does not change the mode of the overlay -/
theorem mode_replay (n : Network) (history : List LiveStep) : (replay n history).overlay.SameMode n.overlay := by
  induction history generalizing n with
  | nil => exact ⟨rfl, rfl⟩
  | cons s history ih =>
    have first := n.mode_execute s.pendingUser s.protocolActions
    have rest := ih (s.executeOn n).state
    exact ⟨rest.1.trans first.1, rest.2.trans first.2⟩

theorem Faithful.mode (h : Faithful setup sim) : sim.engine.network.overlay.SameMode setup.overlay := by
  rw [h.network]
  exact mode_replay setup.network sim.past

/-- what is loaded is the simulation without tickets and meetings, rewound -/
theorem load_ofSimulation (faithful : Faithful setup sim)
    (again : Engine.start setup.overlay.fullMesh setup.overlay.gossip setup.nodes
      (setup.overlay.links.toList.map Link.ends) = .ok (.ofSetup setup)) (id name description : Document) :
    (Scenario.ofSimulation sim id name description).load = .ok sim.unmarked.rewind := by
  have engine : restoreEngine sim.engine [] = .ofSetup setup := by
    rw [← faithful.origin]
    rfl
  have recorded : (Scenario.ofSimulation sim id name description).steps.map (Step.map fun a => ⟨a, none⟩) =
      sim.unmarked.steps := by
    rw [steps_unmarked]
    exact List.map_map
  have started : Engine.start (Scenario.ofSimulation sim id name description).fullMesh
      (Scenario.ofSimulation sim id name description).gossip (Scenario.ofSimulation sim id name description).nodes
      (Scenario.ofSimulation sim id name description).links = .ok (.ofSetup setup) := by
    show Engine.start sim.engine.network.overlay.fullMesh sim.engine.network.overlay.gossip sim.engine.setup.nodes
      (sim.engine.setup.overlay.links.toList.map Link.ends) = _
    rw [faithful.mode.1, faithful.mode.2, faithful.origin]
    exact again
  have unmet : start (.ofSetup setup) sim.unmarked.steps = sim.unmarked.rewind := by
    unfold rewind
    rw [← engine]
    cases sim.unmarked.steps <;> rfl
  rw [Scenario.load, started, recorded, ← unmet]
  rfl

/-! ## Main result -/

/-- **Export and replay.** Let a simulation of a newly built engine be started from a recording, or without one, and let
any commands be given. Record it, write the recording as a document, read the document, and load what was read. All of
this succeeds. What is loaded stands at the first of steps that hold the same actions and events as the original ones.
Going forward as many steps as lie behind in the original meets a recorded step each time, and leads to the same cursor,
the same steps, the same events up to there, the same pending actions, and the same network, with its nodes in their
order, their states, and the overlay. -/
theorem export_replayed {fullMesh gossip : Bool} {nodes : List Node} {links : List (NodeId × NodeId)}
    {engine : Engine} (built : Engine.start fullMesh gossip nodes links = .ok engine) (recorded : List LiveStep)
    (commands : List Command) (id name description : Document) :
    ∃ sim, sim = after engine recorded commands ∧
      ∃ scenario loaded,
        Scenario.ofDocument (Scenario.ofSimulation sim id name description).toDocument = .ok scenario ∧
        scenario.load = .ok loaded ∧ loaded.cursor = 0 ∧ loaded.contents = sim.contents ∧
        ∃ replayed, replayed = loaded.performAll (.replicate sim.cursor .advance) ∧
          replayed.reused = sim.cursor ∧ replayed.cursor = sim.cursor ∧ replayed.contents = sim.contents ∧
          replayed.eventLog = sim.eventLog ∧ replayed.current.pendingUser = sim.current.pendingUser ∧
          replayed.current.protocolActions = sim.current.protocolActions ∧
          replayed.engine.network = sim.engine.network := by
  have faithful := faithful_after built recorded commands
  have linked : Linked (after engine recorded commands) :=
    stable_linked.performAll (linked_start engine recorded) commands
  generalize after engine recorded commands = sim at faithful linked ⊢
  have read := Scenario.ofDocument_toDocument (Scenario.ofSimulation_steps_ne_nil sim id name description)
  have fresh : engine = .ofSetup engine.setup := by
    rcases Engine.start_eq_ok_iff.1 built with ⟨_, rfl⟩ | ⟨_, setup, _, rfl⟩ <;> rfl
  have again := Engine.start_again built
  rw [fresh] at again
  have loaded := load_ofSimulation faithful again id name description
  have walked : sim.unmarked.rewind.performAll (.replicate sim.cursor .advance) = sim.unmarked.met sim.cursor := by
    rw [rewind_eq_back faithful.unmarked, cursor_unmarked]
    exact forward_after_back faithful.unmarked linked.unmarked (Nat.le_of_eq (cursor_unmarked sim).symm)
  refine ⟨sim, rfl, _, _, read, loaded, cursor_rewind sim.unmarked, ?_, _, rfl, ?_⟩
  · have rewound : sim.unmarked.rewind.contents = sim.unmarked.contents :=
      congrArg (List.map _) (steps_rewind sim.unmarked)
    exact rewound.trans (contents_unmarked sim)
  · rw [walked]
    have pending := congrArg Prod.fst sim.current.batch_unmarked
    exact ⟨Nat.zero_add _, cursor_unmarked sim, contents_unmarked sim, eventLog_unmarked sim, pending, rfl, rfl⟩

/-- two linked nodes with gossip, of which the second trusts the first -/
def linkedPair : Setup := ⟨leaderAndFollower, (Overlay.bare false true).connectAll [("F", "L")]⟩

/-- with one step behind and one ahead, where a message is disrupted, the recording replays one step -/
theorem hesitation_replayed :
    Engine.start false true leaderAndFollower [("F", "L")] = .ok (.ofSetup linkedPair) ∧
    ∃ sim, sim = after (.ofSetup linkedPair) [] hesitation ∧ sim.cursor = 1 ∧ sim.future ≠ [] ∧
      ∃ scenario loaded,
        Scenario.ofDocument (Scenario.ofSimulation sim (.text "s") .null (.text "")).toDocument = .ok scenario ∧
        scenario.load = .ok loaded ∧ (loaded.performAll [.advance]).reused = 1 ∧
        (loaded.performAll [.advance]).engine.network = sim.engine.network := by
  have built : Engine.start false true leaderAndFollower [("F", "L")] = .ok (.ofSetup linkedPair) := by rfl
  obtain ⟨_, rfl, scenario, loaded, read, started, _, _, _, rfl, reused, _, _, _, _, _, network⟩ :=
    export_replayed built [] hesitation (.text "s") .null (.text "")
  exact ⟨built, _, rfl, rfl, List.cons_ne_nil _ _, scenario, loaded, read, started, reused, network⟩

end Simulation

end FederatedAgreement
