/-
The network of a simulation is the network that its history leads to: whatever was done, going through the steps behind
the present one from the start again, as they are now, ends in the same states and the same overlay.

Results:
- `Faithful.advance`, `Faithful.back`: each move of the walk keeps the network up with the history.
- `network_eq_retrace`: **state is replay**, after any commands.
-/
import FederatedAgreement.Proofs.Simulation.Commands

namespace FederatedAgreement

/-! ## Going through a history -/

/-- carry out the steps of a history one after the other -/
def Engine.retrace (e : Engine) (history : List LiveStep) : Engine :=
  history.foldl (fun e s => (e.execute s.pendingUser s.protocolActions).1) e

theorem Engine.retrace_network (e : Engine) (history : List LiveStep) :
    (e.retrace history).network = replay e.network history := by
  induction history generalizing e with
  | nil => rfl
  | cons s history ih => exact ih (e.execute s.pendingUser s.protocolActions).1

namespace Simulation

variable {sim : Simulation} {setup : Setup}

/-! ## The invariant -/

/-- the simulation is one of the setup, all its events were collected, and the network is where the history leads -/
structure Faithful (setup : Setup) (sim : Simulation) : Prop where
  origin : sim.engine.setup = setup
  buffer : sim.engine.buffer = []
  network : sim.engine.network = replay setup.network sim.past

theorem Faithful.edit (h : Faithful setup sim) (e : Edit) : Faithful setup (sim.edit e) := by
  rw [edit_eq]
  exact ⟨h.origin, h.buffer, h.network⟩

/-- what was carried out is the last step of the history behind -/
theorem Faithful.advance (h : Faithful setup sim) : Faithful setup sim.advance := by
  have engine := engine_advance sim
  refine ⟨?_, ?_, ?_⟩
  · rw [engine]
    exact h.origin
  · rw [engine]
    rfl
  · have executed : sim.advance.engine.network = (sim.current.executeOn sim.engine.network).state := by
      rw [engine]
      rfl
    rw [executed, past_advance, replay_snoc, h.network]

/-- an engine that is taken through a history from the start is where the history leads -/
theorem faithful_restored {past future : List LiveStep} {current : LiveStep} {reused : Nat} (h : Faithful setup sim) :
    Faithful setup ⟨restoreEngine sim.engine past, past, current, future, reused⟩ := by
  refine ⟨h.origin, rfl, ?_⟩
  rw [← h.origin]
  rfl

theorem Faithful.back (h : Faithful setup sim) : Faithful setup sim.back := by
  rcases sim.past_cases with none | ⟨past, previous, behind⟩
  · rw [back_of_nil none]
    exact h
  · rw [back_of_past behind]
    exact faithful_restored h

theorem Faithful.rewind (h : Faithful setup sim) : Faithful setup sim.rewind := by
  unfold Simulation.rewind
  cases sim.steps with
  | nil => exact faithful_restored h
  | cons first rest => exact faithful_restored h

theorem stable_faithful (setup : Setup) : Stable (Faithful setup) where
  edit _ e h := h.edit e
  advance _ h := h.advance
  back _ h := h.back
  rewind _ h := h.rewind

/-- an engine that was just built has not done anything -/
theorem faithful_start {fullMesh gossip : Bool} {nodes : List Node} {links : List (NodeId × NodeId)} {engine : Engine}
    (built : Engine.start fullMesh gossip nodes links = .ok engine) (recorded : List LiveStep) :
    Faithful engine.setup (start engine recorded) := by
  have fresh : engine.buffer = [] ∧ engine.network = engine.setup.network := by
    unfold Engine.start at built
    split at built
    · cases built
      exact ⟨rfl, rfl⟩
    · obtain ⟨setup, _, rfl⟩ := Engine.load_eq_ok_iff.1 built
      exact ⟨rfl, rfl⟩
  cases recorded with
  | nil => exact ⟨rfl, fresh.1, fresh.2⟩
  | cons first rest => exact ⟨rfl, fresh.1, fresh.2⟩

theorem faithful_after {fullMesh gossip : Bool} {nodes : List Node} {links : List (NodeId × NodeId)} {engine : Engine}
    (built : Engine.start fullMesh gossip nodes links = .ok engine) (recorded : List LiveStep) (cs : List Command) :
    Faithful engine.setup (after engine recorded cs) :=
  (stable_faithful engine.setup).performAll (faithful_start built recorded) cs

/-! ## Main result -/

theorem take_cursor_steps (sim : Simulation) : sim.steps.take sim.cursor = sim.past := by
  simp [steps, cursor]

theorem first_start (engine : Engine) (recorded : List LiveStep) :
    (start engine recorded).first = recorded.headD .blank := by
  cases recorded <;> rfl

/-- **State is replay.** Let a simulation of a newly built engine be started from a recording, or without one, and let any
commands be given. The cursor is the index of a step. The first step is the one that it was, but for edits given while it
was the present step. No event is left uncollected. The network, states and overlay alike, is the one that is reached by
resetting the engine and carrying out the steps before the cursor, as they are now, one after the other. -/
theorem network_eq_retrace {fullMesh gossip : Bool} {nodes : List Node} {links : List (NodeId × NodeId)}
    {engine : Engine} (built : Engine.start fullMesh gossip nodes links = .ok engine) (recorded : List LiveStep)
    (commands : List Command) :
    (after engine recorded commands).cursor < (after engine recorded commands).steps.length ∧
    (after engine recorded commands).steps.head? =
      some (((start engine recorded).editsOfFirst commands).foldl Edit.applyTo (recorded.headD .blank)) ∧
    (after engine recorded commands).engine.buffer = [] ∧
    (after engine recorded commands).engine.network = (engine.reset.retrace
      ((after engine recorded commands).steps.take (after engine recorded commands).cursor)).network := by
  have faithful := faithful_after built recorded commands
  have first : (after engine recorded commands).first =
      ((start engine recorded).editsOfFirst commands).foldl Edit.applyTo (recorded.headD .blank) := by
    rw [after, first_performAll, first_start]
  refine ⟨cursor_lt_length _, ?_, faithful.buffer, ?_⟩
  · rw [head?_steps, first]
  · rw [take_cursor_steps, Engine.retrace_network]
    exact faithful.network

/-- two nodes that trust the first of them -/
def leaderAndFollower : List Node := [⟨"L", .flat 1 ["L"] (by decide)⟩, ⟨"F", .flat 1 ["L"] (by decide)⟩]

/-- a vote is queued and withdrawn, another one is queued and carried out, what it called for is disrupted and carried
out, and a step is taken back -/
def hesitation : List Command :=
  [.edit (.submit ⟨.vote "L" "x", some 0⟩), .edit (.withdraw 0), .edit (.submit ⟨.vote "L" "y", some 1⟩), .advance,
    .edit (.disruptFor "L" none), .advance, .back]

/-- the second step is the present one, the first step holds the vote that stayed, and the network is where that leads -/
theorem hesitation_retraced :
    Engine.start true false leaderAndFollower [] = .ok (.ofSetup ⟨leaderAndFollower, .bare true false⟩) ∧
    (after (.ofSetup ⟨leaderAndFollower, .bare true false⟩) [] hesitation).cursor = 1 ∧
    (after (.ofSetup ⟨leaderAndFollower, .bare true false⟩) [] hesitation).steps.head? =
      some ⟨[⟨.vote "L" "y", some 1⟩], [], [], ""⟩ ∧
    (after (.ofSetup ⟨leaderAndFollower, .bare true false⟩) [] hesitation).engine.network =
      ((Engine.ofSetup ⟨leaderAndFollower, .bare true false⟩).reset.retrace
        [⟨[⟨.vote "L" "y", some 1⟩], [], [], ""⟩]).network := by
  have built : Engine.start true false leaderAndFollower [] =
      .ok (.ofSetup ⟨leaderAndFollower, .bare true false⟩) := by rfl
  obtain ⟨_, first, _, network⟩ := network_eq_retrace built [] hesitation
  exact ⟨built, by rfl, first, network⟩

end Simulation

end FederatedAgreement
