/-
Walking back and forth. Every step up to the present one carries the hash of what the step before it holds now. So each
step forward after steps backward meets the recorded step again, and nothing is given up.

Results:
- `Linked.edit`, `Linked.advance`: hashes stay in place, as only the present step can be edited.
- `advance_back`: a step back and a step forward.
- `rewind_eq_back`: going to the first step is going back step by step.
- `back_and_forth`: **rewinding and going forward again** changes nothing.
-/
import FederatedAgreement.Proofs.Simulation.Replay
import Mathlib.Data.List.Chain

namespace FederatedAgreement.Simulation

variable {sim : Simulation} {setup : Setup}

/-! ## Hashes -/

/-- the second step was recorded after what the first one holds -/
def Follows (s t : LiveStep) : Prop := t.previousHash = s.hash

/-- every step up to the present one carries the hash of the one before -/
def Linked (sim : Simulation) : Prop := (sim.past ++ [sim.current]).IsChain Follows

theorem linked_iff : Linked sim ↔
    sim.past.IsChain Follows ∧ ∀ previous ∈ sim.past.getLast?, Follows previous sim.current := by
  simp [Linked, List.isChain_append]

theorem linked_start (engine : Engine) (recorded : List LiveStep) : Linked (start engine recorded) := by
  cases recorded <;> exact List.isChain_singleton _

/-- the hash that the present step carries is not among what can be edited -/
theorem Linked.edit (h : Linked sim) (e : Edit) : Linked (sim.edit e) := by
  obtain ⟨before, last⟩ := linked_iff.1 h
  rw [edit_eq]
  refine linked_iff.2 ⟨before, ?_⟩
  intro previous behind
  have recorded := (Edit.applyTo_recorded sim.current e).1
  exact recorded.trans (last previous behind)

theorem Linked.advance (h : Linked sim) : Linked sim.advance := by
  rw [linked_iff, past_advance]
  refine ⟨h, ?_⟩
  intro previous behind
  rw [List.getLast?_concat] at behind
  cases behind
  exact previousHash_advance sim

theorem Linked.back (h : Linked sim) : Linked sim.back := by
  rcases sim.past_cases with none | ⟨past, previous, behind⟩
  · rw [back_of_nil none]
    exact h
  · have before := (linked_iff.1 h).1
    rw [behind] at before
    rw [back_of_past behind]
    exact before

theorem linked_rewind (sim : Simulation) : Linked sim.rewind := by
  unfold Simulation.rewind
  cases sim.steps <;> exact List.isChain_singleton _

theorem stable_linked : Stable Linked where
  edit _ e h := h.edit e
  advance _ h := h.advance
  back _ h := h.back
  rewind sim _ := linked_rewind sim

/-! ## A step back and a step forward -/

/-- the same simulation, in which so many more recorded steps were met again -/
def met (sim : Simulation) (k : Nat) : Simulation := { sim with reused := sim.reused + k }

theorem Faithful.met (h : Faithful setup sim) (k : Nat) : Faithful setup (sim.met k) := ⟨h.origin, h.buffer, h.network⟩

theorem back_met (sim : Simulation) (k : Nat) : (sim.met k).back = sim.back.met k := by
  rcases sim.past_cases with none | ⟨past, previous, behind⟩
  · have none' : (sim.met k).past = [] := none
    rw [back_of_nil none, back_of_nil none']
  · have behind' : (sim.met k).past = past ++ [previous] := behind
    rw [back_of_past behind, back_of_past behind']
    rfl

/-- taking an engine through one more step of a history is carrying that step out -/
theorem restoreEngine_snoc (e : Engine) (past : List LiveStep) (s : LiveStep) :
    ((restoreEngine e past).execute s.pendingUser s.protocolActions).1.drain.1 = restoreEngine e (past ++ [s]) := by
  show Engine.mk e.setup (s.executeOn (replay e.setup.network past)).state [] = restoreEngine e (past ++ [s])
  rw [← replay_snoc]
  rfl

/-- a step forward after a step back meets the recorded step again, and takes the engine through all that is behind -/
theorem advance_back_of_linked (linked : Linked sim) (hasPast : sim.cursor ≠ 0) :
    sim.back.advance = { sim.met 1 with engine := restoreEngine sim.engine sim.past } := by
  obtain ⟨past, previous, behind⟩ := sim.past_cases.resolve_left fun none => hasPast (congrArg List.length none)
  have known : sim.current.previousHash = previous.hash := by
    refine (linked_iff.1 linked).2 previous ?_
    rw [behind, List.getLast?_concat]
    rfl
  have engine := restoreEngine_snoc sim.engine past previous
  rw [back_of_past behind]
  unfold Simulation.advance
  dsimp only
  rw [if_pos known, engine, ← behind]
  rfl

/-- going through all that is behind again leaves the engine as it is -/
theorem Faithful.restored (faithful : Faithful setup sim) : restoreEngine sim.engine sim.past = sim.engine := by
  show Engine.mk sim.engine.setup (replay sim.engine.setup.network sim.past) [] = sim.engine
  rw [faithful.origin, ← faithful.network, ← faithful.buffer, ← faithful.origin]

/-- **One step.** A step forward after a step back ends where it began, and meets the recorded step again. -/
theorem advance_back (faithful : Faithful setup sim) (linked : Linked sim) (hasPast : sim.cursor ≠ 0) :
    sim.back.advance = sim.met 1 := by
  rw [advance_back_of_linked linked hasPast, faithful.restored]
  rfl

/-! ## Many steps -/

theorem performAll_replicate_succ (sim : Simulation) (c : Command) (k : Nat) :
    sim.performAll (.replicate (k + 1) c) = (sim.perform c).performAll (.replicate k c) := rfl

theorem performAll_replicate_snoc (sim : Simulation) (c : Command) (k : Nat) :
    sim.performAll (.replicate (k + 1) c) = (sim.performAll (.replicate k c)).perform c := by
  rw [List.replicate_succ', performAll_append]
  rfl

theorem cursor_back (sim : Simulation) : sim.back.cursor = sim.cursor - 1 := by
  rcases sim.past_cases with none | ⟨past, previous, behind⟩
  · rw [back_of_nil none, cursor, none]
    rfl
  · rw [back_of_past behind, cursor, cursor, behind, List.length_append]
    rfl

/-- the innermost step back is undone by the outermost step forward -/
theorem forward_after_back (faithful : Faithful setup sim) (linked : Linked sim) {k : Nat} (enough : k ≤ sim.cursor) :
    (sim.performAll (.replicate k .back)).performAll (.replicate k .advance) = sim.met k := by
  induction k generalizing sim with
  | zero => rfl
  | succ k ih =>
    have fewer : k ≤ sim.back.cursor := by
      rw [cursor_back]
      omega
    have hasPast : (sim.met k).cursor ≠ 0 := Nat.ne_of_gt (Nat.lt_of_lt_of_le (Nat.succ_pos k) enough)
    calc
      (sim.performAll (.replicate (k + 1) .back)).performAll (.replicate (k + 1) .advance)
      _ = ((sim.back.performAll (.replicate k .back)).performAll (.replicate k .advance)).advance :=
        performAll_replicate_snoc _ .advance k
      _ = (sim.back.met k).advance := by rw [ih faithful.back linked.back fewer]
      _ = (sim.met k).back.advance := by rw [back_met]
      _ = (sim.met k).met 1 := advance_back (faithful.met k) linked hasPast
      _ = sim.met (k + 1) := rfl

/-! ## Going to the first step -/

theorem steps_back (sim : Simulation) : sim.back.steps = sim.steps := by
  rcases sim.past_cases with none | ⟨past, previous, behind⟩
  · rw [back_of_nil none]
  · rw [back_of_past behind, steps, steps, behind, List.append_assoc]
    rfl

theorem steps_rewind (sim : Simulation) : sim.rewind.steps = sim.steps := by
  unfold Simulation.rewind steps
  cases sim.past <;> rfl

theorem cursor_rewind (sim : Simulation) : sim.rewind.cursor = 0 := by
  unfold Simulation.rewind
  cases sim.steps <;> rfl

theorem rewind_back (sim : Simulation) : sim.back.rewind = sim.rewind := by
  rcases sim.past_cases with none | ⟨past, previous, behind⟩
  · rw [back_of_nil none]
  · have steps := steps_back sim
    unfold Simulation.rewind
    rw [steps, back_of_past behind]
    rfl

/-- at the first step there is nothing to go back on -/
theorem rewind_of_nil (faithful : Faithful setup sim) (none : sim.past = []) : sim.rewind = sim := by
  have engine := faithful.restored
  rw [none] at engine
  unfold Simulation.rewind steps
  rw [engine, none]
  show Simulation.mk sim.engine [] sim.current sim.future sim.reused = sim
  rw [← none]

theorem rewind_eq_back (faithful : Faithful setup sim) :
    sim.rewind = sim.performAll (.replicate sim.cursor .back) := by
  generalize hk : sim.cursor = k
  induction k generalizing sim with
  | zero => exact rewind_of_nil faithful (List.length_eq_zero_iff.1 hk)
  | succ k ih =>
    have fewer : sim.back.cursor = k := by
      rw [cursor_back, hk]
      rfl
    rw [← rewind_back, performAll_replicate_succ]
    exact ih faithful.back fewer

/-! ## Main result -/

/-- **Back and forth.** Let a simulation of a newly built engine be started from a recording, or without one, and let any
commands be given. Going back some steps, or to the first step, and forward as many steps again restores everything: the
history with all that is pending, the present step in it, the events, and the engine. Only the count of the recorded
steps that were met again rises, by the number of these steps. -/
theorem back_and_forth {fullMesh gossip : Bool} {nodes : List Node} {links : List (NodeId × NodeId)}
    {engine : Engine} (built : Engine.start fullMesh gossip nodes links = .ok engine) (recorded : List LiveStep)
    (commands : List Command) :
    ∃ sim, sim = after engine recorded commands ∧
      (∀ k ≤ sim.cursor,
        sim.performAll (.replicate k .back ++ .replicate k .advance) = { sim with reused := sim.reused + k }) ∧
      sim.performAll (.rewind :: .replicate sim.cursor .advance) = { sim with reused := sim.reused + sim.cursor } := by
  have faithful := faithful_after built recorded commands
  have linked : Linked (after engine recorded commands) :=
    stable_linked.performAll (linked_start engine recorded) commands
  refine ⟨_, rfl, fun k enough => ?_, ?_⟩
  · rw [performAll_append]
    exact forward_after_back faithful linked enough
  · rw [performAll_cons, perform, rewind_eq_back faithful]
    exact forward_after_back faithful linked (Nat.le_refl _)

/-- with one step behind and one ahead, a step back and a step forward meet one recorded step -/
theorem hesitation_restored :
    Engine.start true false leaderAndFollower [] = .ok (.ofSetup ⟨leaderAndFollower, .bare true false⟩) ∧
    ∃ sim, sim = after (.ofSetup ⟨leaderAndFollower, .bare true false⟩) [] hesitation ∧
      1 ≤ sim.cursor ∧ sim.future ≠ [] ∧ sim.performAll [.back, .advance] = { sim with reused := 1 } := by
  have built : Engine.start true false leaderAndFollower [] =
      .ok (.ofSetup ⟨leaderAndFollower, .bare true false⟩) := by rfl
  have behind : 1 ≤ (after (.ofSetup ⟨leaderAndFollower, .bare true false⟩) [] hesitation).cursor := Nat.le_refl 1
  obtain ⟨_, rfl, restored, _⟩ := back_and_forth built [] hesitation
  exact ⟨built, _, rfl, behind, List.cons_ne_nil _ _, restored 1 behind⟩

end FederatedAgreement.Simulation
