/-
Commands of an operator: edits of the pending actions of the present step, and walking. What every single edit and every
single move of the walk keep up, all sequences of commands keep up. Operators can also load other nodes, which starts the
network over and leaves the history.

Results:
- `edit_eq`: an edit changes the present step only, and in a way that depends on this step only.
- `Stable.performAll`: what holds at the start and is stable holds after any commands.
- `Lasting.afterAny`: if loading keeps it up as well, it holds after any operations.
- `enqueue_cases`: how an action joins those that are pending.
- `first_performAll`: the first step is never lost, and only changes by edits given while it is the present one.
-/
import FederatedAgreement.Simulation.Basic

namespace FederatedAgreement

/-! ## Edits -/

/-- what can be changed about the pending actions of a step -/
inductive Edit where
  | submit (new : Submission)
  | withdraw (ticket : Nat)
  | withdrawAt (index : Nat)
  | setDisrupted (index : Nat) (disrupted : Bool)
  | disruptFor (node : NodeId) (kind : Option ActionKind)
deriving DecidableEq, Repr

def Simulation.edit (sim : Simulation) : Edit → Simulation
  | .submit new => sim.submit new
  | .withdraw ticket => sim.withdraw ticket
  | .withdrawAt index => sim.withdrawAt index
  | .setDisrupted index disrupted => sim.setDisrupted index disrupted
  | .disruptFor node kind => (sim.disruptFor node kind).1

/-- the step that an edit leaves, whatever simulation it is the present step of -/
def Edit.applyTo (s : LiveStep) (e : Edit) : LiveStep :=
  ((Simulation.start (.bare true false) [s]).edit e).current

/-- **Edits are local.** An edit changes the present step only. -/
theorem Simulation.edit_eq (sim : Simulation) (e : Edit) :
    sim.edit e = { sim with current := e.applyTo sim.current } := by
  cases e with
  | withdrawAt index =>
    simp only [edit, Edit.applyTo, start, withdrawAt]
    split <;> rfl
  | submit | withdraw | setDisrupted | disruptFor => rfl

/-- an edit changes what is pending, not how the step came about -/
theorem Edit.applyTo_recorded (s : LiveStep) (e : Edit) :
    (e.applyTo s).previousHash = s.previousHash ∧ (e.applyTo s).precedingEvents = s.precedingEvents := by
  cases e with
  | withdrawAt index =>
    simp only [applyTo, Simulation.edit, Simulation.start, Simulation.withdrawAt]
    split <;> exact ⟨rfl, rfl⟩
  | submit | withdraw | setDisrupted | disruptFor => exact ⟨rfl, rfl⟩

/-! ## Commands -/

/-- what an operator can order a simulation to do -/
inductive Command where
  | edit (e : Edit)
  | advance
  | run (limit : Nat)
  | back
  | rewind
deriving DecidableEq, Repr

/-- everything that an operator can do to a simulation -/
inductive Operation where
  | command (c : Command)
  | load (nodes : List Node) (links : List (NodeId × NodeId))

namespace Simulation

variable {sim : Simulation}

def perform (sim : Simulation) : Command → Simulation
  | .edit e => sim.edit e
  | .advance => sim.advance
  | .run limit => (sim.run limit).1
  | .back => sim.back
  | .rewind => sim.rewind

def performAll (sim : Simulation) (cs : List Command) : Simulation := cs.foldl perform sim

/-- a simulation that was started from a recording, after some commands -/
def after (engine : Engine) (recorded : List LiveStep) (cs : List Command) : Simulation :=
  (start engine recorded).performAll cs

/-- nodes and links that cannot be loaded leave the simulation as it is -/
def operate (sim : Simulation) : Operation → Simulation
  | .command c => sim.perform c
  | .load nodes links => (sim.load nodes links).toOption.getD sim

/-- a simulation that was started from a recording, after some operations -/
def afterAny (engine : Engine) (recorded : List LiveStep) (ops : List Operation) : Simulation :=
  ops.foldl operate (start engine recorded)

theorem performAll_cons (sim : Simulation) (c : Command) (cs : List Command) :
    sim.performAll (c :: cs) = (sim.perform c).performAll cs := rfl

theorem performAll_append (sim : Simulation) (cs ds : List Command) :
    sim.performAll (cs ++ ds) = (sim.performAll cs).performAll ds := List.foldl_append

/-- what every step forward keeps up, a run of them keeps up -/
theorem run_induct {P : Simulation → Prop} (forward : ∀ sim, P sim → P sim.advance) (h : P sim) (limit : Nat) :
    P (sim.run limit).1 := by
  induction limit generalizing sim with
  | zero => exact h
  | succ limit ih =>
    rw [run]
    split
    · exact ih (forward sim h)
    · exact h

/-- kept up by every edit and by every move of the walk -/
structure Stable (P : Simulation → Prop) : Prop where
  edit : ∀ sim e, P sim → P (sim.edit e)
  advance : ∀ sim, P sim → P sim.advance
  back : ∀ sim, P sim → P sim.back
  rewind : ∀ sim, P sim → P sim.rewind

theorem Stable.perform {P : Simulation → Prop} (stable : Stable P) (h : P sim) (c : Command) : P (sim.perform c) := by
  cases c with
  | edit e => exact stable.edit sim e h
  | advance => exact stable.advance sim h
  | run limit => exact run_induct stable.advance h limit
  | back => exact stable.back sim h
  | rewind => exact stable.rewind sim h

/-- **Reachable simulations.** What is stable holds after any commands. -/
theorem Stable.performAll {P : Simulation → Prop} (stable : Stable P) (h : P sim) (cs : List Command) :
    P (sim.performAll cs) := by
  induction cs generalizing sim with
  | nil => exact h
  | cons c cs ih => exact ih (stable.perform h c)

/-- a simulation that other nodes were loaded into has another engine, and the same history -/
theorem load_eq_ok_iff {nodes : List Node} {links : List (NodeId × NodeId)} {sim' : Simulation} :
    sim.load nodes links = .ok sim' ↔
      ∃ engine, sim.engine.load nodes links = .ok engine ∧ sim' = { sim with engine } := by
  unfold Simulation.load
  cases sim.engine.load nodes links with
  | error m => simp [bind, Except.bind]
  | ok engine => simp [bind, Except.bind, eq_comm]

/-- kept up by loading other nodes, too -/
structure Lasting (P : Simulation → Prop) extends Stable P where
  load : ∀ {sim sim' nodes links}, P sim → sim.load nodes links = .ok sim' → P sim'

theorem Lasting.operate {P : Simulation → Prop} (lasting : Lasting P) (h : P sim) (o : Operation) : P (sim.operate o) := by
  cases o with
  | command c => exact lasting.perform h c
  | load nodes links =>
    show P ((sim.load nodes links).toOption.getD sim)
    cases loaded : sim.load nodes links with
    | error m => exact h
    | ok sim' => exact lasting.load h loaded

/-- **Reachable by any operations.** What edits, moves and loading keep up holds after any operations. -/
theorem Lasting.afterAny {P : Simulation → Prop} (lasting : Lasting P) {e : Engine} {recorded : List LiveStep}
    (h : P (start e recorded)) (ops : List Operation) : P (afterAny e recorded ops) := by
  unfold Simulation.afterAny
  generalize start e recorded = sim at h
  induction ops generalizing sim with
  | nil => exact h
  | cons o ops ih => exact ih _ (lasting.operate h o)

/-- what is stable and does not depend on the engine is kept up by loading -/
theorem Stable.lasting {P : Simulation → Prop} (stable : Stable P) (engine : ∀ sim engine, P sim → P { sim with engine }) :
    Lasting P where
  toStable := stable
  load := by
    intro sim sim' nodes links h loaded
    obtain ⟨e, _, rfl⟩ := load_eq_ok_iff.1 loaded
    exact engine sim e h

theorem Stable.afterAny {P : Simulation → Prop} (stable : Stable P)
    (engine : ∀ sim engine, P sim → P { sim with engine }) {e : Engine} {recorded : List LiveStep}
    (h : P (start e recorded)) (ops : List Operation) : P (afterAny e recorded ops) :=
  (stable.lasting engine).afterAny h ops

/-! ## Queueing -/

/-- the first rival gives its place up, if there is one -/
theorem enqueue_cases (new : Submission) (queue : List Submission) :
    (∃ before old behind, queue = before ++ old :: behind ∧ rivals new.action old.action = true ∧
      enqueue new queue = before ++ new :: behind) ∨
    ((∀ old ∈ queue, rivals new.action old.action = false) ∧
      enqueue new queue = if new.action.isImmediate then new :: queue else queue ++ [new]) := by
  unfold enqueue
  cases found : queue.findIdx? fun old => rivals new.action old.action with
  | none => exact Or.inr ⟨List.findIdx?_eq_none_iff.1 found, rfl⟩
  | some i =>
    obtain ⟨inside, rival, _⟩ := List.findIdx?_eq_some_iff_getElem.1 found
    have replaced : queue.set i new = queue.take i ++ new :: queue.drop (i + 1) := by
      rw [List.set_eq_take_append_cons_drop, if_pos inside]
    refine Or.inl ⟨queue.take i, queue[i], queue.drop (i + 1), ?_, rival, replaced⟩
    rw [List.getElem_cons_drop, List.take_append_drop]

/-! ## Single moves -/

/-- whatever was recorded ahead, the present step comes behind, what is pending in it is executed and the events are
collected, and the step that was reached carries its hash -/
theorem advance_leaves (sim : Simulation) :
    sim.advance.past = sim.past ++ [sim.current] ∧
    sim.advance.engine = (sim.engine.execute sim.current.pendingUser sim.current.protocolActions).1.drain.1 ∧
    sim.advance.current.previousHash = sim.current.hash := by
  unfold Simulation.advance
  dsimp only
  split
  · exact ⟨rfl, rfl, rfl⟩
  · split
    · next known => exact ⟨rfl, rfl, known⟩
    · exact ⟨rfl, rfl, rfl⟩

theorem past_advance (sim : Simulation) : sim.advance.past = sim.past ++ [sim.current] := (advance_leaves sim).1

theorem engine_advance (sim : Simulation) :
    sim.advance.engine = (sim.engine.execute sim.current.pendingUser sim.current.protocolActions).1.drain.1 :=
  (advance_leaves sim).2.1

theorem previousHash_advance (sim : Simulation) : sim.advance.current.previousHash = sim.current.hash :=
  (advance_leaves sim).2.2

/-- there are no steps behind, or there is a last one -/
theorem past_cases (sim : Simulation) : sim.past = [] ∨ ∃ past previous, sim.past = past ++ [previous] := by
  rcases List.eq_nil_or_concat sim.past with none | ⟨past, previous, h⟩
  · exact Or.inl none
  · exact Or.inr ⟨past, previous, h.trans List.concat_eq_append⟩

theorem back_of_past {past : List LiveStep} {previous : LiveStep} (h : sim.past = past ++ [previous]) :
    sim.back = ⟨restoreEngine sim.engine past, past, previous, sim.current :: sim.future, sim.reused⟩ := by
  simp [Simulation.back, h]

theorem back_of_nil (h : sim.past = []) : sim.back = sim := by
  simp [Simulation.back, h]

/-! ## The first step -/

/-- the step at which the history begins -/
def first (sim : Simulation) : LiveStep := sim.past.headD sim.current

theorem head?_steps (sim : Simulation) : sim.steps.head? = some sim.first := by
  unfold steps first
  cases sim.past <;> rfl

theorem first_advance (sim : Simulation) : sim.advance.first = sim.first := by
  unfold first
  rw [past_advance]
  cases sim.past <;> rfl

theorem first_run (sim : Simulation) (limit : Nat) : (sim.run limit).1.first = sim.first :=
  run_induct (P := fun s => s.first = sim.first) (fun s h => (first_advance s).trans h) rfl limit

theorem first_back (sim : Simulation) : sim.back.first = sim.first := by
  rcases sim.past_cases with none | ⟨past, previous, h⟩
  · rw [back_of_nil none]
  · rw [back_of_past h, first, first, h]
    cases past <;> rfl

theorem first_rewind (sim : Simulation) : sim.rewind.first = sim.first := by
  unfold Simulation.rewind steps first
  cases sim.past <;> rfl

/-- the edit that a command is, if it is given while the first step is the present one -/
def editOfFirst (sim : Simulation) : Command → Option Edit
  | .edit e => if sim.cursor = 0 then some e else none
  | _ => none

theorem first_perform (sim : Simulation) (c : Command) :
    (sim.perform c).first = (sim.editOfFirst c).toList.foldl Edit.applyTo sim.first := by
  cases c with
  | edit e =>
    rw [perform, edit_eq]
    unfold editOfFirst first cursor
    cases sim.past <;> rfl
  | advance => exact first_advance sim
  | run limit => exact first_run sim limit
  | back => exact first_back sim
  | rewind => exact first_rewind sim

/-- the edits among some commands that are given while the first step is the present one -/
def editsOfFirst (sim : Simulation) : List Command → List Edit
  | [] => []
  | c :: cs => (sim.editOfFirst c).toList ++ editsOfFirst (sim.perform c) cs

/-- **The first step stays.** After any commands it is the step that it was, changed by those edits only that were given
while it was the present step. -/
theorem first_performAll (sim : Simulation) (cs : List Command) :
    (sim.performAll cs).first = (sim.editsOfFirst cs).foldl Edit.applyTo sim.first := by
  induction cs generalizing sim with
  | nil => rfl
  | cons c cs ih => rw [performAll_cons, ih, first_perform, editsOfFirst, List.foldl_append]

end Simulation

end FederatedAgreement
