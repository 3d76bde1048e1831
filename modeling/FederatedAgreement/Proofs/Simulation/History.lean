/-
What a history says is what happened. A step is recorded when the step before it is carried out, and from then on only
what it has pending is edited. When it is met again, what was just carried out is given up for the record. The record is
still true: its hash tells that the step before it holds what it held when the record was made, and the same is known of
every step before that one.

Results:
- `Records.edit`: no edit makes a record untrue.
- `advance_cases`: a step forward meets a record again, or makes a new one.
- `Documented.advance`: records behind and ahead stay true, if hashes tell the batches carried out apart.
- `history_truthful`: **every step behind led to what the next one records**, after any commands.
-/
import FederatedAgreement.Proofs.Simulation.Rewind

namespace FederatedAgreement

/-! ## Batches -/

/-- user actions and protocol actions that are carried out together; this is what hashes are made of -/
abbrev Batch := List UserAction × List ProtocolAction

namespace Batch

def hash (b : Batch) : String := actionsHash b.1 b.2

/-- no two different batches of a list have the same hash -/
def ToldApart (bs : List Batch) : Prop := ∀ b ∈ bs, ∀ b' ∈ bs, b.hash = b'.hash → b = b'

/-- it is enough to compare each batch with those behind it -/
theorem toldApart_iff_pairwise {bs : List Batch} :
    ToldApart bs ↔ bs.Pairwise fun b b' => b.hash = b'.hash → b = b' := by
  constructor
  · intro apart
    rw [List.pairwise_iff_forall_sublist]
    intro b b' sub
    exact apart b (sub.subset (by simp)) b' (sub.subset (by simp))
  · intro pairwise b hb b' hb'
    have flipped : bs.Pairwise fun b b' => b'.hash = b.hash → b' = b :=
      pairwise.imp fun same hash => (same hash.symm).symm
    exact List.Pairwise.forall_of_forall_of_flip (fun _ _ _ => rfl) pairwise flipped hb hb'

instance (bs : List Batch) : Decidable (ToldApart bs) := decidable_of_iff _ toldApart_iff_pairwise.symm

end Batch

/-- the batch that a step has pending -/
def LiveStep.batch (s : LiveStep) : Batch := (s.pendingUser, s.protocolActions)

theorem LiveStep.hash_eq (s : LiveStep) : s.hash = s.batch.hash := rfl

/-- what carrying out a step does depends on its batch only -/
theorem LiveStep.executeOn_congr {s t : LiveStep} (same : s.batch = t.batch) (n : Network) :
    s.executeOn n = t.executeOn n := by
  have users : s.pendingUser = t.pendingUser := congrArg Prod.fst same
  have protocol : s.protocolActions = t.protocolActions := congrArg Prod.snd same
  rw [executeOn, executeOn, users, protocol]

/-- the action as it was called for, disrupted or not -/
def ProtocolAction.undisrupted (a : ProtocolAction) : ProtocolAction := { a with disrupted := false }

namespace Simulation

variable {sim : Simulation} {setup : Setup} {batches : List Batch} {n : Network} {s s' t : LiveStep}

/-! ## What commands carry out -/

/-- the batches that a run of at most so many steps carries out -/
def batchesOfRun (sim : Simulation) : Nat → List Batch
  | 0 => []
  | limit + 1 => if sim.hasNext then sim.current.batch :: batchesOfRun sim.advance limit else []

/-- the batches that a command carries out for the first time or again; going back only repeats what is behind -/
def batchesOf (sim : Simulation) : Command → List Batch
  | .advance => [sim.current.batch]
  | .run limit => sim.batchesOfRun limit
  | .edit _ | .back | .rewind => []

/-- the batches that some commands carry out, in order -/
def batchesOfAll (sim : Simulation) : List Command → List Batch
  | [] => []
  | c :: cs => sim.batchesOf c ++ batchesOfAll (sim.perform c) cs

/-! ## Records -/

/-- the second step records what carrying out the first one in a network leads to -/
structure Records (n : Network) (s t : LiveStep) : Prop where
  follows : Follows s t
  actions : t.protocolActions.map ProtocolAction.undisrupted = (s.executeOn n).actions.map ProtocolAction.undisrupted
  events : t.precedingEvents = (s.executeOn n).events

theorem Records.congr (h : Records n s t) (same : s.batch = s'.batch) : Records n s' t := by
  have executed := LiveStep.executeOn_congr same n
  refine ⟨?_, ?_, ?_⟩
  · have hash : s.hash = s'.hash := by rw [LiveStep.hash_eq, LiveStep.hash_eq, same]
    exact h.follows.trans hash
  · rw [← executed]
    exact h.actions
  · rw [← executed]
    exact h.events

theorem map_undisrupted_modify (as : List ProtocolAction) (i : Nat) (disrupted : Bool) :
    (as.modify i ({ · with disrupted })).map ProtocolAction.undisrupted = as.map ProtocolAction.undisrupted := by
  induction as generalizing i with
  | nil => cases i <;> rfl
  | cons a as ih =>
    cases i with
    | zero => rfl
    | succ i => rw [List.modify_succ_cons, List.map_cons, ih, List.map_cons]

/-- edits change which protocol actions are disrupted, not which ones there are -/
theorem undisrupted_edit (s : LiveStep) (e : Edit) :
    (e.applyTo s).protocolActions.map ProtocolAction.undisrupted =
      s.protocolActions.map ProtocolAction.undisrupted := by
  cases e with
  | withdrawAt index =>
    simp only [Edit.applyTo, edit, start, withdrawAt]
    split <;> rfl
  | setDisrupted index disrupted => exact map_undisrupted_modify s.protocolActions index disrupted
  | disruptFor node kind =>
    show (s.protocolActions.map _).map _ = _
    rw [List.map_map]
    apply List.map_congr_left
    intro a _
    simp only [Function.comp_apply]
    split <;> rfl
  | submit | withdraw => rfl

theorem Records.edit (h : Records n s t) (e : Edit) : Records n s (e.applyTo t) := by
  obtain ⟨hash, events⟩ := Edit.applyTo_recorded t e
  exact ⟨hash.trans h.follows, (undisrupted_edit t e).trans h.actions, events.trans h.events⟩

/-! ## Records behind and ahead -/

/-- the steps before the present one were carried out as they are, and each step up to it records what the one before
led to -/
inductive Accurate (start : Network) (batches : List Batch) : List LiveStep → LiveStep → Prop
  | first (s : LiveStep) : Accurate start batches [] s
  | next {past : List LiveStep} {s t : LiveStep} (before : Accurate start batches past s)
      (carried_out : s.batch ∈ batches) (records : Records (replay start past) s t) :
      Accurate start batches (past ++ [s]) t

/-- the steps ahead record what some steps led to, which were carried out one after the other from here; the steps that
stand in their places now may have been edited since -/
def Foreseen (batches : List Batch) : Network → List LiveStep → Prop
  | _, [] => True
  | n, next :: rest =>
    ∃ s : LiveStep, s.batch ∈ batches ∧ Records n s next ∧ Foreseen batches (s.executeOn n).state rest

/-- the history is a true one, behind the present step and ahead of it -/
structure Documented (start : Network) (batches : List Batch) (sim : Simulation) : Prop where
  behind : Accurate start batches sim.past sim.current
  ahead : Foreseen batches (replay start sim.past) sim.future

theorem Accurate.last {start : Network} {past : List LiveStep} {previous current : LiveStep}
    (h : Accurate start batches (past ++ [previous]) current) :
    Accurate start batches past previous ∧ previous.batch ∈ batches ∧
      Records (replay start past) previous current := by
  generalize whole : past ++ [previous] = steps at h
  cases h with
  | first => simp at whole
  | next before carried_out records =>
    obtain ⟨rfl, one⟩ := List.append_inj' whole rfl
    cases one
    exact ⟨before, carried_out, records⟩

theorem Accurate.edit {start : Network} {past : List LiveStep} (h : Accurate start batches past s) (e : Edit) :
    Accurate start batches past (e.applyTo s) := by
  cases h with
  | first => exact .first _
  | next before carried_out records => exact .next before carried_out (records.edit e)

/-- at a place behind the present step, the next step records what the step there led to -/
theorem Accurate.records_at {start : Network} {past : List LiveStep} {current : LiveStep}
    (h : Accurate start batches past current) {i : Nat} (below : i < past.length) :
    ∃ s t, (past ++ [current])[i]? = some s ∧ (past ++ [current])[i + 1]? = some t ∧
      Records (replay start (past.take i)) s t := by
  induction h with
  | first => exact absurd below (Nat.not_lt_zero i)
  | @next past s t before _ records ih =>
    rw [List.length_append, List.length_singleton] at below
    rcases Nat.lt_succ_iff_lt_or_eq.1 below with earlier | rfl
    · obtain ⟨s', t', at_i, at_next, records'⟩ := ih earlier
      have inside : i + 1 < (past ++ [s]).length := by simpa using earlier
      refine ⟨s', t', ?_, ?_, ?_⟩
      · rw [List.getElem?_append_left (Nat.lt_of_succ_lt inside)]
        exact at_i
      · rw [List.getElem?_append_left inside]
        exact at_next
      · rw [List.take_append_of_le_length (Nat.le_of_lt earlier)]
        exact records'
    · refine ⟨s, t, by simp, by simp, ?_⟩
      rw [List.take_left]
      exact records

/-! ## Single moves -/

/-- the next step is met again as it follows the present one, or a new step records what the present one leads to -/
theorem advance_cases (faithful : Faithful setup sim) :
    (∃ next rest, sim.future = next :: rest ∧ Follows sim.current next ∧ sim.advance.current = next ∧
      sim.advance.future = rest) ∨
    (Records (replay setup.network sim.past) sim.current sim.advance.current ∧ sim.advance.future = []) := by
  have network : sim.engine.network = replay setup.network sim.past := faithful.network
  have recorded : Records (replay setup.network sim.past) sim.current
      ⟨[], (sim.engine.execute sim.current.pendingUser sim.current.protocolActions).2,
        (sim.engine.execute sim.current.pendingUser sim.current.protocolActions).1.drain.2, sim.current.hash⟩ := by
    refine ⟨rfl, ?_, ?_⟩
    · rw [← network]
      rfl
    · show sim.engine.buffer ++ (sim.current.executeOn sim.engine.network).events = _
      rw [faithful.buffer, network, List.nil_append]
  unfold Simulation.advance
  dsimp only
  split
  · exact Or.inr ⟨recorded, rfl⟩
  · next next rest future =>
    split
    · next known => exact Or.inl ⟨next, rest, future, known, rfl, rfl⟩
    · exact Or.inr ⟨recorded, rfl⟩

theorem Documented.edit {start : Network} (h : Documented start batches sim) (e : Edit) :
    Documented start batches (sim.edit e) := by
  rw [edit_eq]
  exact ⟨h.behind.edit e, h.ahead⟩

/-- if the next step is met again, the batch that it records was carried out and has the hash of the present one, so it
is the present one, and all that was recorded ahead is recorded of the steps as they are now -/
theorem Documented.advance (faithful : Faithful setup sim) (h : Documented setup.network batches sim)
    (apart : Batch.ToldApart batches) (carried_out : sim.current.batch ∈ batches) :
    Documented setup.network batches sim.advance := by
  rcases advance_cases faithful with ⟨next, rest, future, follows, current, left⟩ | ⟨recorded, left⟩
  · have ahead := h.ahead
    rw [future] at ahead
    obtain ⟨s, hs, records, further⟩ := ahead
    have same : s.batch = sim.current.batch := apart s.batch hs sim.current.batch carried_out
      (records.follows.symm.trans follows)
    refine ⟨?_, ?_⟩
    · rw [past_advance, current]
      exact .next h.behind carried_out (records.congr same)
    · rw [past_advance, replay_snoc, left, ← LiveStep.executeOn_congr same]
      exact further
  · refine ⟨?_, ?_⟩
    · rw [past_advance]
      exact .next h.behind carried_out recorded
    · rw [left]
      trivial

/-- the present step becomes one that is ahead, recorded after the one before it as that one is now -/
theorem Documented.back {start : Network} (h : Documented start batches sim) : Documented start batches sim.back := by
  rcases sim.past_cases with none | ⟨past, previous, behind⟩
  · rw [back_of_nil none]
    exact h
  · obtain ⟨past_true, ahead⟩ := h
    rw [behind] at past_true ahead
    rw [replay_snoc] at ahead
    obtain ⟨before, carried_out, records⟩ := past_true.last
    rw [back_of_past behind]
    exact ⟨before, previous, carried_out, records, ahead⟩

theorem Documented.rewind (faithful : Faithful setup sim) {start : Network} (h : Documented start batches sim) :
    Documented start batches sim.rewind := by
  rw [rewind_eq_back faithful]
  generalize sim.cursor = k
  clear faithful
  induction k generalizing sim with
  | zero => exact h
  | succ k ih => exact ih h.back

/-! ## Many moves -/

theorem Documented.run (apart : Batch.ToldApart batches) (faithful : Faithful setup sim)
    (h : Documented setup.network batches sim) {limit : Nat} (carried_out : ∀ b ∈ sim.batchesOfRun limit, b ∈ batches) :
    Documented setup.network batches (sim.run limit).1 := by
  induction limit generalizing sim with
  | zero => exact h
  | succ limit ih =>
    rw [batchesOfRun] at carried_out
    rw [Simulation.run]
    split
    · next more =>
      rw [if_pos more, List.forall_mem_cons] at carried_out
      exact ih faithful.advance (h.advance faithful apart carried_out.1) carried_out.2
    · exact h

theorem Documented.perform (apart : Batch.ToldApart batches) (faithful : Faithful setup sim)
    (h : Documented setup.network batches sim) {c : Command} (carried_out : ∀ b ∈ sim.batchesOf c, b ∈ batches) :
    Documented setup.network batches (sim.perform c) := by
  cases c with
  | edit e => exact h.edit e
  | advance => exact h.advance faithful apart (carried_out _ List.mem_cons_self)
  | run limit => exact h.run apart faithful carried_out
  | back => exact h.back
  | rewind => exact h.rewind faithful

theorem Documented.performAll (apart : Batch.ToldApart batches) (faithful : Faithful setup sim)
    (h : Documented setup.network batches sim) {cs : List Command}
    (carried_out : ∀ b ∈ sim.batchesOfAll cs, b ∈ batches) :
    Documented setup.network batches (sim.performAll cs) := by
  induction cs generalizing sim with
  | nil => exact h
  | cons c cs ih =>
    rw [batchesOfAll, List.forall_mem_append] at carried_out
    have next := (stable_faithful setup).perform faithful c
    exact ih next (h.perform apart faithful carried_out.1) carried_out.2

/-! ## Main result -/

theorem steps_of_behind (sim : Simulation) {i : Nat} (h : i ≤ sim.cursor) :
    sim.steps[i]? = (sim.past ++ [sim.current])[i]? := by
  have inside : i < (sim.past ++ [sim.current]).length := by
    rw [List.length_append, List.length_singleton]
    exact Nat.lt_succ_of_le h
  have split : sim.steps = (sim.past ++ [sim.current]) ++ sim.future := by simp [steps]
  rw [split, List.getElem?_append_left inside]

/-- **Histories are true.** Let a simulation of a newly built engine be started without a recording, and let any
commands be given among whose batches no two different ones have the same hash. Take any step behind the present one,
with its actions disrupted or not as they are now. Carrying it out, where the steps before it lead from the start, calls
for just the actions that the next step holds, in their order, whether or not they are disrupted by now, and shows just
the events that the next step holds. It does not matter whether the next step was recorded anew or met again. -/
theorem history_truthful {fullMesh gossip : Bool} {nodes : List Node} {links : List (NodeId × NodeId)}
    {engine : Engine} (built : Engine.start fullMesh gossip nodes links = .ok engine) (commands : List Command)
    (apart : Batch.ToldApart ((start engine []).batchesOfAll commands)) {i : Nat}
    (behind : i < (after engine [] commands).cursor) :
    ∃ s t, (after engine [] commands).steps[i]? = some s ∧ (after engine [] commands).steps[i + 1]? = some t ∧
      (s.executeOn (engine.reset.retrace ((after engine [] commands).steps.take i)).network).actions.map
        ProtocolAction.undisrupted = t.protocolActions.map ProtocolAction.undisrupted ∧
      (s.executeOn (engine.reset.retrace ((after engine [] commands).steps.take i)).network).events =
        t.precedingEvents := by
  have faithful : Faithful engine.setup (start engine []) := faithful_start built []
  have begun : Documented engine.setup.network ((start engine []).batchesOfAll commands) (start engine []) :=
    ⟨.first _, trivial⟩
  have documented : Documented engine.setup.network _ (after engine [] commands) :=
    begun.performAll apart faithful fun _ hb => hb
  obtain ⟨s, t, at_i, at_next, records⟩ := documented.behind.records_at behind
  have place : (after engine [] commands).steps.take i = (after engine [] commands).past.take i := by
    rw [← take_cursor_steps, List.take_take, Nat.min_eq_left (Nat.le_of_lt behind)]
  refine ⟨s, t, ?_, ?_, ?_⟩
  · rw [steps_of_behind _ (Nat.le_of_lt behind)]
    exact at_i
  · rw [steps_of_behind _ behind]
    exact at_next
  · rw [place, Engine.retrace_network]
    exact ⟨records.actions.symm, records.events.symm⟩

/-- a vote is carried out, taken back and replaced by another one; what that one calls for is disrupted, and after a
step back the vote is carried out again -/
def changeOfMind : List Command :=
  [.edit (.submit ⟨.vote "L" "x", some 0⟩), .advance, .back, .edit (.submit ⟨.vote "L" "y", some 1⟩), .advance,
    .edit (.disruptFor "L" none), .back, .advance]

/-- the step that was met again holds what the second vote calls for, disrupted by now, and the events of that vote -/
theorem changeOfMind_recorded :
    Engine.start true false leaderAndFollower [] = .ok (.ofSetup ⟨leaderAndFollower, .bare true false⟩) ∧
    Batch.ToldApart ((start (.ofSetup ⟨leaderAndFollower, .bare true false⟩) []).batchesOfAll changeOfMind) ∧
    0 < (after (.ofSetup ⟨leaderAndFollower, .bare true false⟩) [] changeOfMind).cursor ∧
    (after (.ofSetup ⟨leaderAndFollower, .bare true false⟩) [] changeOfMind).reused = 1 ∧
    ∃ s t,
      (after (.ofSetup ⟨leaderAndFollower, .bare true false⟩) [] changeOfMind).steps[0]? = some s ∧
      (after (.ofSetup ⟨leaderAndFollower, .bare true false⟩) [] changeOfMind).steps[1]? = some t ∧
      (s.executeOn ((Engine.ofSetup ⟨leaderAndFollower, .bare true false⟩).reset.retrace
        ((after (.ofSetup ⟨leaderAndFollower, .bare true false⟩) [] changeOfMind).steps.take 0)).network).events =
          t.precedingEvents := by
  have built : Engine.start true false leaderAndFollower [] =
      .ok (.ofSetup ⟨leaderAndFollower, .bare true false⟩) := by rfl
  have batches : (start (.ofSetup ⟨leaderAndFollower, .bare true false⟩) []).batchesOfAll changeOfMind =
      [([.vote "L" "x"], []), ([.vote "L" "y"], []), ([.vote "L" "y"], [])] := by decide +kernel
  have apart : Batch.ToldApart
      ((start (.ofSetup ⟨leaderAndFollower, .bare true false⟩) []).batchesOfAll changeOfMind) := by
    rw [batches]
    decide +kernel
  have walked : 0 < (after (.ofSetup ⟨leaderAndFollower, .bare true false⟩) [] changeOfMind).cursor ∧
      (after (.ofSetup ⟨leaderAndFollower, .bare true false⟩) [] changeOfMind).reused = 1 := by
    decide +kernel
  obtain ⟨s, t, at_zero, at_one, _, events⟩ := history_truthful built changeOfMind apart walked.1
  exact ⟨built, apart, walked.1, walked.2, s, t, at_zero, at_one, events⟩

end Simulation

end FederatedAgreement
