/-
What may be pending together. Of the actions of one kind that are attributed to one node a step keeps the newest, unless a
node may have several of the kind; and actions that change the network at once are in front of all others. A step that
keeps to this keeps to it under every edit, also if it was recorded before and is the present one again. The steps of a
recording need not keep to it, so the simulations here are started without one.

Results:
- `steps_advance`: going forward leaves the history as it is, or gives up what is ahead for a step without user actions.
- `stable_everyStep`: what edits keep up, and what holds of a step without user actions, holds of every step.
- `Disciplined.queued`, `Queued.disciplined`: how an action is queued, and that the queue stays in order.
- `pending_in_order`: **every step of the history is in order**, and what queueing one more action does.
-/
import FederatedAgreement.Proofs.Simulation.Reload

namespace FederatedAgreement

/-- what an action is about: a step keeps one action of each slot, but for the repeatable kinds -/
def UserAction.slot (a : UserAction) : ActionKind × NodeId := (a.kind, a.author)

theorem UserAction.kind_eq_of_slot {a b : UserAction} (same : a.slot = b.slot) : a.kind = b.kind := congrArg Prod.fst same

/-- it is the kind that makes an action immediate -/
theorem UserAction.isImmediate_congr {a b : UserAction} (same : a.slot = b.slot) : a.isImmediate = b.isImmediate := by
  have kind := kind_eq_of_slot same
  cases a <;> cases b <;> first | rfl | cases kind

namespace Simulation

variable {sim : Simulation} {a b c : UserAction} {new : Submission} {queue queue' : List Submission}

/-! ## Every step of a history -/

/-- every step of the history, what lies ahead included -/
def EveryStep (P : LiveStep → Prop) (sim : Simulation) : Prop := ∀ s ∈ sim.steps, P s

theorem everyStep_iff {P : LiveStep → Prop} :
    EveryStep P sim ↔ (∀ s ∈ sim.past, P s) ∧ P sim.current ∧ ∀ s ∈ sim.future, P s := by
  rw [EveryStep, steps, List.forall_mem_append, List.forall_mem_cons]

/-- going forward meets the recorded step, or gives up what is ahead for a new step that has no user actions yet -/
theorem steps_advance (sim : Simulation) :
    sim.advance.steps = sim.steps ∨
    ∃ s : LiveStep, s.userActions = [] ∧ sim.advance.steps = sim.past ++ [sim.current, s] := by
  unfold Simulation.advance steps
  dsimp only
  split
  · exact Or.inr ⟨_, rfl, List.append_assoc _ _ _⟩
  · next ahead =>
    split
    · left
      rw [List.append_assoc, ahead]
      rfl
    · exact Or.inr ⟨_, rfl, List.append_assoc _ _ _⟩

theorem everyStep_edit {P : LiveStep → Prop} (edited : ∀ s e, P s → P (Edit.applyTo s e)) (h : EveryStep P sim) (e : Edit) :
    EveryStep P (sim.edit e) := by
  obtain ⟨behind, present, ahead⟩ := everyStep_iff.1 h
  rw [edit_eq]
  exact everyStep_iff.2 ⟨behind, edited _ e present, ahead⟩

theorem everyStep_advance {P : LiveStep → Prop} (idle : ∀ s : LiveStep, s.userActions = [] → P s) (h : EveryStep P sim) :
    EveryStep P sim.advance := by
  obtain ⟨behind, present, _⟩ := everyStep_iff.1 h
  rcases sim.steps_advance with same | ⟨fresh, none, steps⟩
  · intro s mem
    exact h s (same ▸ mem)
  · rw [EveryStep, steps, List.forall_mem_append, List.forall_mem_cons, List.forall_mem_singleton]
    exact ⟨behind, present, idle fresh none⟩

/-- **Every step.** What edits keep up, and what holds of a step without user actions, is kept up for every step of the
history: walking back only changes which step is the present one. -/
theorem stable_everyStep {P : LiveStep → Prop} (edited : ∀ s e, P s → P (Edit.applyTo s e))
    (idle : ∀ s : LiveStep, s.userActions = [] → P s) : Stable (EveryStep P) where
  edit _ e h := everyStep_edit edited h e
  advance _ h := everyStep_advance idle h
  back sim h s mem := h s (steps_back sim ▸ mem)
  rewind sim h s mem := h s (steps_rewind sim ▸ mem)

/-! ## Rivals -/

theorem rivals_iff : rivals a b = true ↔ a.kind.isRepeatable = false ∧ a.slot = b.slot := by
  simp [rivals, UserAction.slot, and_assoc]

theorem rivals_symm (h : rivals a b = true) : rivals b a = true := by
  obtain ⟨once, same⟩ := rivals_iff.1 h
  exact rivals_iff.2 ⟨UserAction.kind_eq_of_slot same ▸ once, same.symm⟩

theorem rivals_comm (a b : UserAction) : rivals a b = rivals b a := Bool.eq_iff_iff.2 ⟨rivals_symm, rivals_symm⟩

/-- who is a rival depends on the slot -/
theorem rivals_congr (same : a.slot = b.slot) : rivals a c = rivals b c := by
  rw [Bool.eq_iff_iff, rivals_iff, rivals_iff, same, UserAction.kind_eq_of_slot same]

/-! ## Order -/

/-- the first action may be pending in front of the second -/
structure MayPrecede (a b : UserAction) : Prop where
  apart : rivals a b = false
  ranked : b.isImmediate = true → a.isImmediate = true

/-- no two rivals, and no immediate action behind one that is not -/
def Disciplined (queue : List Submission) : Prop := queue.Pairwise fun a b => MayPrecede a.action b.action

theorem mayPrecede_congr_left (same : a.slot = b.slot) (h : MayPrecede a c) : MayPrecede b c where
  apart := rivals_congr same ▸ h.apart
  ranked immediate := UserAction.isImmediate_congr same ▸ h.ranked immediate

theorem mayPrecede_congr_right (same : a.slot = b.slot) (h : MayPrecede c a) : MayPrecede c b where
  apart := by rw [rivals_comm, ← rivals_congr same, rivals_comm, h.apart]
  ranked immediate := h.ranked ((UserAction.isImmediate_congr same).trans immediate)

/-- how an action joins those that are pending: in the place of the one action of its slot, in front, or at the end -/
inductive Queued (new : Submission) : List Submission → List Submission → Prop
  | inPlace {before behind : List Submission} {old : Submission} (once : new.action.kind.isRepeatable = false)
      (same : old.action.slot = new.action.slot)
      (others : ∀ other ∈ before ++ behind, other.action.slot ≠ new.action.slot) :
      Queued new (before ++ old :: behind) (before ++ new :: behind)
  | inFront {queue : List Submission} (immediate : new.action.isImmediate = true)
      (none : ∀ old ∈ queue, rivals new.action old.action = false) : Queued new queue (new :: queue)
  | atEnd {queue : List Submission} (later : new.action.isImmediate = false)
      (none : ∀ old ∈ queue, rivals new.action old.action = false) : Queued new queue (queue ++ [new])

/-- in a queue that is in order, the rival that is found is the only action of its slot -/
theorem Disciplined.queued (h : Disciplined queue) (new : Submission) : Queued new queue (enqueue new queue) := by
  rcases enqueue_cases new queue with ⟨before, old, behind, rfl, rival, result⟩ | ⟨none, result⟩
  · obtain ⟨once, same⟩ := rivals_iff.1 rival
    obtain ⟨_, front, cross⟩ := List.pairwise_append.1 h
    rw [result]
    refine .inPlace once same.symm ?_
    intro other mem taken
    have clash : rivals other.action old.action = true := (rivals_congr taken).trans rival
    have apart : rivals other.action old.action = false := by
      rcases List.mem_append.1 mem with earlier | later
      · exact (cross other earlier old List.mem_cons_self).apart
      · exact (rivals_comm _ _).trans ((List.pairwise_cons.1 front).1 other later).apart
    rw [clash] at apart
    cases apart
  · rw [result]
    split
    · next immediate => exact .inFront immediate none
    · next later => exact .atEnd (Bool.eq_false_iff.2 later) none

/-- whatever may precede or follow an action may do so with another one in its place -/
theorem Queued.disciplined (queued : Queued new queue queue') (h : Disciplined queue) : Disciplined queue' := by
  cases queued with
  | inPlace _ same _ =>
    obtain ⟨before, front, cross⟩ := List.pairwise_append.1 h
    obtain ⟨first, behind⟩ := List.pairwise_cons.1 front
    refine List.pairwise_append.2 ⟨before, List.pairwise_cons.2 ⟨?_, behind⟩, ?_⟩
    · intro later mem
      exact mayPrecede_congr_left same (first later mem)
    · intro earlier mem later mem'
      rcases List.mem_cons.1 mem' with rfl | rest
      · exact mayPrecede_congr_right same (cross earlier mem _ List.mem_cons_self)
      · exact cross earlier mem later (List.mem_cons_of_mem _ rest)
  | inFront immediate none => exact List.pairwise_cons.2 ⟨fun old mem => ⟨none old mem, fun _ => immediate⟩, h⟩
  | atEnd later none =>
    refine List.pairwise_append.2 ⟨h, List.pairwise_singleton _ _, ?_⟩
    intro old mem last isNew
    rw [List.mem_singleton.1 isNew]
    refine ⟨(rivals_comm _ _).trans (none old mem), fun immediate => ?_⟩
    rw [later] at immediate
    cases immediate

/-- an edit queues an action, takes one back, or does not concern user actions -/
theorem Disciplined.applyTo (s : LiveStep) (e : Edit) (h : Disciplined s.userActions) :
    Disciplined (e.applyTo s).userActions := by
  cases e with
  | submit new => exact (h.queued new).disciplined h
  | withdraw ticket => exact h.sublist List.eraseP_sublist
  | withdrawAt index =>
    simp only [Edit.applyTo, edit, start, withdrawAt]
    split
    · exact h.sublist List.eraseP_sublist
    · exact h.sublist (List.eraseIdx_sublist _ _)
    · exact h
  | setDisrupted | disruptFor => exact h

theorem disciplined_of_nil (s : LiveStep) (h : s.userActions = []) : Disciplined s.userActions := h ▸ List.Pairwise.nil

theorem disciplined_afterAny (engine : Engine) (ops : List Operation) :
    EveryStep (Disciplined ·.userActions) (afterAny engine [] ops) := by
  have blank : EveryStep (Disciplined ·.userActions) (start engine []) :=
    everyStep_iff.2 ⟨List.forall_mem_nil _, disciplined_of_nil _ rfl, List.forall_mem_nil _⟩
  exact (stable_everyStep Disciplined.applyTo disciplined_of_nil).afterAny (fun _ _ h => h) blank ops

/-! ## Main result -/

/-- of the actions of a slot, only the first can be there -/
theorem Disciplined.countP_slot_le (h : Disciplined queue) {kind : ActionKind} (once : kind.isRepeatable = false)
    (node : NodeId) : (queue.map Submission.action).countP (·.slot = (kind, node)) ≤ 1 := by
  induction queue with
  | nil => exact Nat.zero_le 1
  | cons first rest ih =>
    obtain ⟨apart, ordered⟩ := List.pairwise_cons.1 h
    rw [List.map_cons, List.countP_cons]
    split
    · next here =>
      have slot : first.action.slot = (kind, node) := of_decide_eq_true here
      have absent : (rest.map Submission.action).countP (·.slot = (kind, node)) = 0 := by
        refine List.countP_eq_zero.2 fun a mem same => ?_
        obtain ⟨other, later, rfl⟩ := List.mem_map.1 mem
        have ofKind : first.action.kind = kind := congrArg Prod.fst slot
        have rival : rivals first.action other.action = true :=
          rivals_iff.2 ⟨ofKind ▸ once, slot.trans (of_decide_eq_true same).symm⟩
        rw [(apart other later).apart] at rival
        cases rival
      rw [absent]
    · exact ih ordered

/-- **Pending actions are in order.** Let a simulation be started without a recording, and let any operations be carried
out. In every step of the history, behind and ahead, at most one action is pending of each kind and node, unless a node may
have several of the kind; and no action that waits its turn precedes an immediate one. Queueing one more action changes
nothing but the queue of the present step, where it takes the place of the only action of its kind and node, or is put in
front or at the end. -/
theorem pending_in_order (engine : Engine) (ops : List Operation) :
    (∀ s ∈ (afterAny engine [] ops).steps,
      (∀ kind node, kind.isRepeatable = false → s.pendingUser.countP (·.slot = (kind, node)) ≤ 1) ∧
      s.pendingUser.Pairwise fun earlier later => ¬ (earlier.isImmediate = false ∧ later.isImmediate = true)) ∧
    ∀ new, ∃ queue, Queued new (afterAny engine [] ops).current.userActions queue ∧
      (afterAny engine [] ops).submit new =
        { afterAny engine [] ops with
          current := { (afterAny engine [] ops).current with userActions := queue } } := by
  have disciplined := disciplined_afterAny engine ops
  refine ⟨fun s mem => ⟨?_, ?_⟩, fun new => ?_⟩
  · intro kind node once
    exact (disciplined s mem).countP_slot_le once node
  · refine List.pairwise_map.2 ((disciplined s mem).imp ?_)
    rintro earlier later h ⟨waits, immediate⟩
    rw [h.ranked immediate] at waits
    cases waits
  · obtain ⟨_, present, _⟩ := everyStep_iff.1 disciplined
    exact ⟨_, present.queued new, rfl⟩

/-- the leader and the follower vote, and after a step forward and back the leader thinks better of it, and the follower is
to be removed before -/
def secondThoughts : List Operation :=
  [.command (.edit (.submit ⟨.vote "L" "x", some 0⟩)), .command (.edit (.submit ⟨.vote "F" "x", some 1⟩)),
    .command .advance, .command .back, .command (.edit (.submit ⟨.vote "L" "y", some 2⟩)),
    .command (.edit (.submit ⟨.removeNode "F", some 3⟩))]

/-- the step that was recorded has one vote of the leader in it, the other vote behind it, and the removal in front -/
theorem secondThoughts_in_order :
    (afterAny leaderEngine [] secondThoughts).steps.map LiveStep.pendingUser =
      [[.removeNode "F", .vote "L" "y", .vote "F" "x"], []] ∧
    ActionKind.vote.isRepeatable = false ∧
    ∀ s ∈ (afterAny leaderEngine [] secondThoughts).steps, s.pendingUser.countP (·.slot = (.vote, "L")) ≤ 1 := by
  have pending : (afterAny leaderEngine [] secondThoughts).steps.map LiveStep.pendingUser =
      [[.removeNode "F", .vote "L" "y", .vote "F" "x"], []] := by decide +kernel
  refine ⟨pending, rfl, fun s mem => ?_⟩
  exact ((pending_in_order leaderEngine secondThoughts).1 s mem).1 .vote "L" rfl

end Simulation

end FederatedAgreement
