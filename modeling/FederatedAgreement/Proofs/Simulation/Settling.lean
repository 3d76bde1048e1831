/-
Settling: walking forwards comes to an end. Of the recorded steps ahead each step forward uses one up, or they are given
up; then the user actions that are pending are carried out; and from then on the network is left alone and falls silent.

Results:
- `run_of_queued`: what single actions keep up holds after any walk without recorded steps ahead.
- `settles`: every simulation settles.
- `run_eq_of_ended`: a walk that has come to its end stays there.
- `every_walk_ends`: **every walk ends**, whatever operators did before.
-/
import FederatedAgreement.Proofs.Network.Quiescence
import FederatedAgreement.Proofs.Simulation.Commands

namespace FederatedAgreement.Simulation

variable {sim : Simulation}

/-! ## Steps forward -/

/-- without recorded steps ahead, the next step holds what the present one calls for, and nothing else is pending -/
theorem advance_of_future_nil (h : sim.future = []) :
    sim.advance.future = [] ∧ sim.advance.current.userActions = [] ∧
      sim.advance.current.protocolActions = (sim.current.executeOn sim.engine.network).actions ∧
      sim.advance.engine.network = (sim.current.executeOn sim.engine.network).state := by
  unfold Simulation.advance
  rw [h]
  exact ⟨rfl, rfl, rfl, rfl⟩

/-- a recorded step ahead becomes the present one, or all of them are given up -/
theorem length_future_advance (sim : Simulation) : sim.advance.future.length ≤ sim.future.length - 1 := by
  unfold Simulation.advance
  dsimp only
  split
  · next none => exact Nat.zero_le _
  · next next rest ahead =>
    rw [ahead, List.length_cons, Nat.add_sub_cancel]
    split
    · exact Nat.le_refl _
    · exact Nat.zero_le _

/-- **Walks.** What single actions keep up of a network and of what is under way holds after any number of steps, if there
are no recorded steps ahead and what operators have ordered is allowed. -/
theorem run_of_queued {allowed : UserAction → Prop} {P : Network → List ProtocolAction → Prop}
    (I : Network.QueueInvariant allowed P) (ahead : sim.future = []) (ordered : ∀ u ∈ sim.current.pendingUser, allowed u)
    (h : P sim.engine.network sim.current.protocolActions) (limit : Nat) :
    P (sim.run limit).1.engine.network (sim.run limit).1.current.protocolActions := by
  have kept : ∀ s : Simulation, s.future = [] ∧ (∀ u ∈ s.current.pendingUser, allowed u) ∧
      P s.engine.network s.current.protocolActions → s.advance.future = [] ∧
      (∀ u ∈ s.advance.current.pendingUser, allowed u) ∧
      P s.advance.engine.network s.advance.current.protocolActions := by
    rintro s ⟨ahead, ordered, h⟩
    obtain ⟨future, users, protocol, network⟩ := advance_of_future_nil ahead
    refine ⟨future, ?_, ?_⟩
    · rw [LiveStep.pendingUser, users]
      exact fun _ hu => absurd hu List.not_mem_nil
    · rw [protocol, network]
      exact I.execute ordered h
  exact (run_induct kept ⟨ahead, ordered, h⟩ limit).2.2

/-! ## The end of a walk -/

/-- from some limit on, a walk takes no more steps than that and ends where nothing is left to do -/
def Settles (sim : Simulation) : Prop :=
  ∃ bound, ∀ limit, bound ≤ limit → (sim.run limit).2 ≤ bound ∧ (sim.run limit).1.hasNext = false

theorem run_of_not_hasNext (h : sim.hasNext = false) (limit : Nat) : sim.run limit = (sim, 0) := by
  cases limit with
  | zero => rfl
  | succ limit => rw [Simulation.run, h, if_neg (by decide)]

theorem settles_of_not_hasNext (h : sim.hasNext = false) : Settles sim := by
  refine ⟨0, fun limit _ => ?_⟩
  rw [run_of_not_hasNext h]
  exact ⟨Nat.le_refl 0, h⟩

theorem settles_of_advance (h : Settles sim.advance) : Settles sim := by
  cases more : sim.hasNext with
  | false => exact settles_of_not_hasNext more
  | true =>
    obtain ⟨bound, rest⟩ := h
    refine ⟨bound + 1, fun limit enough => ?_⟩
    obtain ⟨limit, rfl⟩ := Nat.exists_eq_succ_of_ne_zero (Nat.ne_of_gt (Nat.lt_of_lt_of_le (Nat.succ_pos bound) enough))
    obtain ⟨steps, ended⟩ := rest limit (Nat.le_of_succ_le_succ enough)
    rw [Simulation.run, if_pos more]
    exact ⟨Nat.succ_le_succ steps, ended⟩

/-- a network that is left alone falls silent; the induction is on how much is left to do -/
theorem settles_of_left_alone {votes : Finset Vote} (ahead : sim.future = []) (nobody : sim.current.userActions = [])
    (encompassed : Network.Encompasses votes sim.engine.network)
    (carried : ∀ a ∈ sim.current.protocolActions, a.message.vote ∈ votes) : Settles sim := by
  generalize left : Network.effort votes sim.engine.network sim.current.protocolActions = effort
  induction effort using Nat.strongRecOn generalizing sim with
  | ind effort ih =>
    cases pending : sim.current.protocolActions with
    | nil =>
      apply settles_of_not_hasNext
      simp [hasNext, Step.hasPending, ahead, nobody, pending]
    | cons a rest =>
      obtain ⟨future, users, protocol, network⟩ := advance_of_future_nil ahead
      have alone : sim.current.executeOn sim.engine.network = sim.engine.network.execute [] (a :: rest) := by
        rw [LiveStep.executeOn, LiveStep.pendingUser, nobody, pending]
        rfl
      rw [pending] at carried left
      obtain ⟨⟨encompassed', carried'⟩, less⟩ := Network.execute_effort_lt encompassed carried
      rw [← alone, ← network, ← protocol, left] at less
      rw [← alone, ← network] at encompassed'
      rw [← alone, ← protocol] at carried'
      exact settles_of_advance (ih _ less future users encompassed' carried' rfl)

/-- every simulation settles, whatever is pending and recorded ahead -/
theorem settles (sim : Simulation) : Settles sim := by
  generalize ahead : sim.future.length = k
  induction k using Nat.strongRecOn generalizing sim with
  | ind k ih =>
    cases recorded : sim.future with
    | nil =>
      obtain ⟨future, users, _, _⟩ := advance_of_future_nil recorded
      obtain ⟨votes, encompassed, carried⟩ :=
        Network.exists_encompasses sim.advance.engine.network sim.advance.current.protocolActions
      exact settles_of_advance (settles_of_left_alone future users encompassed carried)
    | cons next rest =>
      have fewer : sim.advance.future.length < k := by
        have shorter := length_future_advance sim
        rw [← ahead, recorded, List.length_cons]
        rw [recorded, List.length_cons] at shorter
        omega
      exact settles_of_advance (ih _ fewer sim.advance rfl)

/-- the limit only says how far a walk may go: once it has come to its end, a higher limit does not matter -/
theorem run_eq_of_ended {bound limit : Nat} (ended : (sim.run bound).1.hasNext = false) (enough : bound ≤ limit) :
    sim.run limit = sim.run bound := by
  induction bound generalizing sim limit with
  | zero => exact run_of_not_hasNext ended limit
  | succ bound ih =>
    cases more : sim.hasNext with
    | false => rw [run_of_not_hasNext more, run_of_not_hasNext more]
    | true =>
      obtain ⟨limit, rfl⟩ := Nat.exists_eq_add_of_le' (Nat.le_trans (Nat.succ_pos bound) enough)
      rw [Simulation.run, if_pos more] at ended
      have rest := ih ended (Nat.le_of_succ_le_succ enough)
      rw [Simulation.run, Simulation.run, if_pos more, if_pos more, rest]

/-! ## Main result -/

/-- **Every walk ends.** Let a simulation be started from a recording, or without one, and let operators do anything to it:
edit what is pending, forged messages included, walk to and fro, or load other nodes. From some limit on, going forwards
takes no more steps than that limit, comes to where nothing is left to do, and ends there whatever the limit is. -/
theorem every_walk_ends (engine : Engine) (recorded : List LiveStep) (ops : List Operation) :
    ∃ bound, ∀ limit, bound ≤ limit →
      ((afterAny engine recorded ops).run limit).2 ≤ bound ∧
      ((afterAny engine recorded ops).run limit).1.hasNext = false ∧
      (afterAny engine recorded ops).run limit = (afterAny engine recorded ops).run bound := by
  obtain ⟨bound, settled⟩ := settles (afterAny engine recorded ops)
  refine ⟨bound, fun limit enough => ?_⟩
  obtain ⟨steps, ended⟩ := settled limit enough
  obtain ⟨_, ended_there⟩ := settled bound (Nat.le_refl bound)
  exact ⟨steps, ended, run_eq_of_ended ended_there enough⟩

end FederatedAgreement.Simulation
