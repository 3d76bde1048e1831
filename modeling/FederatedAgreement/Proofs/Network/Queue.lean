/-
Actions one by one. The protocol actions under way form a queue: one is taken from its front and carried out, and what it
calls for goes to its back, as does what a user action calls for. A batch is nothing but a number of such steps, so what
they keep up, batches keep up. What changes keep up together, a property of networks and one of messages, is kept up by
them.

Results:
- `LogInvariant.execute`, `QueueInvariant.execute`: an invariant of single actions is kept up by a batch, with the events
  of the batch or without.
- `Invariant.queued`: what changes keep up is such an invariant.
-/
import FederatedAgreement.Proofs.Network.Changes

namespace FederatedAgreement

namespace Network

variable {allowed allowed' : UserAction → Prop} {P Q : Network → List ProtocolAction → Prop} {n n' : Network}
  {queue : List ProtocolAction}

/-! ## Batches as steps of a queue -/

/-- a property of a network, of the protocol actions under way and of the events so far, which is kept up when a user
action is carried out, and when the first protocol action is -/
structure LogInvariant (allowed : UserAction → Prop) (R : Network → List ProtocolAction → List Event → Prop) :
    Prop where
  ordered : ∀ {n u} queue log, R n queue log → allowed u →
    R (n.applyUser u).state (queue ++ (n.applyUser u).actions) (log ++ (n.applyUser u).events)
  delivered : ∀ {n a} queue log, R n (a :: queue) log →
    R (n.applyProtocol a).state (queue ++ (n.applyProtocol a).actions) (log ++ (n.applyProtocol a).events)

namespace LogInvariant

variable {R : Network → List ProtocolAction → List Event → Prop}

theorem users (I : LogInvariant allowed R) (log : List Event) {users : List UserAction} (ordered : ∀ u ∈ users, allowed u)
    (h : R n queue log) :
    R (Outcome.runEach applyUser n users).state (queue ++ (Outcome.runEach applyUser n users).actions)
      (log ++ (Outcome.runEach applyUser n users).events) := by
  induction users generalizing n queue log with
  | nil =>
    rw [Outcome.runEach_nil, Outcome.still, List.append_nil, List.append_nil]
    exact h
  | cons u users ih =>
    have first := I.ordered queue log h (ordered u List.mem_cons_self)
    have rest := ih _ (fun u' hu' => ordered u' (List.mem_cons_of_mem u hu')) first
    rw [List.append_assoc, List.append_assoc] at rest
    exact rest

/-- the protocol actions of a batch are the front of the queue, and what the batch called for before them is the rest -/
theorem protocol (I : LogInvariant allowed R) (log : List Event) {protocol : List ProtocolAction}
    (h : R n (protocol ++ queue) log) :
    R (Outcome.runEach applyProtocol n protocol).state (queue ++ (Outcome.runEach applyProtocol n protocol).actions)
      (log ++ (Outcome.runEach applyProtocol n protocol).events) := by
  induction protocol generalizing n queue log with
  | nil =>
    rw [Outcome.runEach_nil, Outcome.still, List.append_nil, List.append_nil]
    exact h
  | cons a protocol ih =>
    have first := I.delivered (protocol ++ queue) log h
    rw [List.append_assoc] at first
    have rest := ih _ first
    rw [List.append_assoc, List.append_assoc] at rest
    exact rest

/-- **Batches.** What single actions keep up of the queue and of the events, a batch keeps up: of its own protocol actions
before, and of those that it calls for afterwards, with its events behind the earlier ones. -/
theorem execute (I : LogInvariant allowed R) (log : List Event) {users : List UserAction}
    {protocol : List ProtocolAction} (ordered : ∀ u ∈ users, allowed u) (h : R n protocol log) :
    R (n.execute users protocol).state (n.execute users protocol).actions (log ++ (n.execute users protocol).events) := by
  have batch := I.protocol _ (I.users log ordered h)
  rw [List.append_assoc] at batch
  exact batch

end LogInvariant

/-- a property of a network and of the protocol actions under way, which is kept up when a user action is carried out, and
when the first protocol action is -/
structure QueueInvariant (allowed : UserAction → Prop) (P : Network → List ProtocolAction → Prop) : Prop where
  ordered : ∀ {n u} queue, P n queue → allowed u → P (n.applyUser u).state (queue ++ (n.applyUser u).actions)
  delivered : ∀ {n a} queue, P n (a :: queue) → P (n.applyProtocol a).state (queue ++ (n.applyProtocol a).actions)

namespace QueueInvariant

theorem mono (I : QueueInvariant allowed P) (fewer : ∀ u, allowed' u → allowed u) : QueueInvariant allowed' P where
  ordered queue h ordered := I.ordered queue h (fewer _ ordered)
  delivered := I.delivered

/-- what is kept up of the queue is kept up whatever the events are -/
theorem logged (I : QueueInvariant allowed P) : LogInvariant allowed fun n queue _ => P n queue where
  ordered queue _ := I.ordered queue
  delivered queue _ := I.delivered queue

theorem users (I : QueueInvariant allowed P) {users : List UserAction} (ordered : ∀ u ∈ users, allowed u)
    (h : P n queue) :
    P (Outcome.runEach applyUser n users).state (queue ++ (Outcome.runEach applyUser n users).actions) :=
  I.logged.users [] ordered h

theorem protocol (I : QueueInvariant allowed P) {protocol : List ProtocolAction} (h : P n (protocol ++ queue)) :
    P (Outcome.runEach applyProtocol n protocol).state (queue ++ (Outcome.runEach applyProtocol n protocol).actions) :=
  I.logged.protocol [] h

/-- **Batches.** What single actions keep up of the queue, a batch keeps up: of its own protocol actions before, and of
those that it calls for afterwards. -/
theorem execute (I : QueueInvariant allowed P) {users : List UserAction} {protocol : List ProtocolAction}
    (ordered : ∀ u ∈ users, allowed u) (h : P n protocol) :
    P (n.execute users protocol).state (n.execute users protocol).actions :=
  I.logged.execute [] ordered h

/-- what an order of a batch brings about, and what single actions keep up from then on, holds after the batch -/
theorem execute_of_mem (I : QueueInvariant allowed P) (J : QueueInvariant allowed Q) {users : List UserAction}
    {protocol : List ProtocolAction} (ordered : ∀ u ∈ users, allowed u) {u : UserAction} (hu : u ∈ users)
    (done : ∀ {n} queue, P n queue → Q (n.applyUser u).state (queue ++ (n.applyUser u).actions)) (h : P n protocol) :
    Q (n.execute users protocol).state (n.execute users protocol).actions := by
  obtain ⟨before, later, rfl⟩ := List.append_of_mem hu
  have first := I.users (fun u' hu' => ordered u' (List.mem_append_left _ hu')) h
  have rest := J.users (fun u' hu' => ordered u' (List.mem_append_right _ (List.mem_cons_of_mem u hu'))) (done _ first)
  simp only [List.append_assoc] at rest
  unfold Network.execute
  rw [Outcome.runEach_append]
  exact J.protocol rest

/-- what holds after the first protocol action of a batch without user actions holds after the batch -/
theorem execute_rest (I : QueueInvariant allowed P) {a : ProtocolAction} {rest : List ProtocolAction}
    (h : P (n.applyProtocol a).state (rest ++ (n.applyProtocol a).actions)) :
    P (n.execute [] (a :: rest)).state (n.execute [] (a :: rest)).actions := by
  unfold Network.execute
  rw [Outcome.runEach_nil, Outcome.still_andThen, Outcome.runEach_cons]
  exact I.protocol h

end QueueInvariant

end Network

/-! ## Invariants of changes -/

namespace VotingState

theorem Move.mono {told told' : Vote → Prop} {asked : Statement → Prop} {node : NodeId} {st st' : VotingState}
    (m : Move told asked node st st') (h : ∀ v, told v → told' v) : Move told' asked node st st' := by
  cases m with
  | hear hv new => exact .hear (h _ hv) new
  | pass hv other new => exact .pass (h _ hv) other new
  | cast hs phase => exact .cast hs phase
  | accept phase known ground => exact .accept phase known ground
  | confirm phase accepted enough => exact .confirm phase accepted enough

end VotingState

namespace Network

variable {allowed : UserAction → Prop} {given given' : Message → Prop} {n n' : Network}

theorem Change.mono (c : Change allowed given n n') (h : ∀ m, given m → given' m) : Change allowed given' n n' := by
  cases c with
  | act here m => exact .act here (m.mono fun v ⟨m, hm, hv⟩ => ⟨m, h m hm, hv⟩)
  | link h here made => exact .link h here made
  | unlink h here made => exact .unlink h here made
  | join h new => exact .join h new
  | leave h here => exact .leave h here
  | retrust h here => exact .retrust h here

/-- a property of networks and one of messages under way, which changes keep up together -/
structure Invariant (allowed : UserAction → Prop) (Holds : Network → Prop) (Good : Network → Message → Prop) :
    Prop where
  holds : ∀ {n n'}, Holds n → Change allowed (Good n) n n' → Holds n'
  good : ∀ {n n' m}, Holds n → Change allowed (Good n) n n' → Good n m → Good n' m
  sent : ∀ {n key st a}, Holds n → n.roster.get? key = some st → st.Sends key a → Good n a.message
  forged : ∀ {n m}, Holds n → allowed (.forge m) → Good n m

variable {Holds : Network → Prop} {Good : Network → Message → Prop}

/-- an outcome that keeps up both properties -/
structure Keeps (Holds : Network → Prop) (Good : Network → Message → Prop) (n : Network) (o : Outcome Network) :
    Prop where
  holds : Holds o.state
  good : ∀ m, Good n m → Good o.state m
  issued : ∀ a ∈ o.actions, Good o.state a.message

namespace Invariant

theorem changes (I : Invariant allowed Holds Good) (h : Holds n) (hg : ∀ m, given m → Good n m)
    (cs : Changes allowed given n n') : Holds n' ∧ ∀ m, Good n m → Good n' m := by
  induction cs with
  | refl => exact ⟨h, fun _ hm => hm⟩
  | tail _ c ih =>
    obtain ⟨hmid, good⟩ := ih
    have c := c.mono fun m hm => good m (hg m hm)
    exact ⟨I.holds hmid c, fun m hm => I.good hmid c (good m hm)⟩

theorem proceeds (I : Invariant allowed Holds Good) {o : Outcome Network} (h : Holds n)
    (hg : ∀ m, given m → Good n m) (p : Proceeds allowed given n o) : Keeps Holds Good n o := by
  obtain ⟨holds, good⟩ := I.changes h hg p.changes
  refine ⟨holds, good, fun a ha => ?_⟩
  rcases p.issues a ha with hm | ⟨key, st, here, sends⟩
  · exact good _ (hg _ hm)
  · exact I.sent holds here sends

/-- what changes keep up of networks and of messages, single actions keep up -/
theorem queued (I : Invariant allowed Holds Good) :
    QueueInvariant allowed fun n queue => Holds n ∧ ∀ a ∈ queue, Good n a.message where
  ordered := by
    rintro n u queue ⟨h, good⟩ ordered
    have kept := I.proceeds h (fun _ hm => hm) (applyUser_proceeds ordered fun m e => I.forged h (e ▸ ordered))
    refine ⟨kept.holds, fun a ha => ?_⟩
    rcases List.mem_append.1 ha with ha | ha
    · exact kept.good _ (good a ha)
    · exact kept.issued a ha
  delivered := by
    rintro n a queue ⟨h, good⟩
    have proceeds : Proceeds allowed (Good n) n (n.applyProtocol a) := applyProtocol_proceeds (good a List.mem_cons_self)
    have kept := I.proceeds h (fun _ hm => hm) proceeds
    refine ⟨kept.holds, fun b hb => ?_⟩
    rcases List.mem_append.1 hb with hb | hb
    · exact kept.good _ (good b (List.mem_cons_of_mem a hb))
    · exact kept.issued b hb

end Invariant

end Network

end FederatedAgreement
