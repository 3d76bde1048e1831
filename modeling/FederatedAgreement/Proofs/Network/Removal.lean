/-
Removals: how a node falls silent. A node that is not there calls for nothing to be sent, as it has no peers. But what it
called for before it left is still sent, since only senders that are there have to be connected with the receiver. So its
last messages go out in the batch of its removal and in the next one, and then there are none.

Results:
- `undergo_inAbsence`: while a node is not there, what is sent in its name is what was to be sent before, and nothing else.
- `last_messages_sent`: **last messages**: what becomes of them after the removal, batch by batch.
-/
import FederatedAgreement.Proofs.Network.Accounts
import FederatedAgreement.Proofs.Network.Rounds

namespace FederatedAgreement

variable {node : NodeId} {queue queue' : List ProtocolAction} {n : Network}

/-! ## What is said in the name of a node -/

/-- something is about to be sent in the name of the node -/
def SendOf (node : NodeId) (a : ProtocolAction) : Prop := a.delivery = .send ∧ a.message.sender = node

instance (node : NodeId) (a : ProtocolAction) : Decidable (SendOf node a) := inferInstanceAs (Decidable (_ ∧ _))

/-- what is about to be sent in the name of the node, unless it is disrupted -/
def outgoing (node : NodeId) (queue : List ProtocolAction) : List Message :=
  (queue.filter fun a => SendOf node a ∧ a.disrupted = false).map ProtocolAction.message

theorem outgoing_append : outgoing node (queue ++ queue') = outgoing node queue ++ outgoing node queue' := by
  simp only [outgoing, List.filter_append, List.map_append]

theorem outgoing_eq_nil (lost : ∀ a ∈ queue, SendOf node a → a.disrupted = true) : outgoing node queue = [] := by
  have none : queue.filter (fun a => SendOf node a ∧ a.disrupted = false) = [] := by
    rw [List.filter_eq_nil_iff]
    intro a ha h
    obtain ⟨sends, intact⟩ := of_decide_eq_true h
    rw [lost a ha sends] at intact
    exact Bool.noConfusion intact
  rw [outgoing, none, List.map_nil]

/-- the order neither brings the node back nor forges a message in its name -/
def UserAction.KeepsOut (node : NodeId) : UserAction → Prop
  | .addNode key _ => key ≠ node
  | .forge m => m.sender ≠ node
  | _ => True

instance (node : NodeId) (u : UserAction) : Decidable (u.KeepsOut node) := by
  cases u <;> unfold UserAction.KeepsOut <;> infer_instance

def Deed.KeepsOut (node : NodeId) : Deed → Prop
  | .order u => u.KeepsOut node
  | .deliver _ => True

instance (node : NodeId) (d : Deed) : Decidable (d.KeepsOut node) := by
  cases d <;> unfold Deed.KeepsOut <;> infer_instance

theorem Deed.keepsOut_batch {users : List UserAction} (protocol : List ProtocolAction)
    (out : ∀ u ∈ users, u.KeepsOut node) : ∀ d ∈ Deed.batch users protocol, d.KeepsOut node := by
  intro d hd
  rcases List.mem_append.1 hd with ordered | delivered
  · obtain ⟨u, hu, rfl⟩ := List.mem_map.1 ordered
    exact out u hu
  · obtain ⟨a, _, rfl⟩ := List.mem_map.1 delivered
    exact trivial

/-! ## Silence -/

namespace Network

theorem peersOf_eq_nil (absent : node ∉ n.roster) : n.peersOf node = [] := by
  rw [Network.peersOf, Overlay.peersOf, List.filter_eq_nil_iff]
  intro p _ connected
  simp only [Overlay.isConnected, Bool.and_eq_true, List.contains_iff_mem] at connected
  exact absent connected.1.1.2

end Network

/-- whoever does not forge a message sends it to peers of its own -/
theorem Occasion.peer_of_listener {o : Occasion} {p : NodeId} (hp : p ∈ o.listeners n) :
    (∃ m, o = .forged m) ∨ p ∈ n.peersOf o.sender := by
  cases o with
  | forged m => exact Or.inl ⟨m, rfl⟩
  | voted key s => exact Or.inr hp
  | accepted key s g => exact Or.inr hp
  | relayed m => exact Or.inr (List.mem_of_mem_filter hp)

/-- an occasion calls for messages in the name of a node that is there, or for one that an operator forged -/
theorem Occasion.silent {o : Occasion} (absent : node ∉ n.roster)
    (unforged : ∀ m ∈ o.forged?.toList, m.sender ≠ node) : ∀ a ∈ o.sends n, ¬ SendOf node a := by
  intro a ha sends
  obtain ⟨p, hp, rfl⟩ := List.mem_map.1 ha
  have sender : o.sender = node := sends.2
  rcases Occasion.peer_of_listener hp with ⟨m, rfl⟩ | peer
  · exact unforged m (by simp [Occasion.forged?]) sender
  · rw [sender, Network.peersOf_eq_nil absent] at peer
    exact List.not_mem_nil peer

/-- nothing is called for in the name of a node that is not there while anything is seen -/
theorem Booked.silent {seen : List (Network × Event)} {called settled : List ProtocolAction} {forged : List Message}
    (h : Booked seen called settled forged) (absent : ∀ p ∈ seen, node ∉ p.1.roster)
    (unforged : ∀ m ∈ forged, m.sender ≠ node) : ∀ a ∈ called, ¬ SendOf node a := by
  intro a ha sends
  rcases h.origin ha with ⟨b, _, _, _, rfl⟩ | ⟨n, o, there, given, calls⟩
  · exact Delivery.noConfusion sends.1
  · exact Occasion.silent (absent _ there) (fun m hm => unforged m (given m hm)) a calls sends

/-- where no action is settled by being sent in the name of the node, nothing is sent in its name -/
theorem Booked.nothing_sent {seen : List (Network × Event)} {called settled : List ProtocolAction}
    {forged : List Message} (h : Booked seen called settled forged)
    (lost : ∀ a ∈ settled, SendOf node a → a.disrupted = true) :
    (∀ p ∈ seen, ¬ (p.2.kind = .messageSent ∧ p.2.target = node)) ∧
      ∀ a ∈ called, ¬ (a.delivery = .receive ∧ a.message.sender = node) := by
  refine ⟨fun p hp ⟨sent, own⟩ => ?_, fun a ha ⟨half, own⟩ => ?_⟩
  · obtain ⟨a, ha, settles⟩ := h.settled_of_fate hp (by rw [sent]; rfl)
    generalize p.2 = e at settles sent own
    cases settles with
    | sent intact half =>
      rw [lost a ha ⟨half, own⟩] at intact
      exact Bool.noConfusion intact
    | received | dropped | disrupted => exact EventKind.noConfusion sent
  · rcases h.origin ha with ⟨b, hb, first, intact, rfl⟩ | ⟨n, o, _, _, calls⟩
    · rw [lost b hb ⟨first, own⟩] at intact
      exact Bool.noConfusion intact
    · rw [Occasion.delivery_sends a calls] at half
      exact Delivery.noConfusion half

/-! ## While the node is not there -/

/-- the event that a message was sent -/
def Message.sentEvent (m : Message) : Event := .make .messageSent m.sender [("message", m.text)]

/-- the node is not there afterwards, what was sent in its name are the messages it left behind, and nothing else is to be
sent in its name -/
structure InAbsence (node : NodeId) (left : List Message) (o : Outcome Network) : Prop where
  absent : node ∉ o.state.roster
  sent : o.events.filter (fun e => e.kind = .messageSent ∧ e.target = node) = left.map Message.sentEvent
  received : o.actions.filter (fun a => a.delivery = .receive ∧ a.message.sender = node) = left.map .receive
  silent : ∀ a ∈ o.actions, ¬ SendOf node a

theorem InAbsence.andThen {left left' : List Message} {o : Outcome Network} {next : Network → Outcome Network}
    (h : InAbsence node left o) (h' : InAbsence node left' (next o.state)) :
    InAbsence node (left ++ left') (o.andThen next) where
  absent := h'.absent
  sent := by
    simp only [Outcome.andThen, List.filter_append, h.sent, h'.sent, List.map_append]
  received := by
    simp only [Outcome.andThen, List.filter_append, h.received, h'.received, List.map_append]
  silent a ha := (List.mem_append.1 ha).elim (h.silent a) (h'.silent a)

namespace Network

/-- a node that may not be added does not come in -/
theorem Changes.absent {allowed : UserAction → Prop} {given : Message → Prop} {n' : Network}
    (cs : Changes allowed given n n') (barred : ∀ q, ¬ allowed (.addNode node q)) (absent : node ∉ n.roster) :
    node ∉ n'.roster := by
  induction cs with
  | refl => exact absent
  | tail _ c ih =>
    intro there
    obtain ⟨st', here⟩ := Roster.mem_iff_exists_get?.1 there
    rcases c.origin here with ⟨st, before, _⟩ | ⟨q, added, _⟩
    · exact ih (Roster.mem_of_get? before)
    · exact barred q added

theorem not_mem_carryOut (absent : node ∉ n.roster) {d : Deed} (out : d.KeepsOut node) :
    node ∉ (n.carryOut d).state.roster := by
  cases d with
  | order u =>
    have proceeds : Proceeds (· = u) (fun _ => True) n (n.applyUser u) := applyUser_proceeds rfl fun _ _ => trivial
    refine proceeds.changes.absent (fun q added => ?_) absent
    rw [← added] at out
    exact out rfl
  | deliver a =>
    have proceeds : Proceeds (fun _ => False) (fun _ => True) n (n.applyProtocol a) := applyProtocol_proceeds trivial
    exact proceeds.changes.absent (fun _ => id) absent

/-- what is not disrupted is sent if its sender is not there -/
theorem applyProtocol_of_absent (absent : node ∉ n.roster) {a : ProtocolAction} (sends : SendOf node a)
    (intact : a.disrupted = false) : n.applyProtocol a = ⟨n, [.receive a.message], [a.message.sentEvent]⟩ := by
  have stranger : ¬ (a.message.sender ∈ n.roster ∧
      n.overlay.isConnected a.message.sender a.message.receiver n.keys = false) :=
    fun h => absent (sends.2 ▸ h.1)
  simp only [applyProtocol, intact, Bool.false_eq_true, if_false, sends.1, send, if_neg stranger, Message.sentEvent]

/-- a deed calls for nothing in the name of a node that is not there -/
theorem carryOut_silent (absent : node ∉ n.roster) {d : Deed} (out : d.KeepsOut node) :
    ∀ a ∈ (n.carryOut d).actions, ¬ SendOf node a := by
  refine (n.carryOut_books d).silent (fun p hp => ?_) fun m hm => ?_
  · obtain ⟨e, _, rfl⟩ := List.mem_map.1 hp
    exact absent
  · cases d with
    | order u =>
      cases u with
      | forge m' =>
        rw [List.mem_singleton.1 hm]
        exact out
      | _ => exact absurd hm List.not_mem_nil
    | deliver a => exact absurd hm List.not_mem_nil

/-- what was to be sent in the name of the node is sent, if it is not disrupted -/
theorem deliver_inAbsence (absent : node ∉ n.roster) {a : ProtocolAction} (sends : SendOf node a)
    (intact : a.disrupted = false) : InAbsence node [a.message] (n.carryOut (.deliver a)) := by
  have sent := applyProtocol_of_absent absent sends intact
  refine ⟨not_mem_carryOut absent trivial, ?_, ?_, carryOut_silent absent trivial⟩
  · simp [carryOut, sent, Message.sentEvent, Event.make, sends.2]
  · simp [carryOut, sent, ProtocolAction.receive, sends.2]

/-- a deed that is not to send anything in the name of the node does not do so -/
theorem idle_inAbsence (absent : node ∉ n.roster) {d : Deed} (out : d.KeepsOut node)
    (lost : ∀ a ∈ d.protocol?.toList, SendOf node a → a.disrupted = true) : InAbsence node [] (n.carryOut d) := by
  obtain ⟨events, receipts⟩ := (n.carryOut_books d).nothing_sent lost
  refine ⟨not_mem_carryOut absent out, ?_, ?_, carryOut_silent absent out⟩
  · rw [List.map_nil, List.filter_eq_nil_iff]
    intro e he
    simpa using events (n, e) (List.mem_map_of_mem he)
  · rw [List.map_nil, List.filter_eq_nil_iff]
    intro a ha
    simpa using receipts a ha

/-- **One deed.** While the node is not there, a deed sends in its name what was to be sent, and calls for nothing more. -/
theorem carryOut_inAbsence (absent : node ∉ n.roster) {d : Deed} (out : d.KeepsOut node) :
    InAbsence node (outgoing node d.protocol?.toList) (n.carryOut d) := by
  by_cases lost : ∀ a ∈ d.protocol?.toList, SendOf node a → a.disrupted = true
  · rw [outgoing_eq_nil lost]
    exact idle_inAbsence absent out lost
  · cases d with
    | order u => exact absurd (fun a ha => absurd ha List.not_mem_nil) lost
    | deliver a =>
      simp only [Deed.protocol?, Option.toList_some, List.mem_singleton, forall_eq, Classical.not_imp,
        Bool.not_eq_true] at lost
      obtain ⟨sends, intact⟩ := lost
      have left : outgoing node [a] = [a.message] := by simp [outgoing, sends, intact]
      show InAbsence node (outgoing node [a]) _
      rw [left]
      exact deliver_inAbsence absent sends intact

/-- **Absence.** While the node is not there, what is sent in its name is what was to be sent before, and nothing else. -/
theorem undergo_inAbsence (absent : node ∉ n.roster) {deeds : List Deed} (out : ∀ d ∈ deeds, d.KeepsOut node) :
    InAbsence node (outgoing node (deeds.filterMap Deed.protocol?)) (n.undergo deeds) := by
  induction deeds generalizing n with
  | nil => exact ⟨absent, rfl, rfl, fun a ha => absurd ha List.not_mem_nil⟩
  | cons d deeds ih =>
    have first := carryOut_inAbsence absent (out d List.mem_cons_self)
    have rest := ih first.absent fun d' hd' => out d' (List.mem_cons_of_mem d hd')
    rw [List.filterMap_eq_flatMap_toList] at rest ⊢
    rw [List.flatMap_cons, outgoing_append]
    show InAbsence node _ ((n.carryOut d).andThen fun n' => n'.undergo deeds)
    exact first.andThen rest

/-! ## Batches and rounds -/

theorem execute_append (n : Network) (early late : List UserAction) (protocol : List ProtocolAction) :
    n.execute (early ++ late) protocol = (n.execute early []).andThen fun n' => n'.execute late protocol := by
  simp only [execute, Outcome.runEach_append, Outcome.andThen_assoc, Outcome.runEach_nil, Outcome.still_andThen]

theorem not_mem_removeNode (n : Network) (node : NodeId) : node ∉ (n.removeNode node).state.roster := by
  unfold removeNode
  split
  · intro there
    obtain ⟨st, here⟩ := Roster.mem_iff_exists_get?.1 there
    rw [Outcome.noting, Roster.get?_erase, if_pos rfl] at here
    cases here
  · next absent => exact absent

theorem not_mem_execute_removeNode (n : Network) (early : List UserAction) (node : NodeId) :
    node ∉ (n.execute (early ++ [.removeNode node]) []).state.roster := by
  rw [execute_append]
  exact not_mem_removeNode _ node

/-- as much of the batch is carried out as there is before the node comes back: what is sent in its name are the messages
that are among this part, and nothing else -/
def Trails (node : NodeId) (n : Network) (batch : List Deed) : Prop :=
  ∀ deeds, deeds <+: batch → (∀ d ∈ deeds, d.KeepsOut node) →
    InAbsence node (outgoing node (deeds.filterMap Deed.protocol?)) (n.undergo deeds)

theorem trails_of_absent (absent : node ∉ n.roster) (batch : List Deed) : Trails node n batch :=
  fun _ _ out => undergo_inAbsence absent out

end Network

open Network

/-- a round in which the node stays out leaves nothing to be sent in its name -/
theorem Session.silent_round {s : Session} (absent : node ∉ s.network.roster) {r : Round}
    (out : ∀ u ∈ r.orders, u.KeepsOut node) :
    node ∉ (s.round r).network.roster ∧ ∀ a ∈ (s.round r).pending, ¬ SendOf node a := by
  have batch := undergo_inAbsence absent (Deed.keepsOut_batch (disruptAt r.lost s.pending) out)
  rw [← execute_eq_undergo] at batch
  exact ⟨batch.absent, batch.silent⟩

theorem Session.silent_run {s : Session} (absent : node ∉ s.network.roster) {rounds : List Round}
    (out : ∀ r ∈ rounds, ∀ u ∈ r.orders, u.KeepsOut node) :
    node ∉ (s.run rounds).network.roster ∧ (rounds ≠ [] → ∀ a ∈ (s.run rounds).pending, ¬ SendOf node a) := by
  induction rounds generalizing s with
  | nil => exact ⟨absent, fun h => absurd rfl h⟩
  | cons r rounds ih =>
    have first := Session.silent_round absent (out r List.mem_cons_self)
    have rest := ih first.1 fun r' hr' => out r' (List.mem_cons_of_mem r hr')
    rw [Session.run_cons]
    refine ⟨rest.1, fun _ => ?_⟩
    cases rounds with
    | nil => exact first.2
    | cons r' rounds => exact rest.2 (List.cons_ne_nil r' rounds)

/-! ## Main result -/

/-- **Last messages.** Let a node be removed in a round of any session, among other orders, and let further rounds follow.
As long as the node is not added again and no message is forged in its name, nothing new is called for in its name. What is
sent in its name is what was called for before the removal, unless it is disrupted, each message once: in the round of the
removal what was under way, in the next round what the earlier orders of that round called for, and from then on nothing.
A round in which the node comes back counts up to that order. -/
theorem last_messages_sent {s : Session} {r : Round} {node : NodeId} {early late : List UserAction}
    (removal : r.orders = early ++ .removeNode node :: late) :
    ∃ gone : Outcome Network, gone = s.network.execute (early ++ [.removeNode node]) [] ∧
      s.network.execute r.orders (disruptAt r.lost s.pending) =
        gone.andThen (fun n => n.execute late (disruptAt r.lost s.pending)) ∧
      gone.state.Trails node (Deed.batch late (disruptAt r.lost s.pending)) ∧
      ∀ between : List Round, (∀ u ∈ late, u.KeepsOut node) → (∀ r' ∈ between, ∀ u ∈ r'.orders, u.KeepsOut node) →
        ∃ t : Session, t = (s.round r).run between ∧
          (∀ r' : Round, t.network.Trails node (Deed.batch r'.orders (disruptAt r'.lost t.pending))) ∧
          (between = [] → t.pending.filter (SendOf node ·) = gone.actions.filter (SendOf node ·)) ∧
          (between ≠ [] → ∀ a ∈ t.pending, ¬ SendOf node a) := by
  have split : s.network.execute r.orders (disruptAt r.lost s.pending) =
      (s.network.execute (early ++ [.removeNode node]) []).andThen
        fun n => n.execute late (disruptAt r.lost s.pending) := by
    rw [← execute_append, removal, List.append_assoc, List.singleton_append]
  have absent := not_mem_execute_removeNode s.network early node
  refine ⟨_, rfl, split, trails_of_absent absent _, fun between out outs => ⟨_, rfl, ?_⟩⟩
  have rest := undergo_inAbsence absent (Deed.keepsOut_batch (disruptAt r.lost s.pending) out)
  rw [← execute_eq_undergo] at rest
  have left : node ∉ (s.round r).network.roster := by
    show node ∉ (s.network.execute r.orders (disruptAt r.lost s.pending)).state.roster
    rw [split]
    exact rest.absent
  have run := Session.silent_run left outs
  refine ⟨fun r' => trails_of_absent run.1 _, ?_, run.2⟩
  rintro rfl
  have none : (List.filter (SendOf node ·) ((s.network.execute (early ++ [.removeNode node]) []).state.execute late
      (disruptAt r.lost s.pending)).actions) = [] := by
    rw [List.filter_eq_nil_iff]
    exact fun a ha sends => rest.silent a ha (of_decide_eq_true sends)
  show ((s.network.execute r.orders (disruptAt r.lost s.pending)).actions).filter (SendOf node ·) = _
  rw [split, Outcome.andThen, List.filter_append, none, List.append_nil]

/-- two nodes that talk to each other, of which "X" cannot agree on anything alone -/
def quitterAndStayer : List Node := [⟨"X", .flat 2 ["X", "Y"] (by decide)⟩, ⟨"Y", .flat 1 ["Y"] (by decide)⟩]

/-- "X" has voted, and has still to send its vote -/
def quitting : Session := (Session.start (.ofSetup ⟨quitterAndStayer, .bare true false⟩)).round ⟨[.vote "X" "x"], []⟩

/-- "X" comes to be content with itself, accepts, and is removed -/
def quitRound : Round := ⟨[.updateQuorumSet "X" (.flat 1 ["X"] (by decide)), .removeNode "X", .vote "Y" "z"], []⟩

/-- so its vote is sent in the round of its removal, its acceptance in the next one, and then nothing -/
theorem quitter_falls_silent :
    ∃ gone : Outcome Network,
      gone = quitting.network.execute [.updateQuorumSet "X" (.flat 1 ["X"] (by decide)), .removeNode "X"] [] ∧
      InAbsence "X" [⟨"X", "Y", ⟨"x", "X", false⟩⟩] (gone.state.execute [.vote "Y" "z"] quitting.pending) ∧
      InAbsence "X" [⟨"X", "Y", ⟨"x", "X", true⟩⟩]
        ((quitting.round quitRound).network.execute [] (quitting.round quitRound).pending) ∧
      ∀ a ∈ ((quitting.round quitRound).round ⟨[], []⟩).pending, ¬ SendOf "X" a := by
  obtain ⟨gone, begun, -, first, later⟩ := @last_messages_sent quitting quitRound "X"
    [.updateQuorumSet "X" (.flat 1 ["X"] (by decide))] [.vote "Y" "z"] rfl
  refine ⟨gone, begun, ?_, ?_, ?_⟩
  · have batch := first _ (List.prefix_refl _) (by decide +kernel)
    rw [← execute_eq_undergo] at batch
    exact batch
  · obtain ⟨_, rfl, trails, _⟩ := later [] (by decide) (by decide)
    have batch := trails ⟨[], []⟩ _ (List.prefix_refl _) (by decide +kernel)
    rw [← execute_eq_undergo] at batch
    exact batch
  · obtain ⟨_, rfl, _, _, silent⟩ := later [⟨[], []⟩] (by decide) (by decide)
    exact silent (List.cons_ne_nil _ _)

def lecturerAndPupil : List Node := [⟨"N", .flat 1 ["N"] (by decide)⟩, ⟨"P", .flat 1 ["N"] (by decide)⟩]

def lectureEngine : Engine := .ofSetup ⟨lecturerAndPupil, .bare true false⟩

/-- the lecturer has voted, and the pupil has still to be told -/
def departing : Session := (Session.start lectureEngine).round ⟨[.vote "N" "x"], []⟩

/-- right after the lecturer is removed, messages are sent in its name, and will be received from it -/
theorem departed_still_sends :
    (Engine.bare true false).load lecturerAndPupil [] = .ok lectureEngine ∧
    "N" ∉ (departing.network.applyUser (.removeNode "N")).state.roster ∧
    departing.network.execute [.removeNode "N"] departing.pending =
      (departing.network.applyUser (.removeNode "N")).andThen (fun n => n.execute [] departing.pending) ∧
    ¬ (∀ e ∈ ((departing.network.applyUser (.removeNode "N")).state.execute [] departing.pending).events,
      ¬ (e.kind = .messageSent ∧ e.target = "N")) ∧
    ¬ (∀ a ∈ ((departing.network.applyUser (.removeNode "N")).state.execute [] departing.pending).actions,
      ¬ (a.delivery = .receive ∧ a.message.sender = "N")) := by
  refine ⟨rfl, by decide +kernel, ?_, by decide +kernel, by decide +kernel⟩
  exact execute_append departing.network [.removeNode "N"] [] departing.pending

end FederatedAgreement
