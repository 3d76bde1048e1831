/-
Accounts of a batch: nothing that is under way is lost or doubled without a note. Each given protocol action is settled by
one event, which tells what became of it: it is sent, received, dropped or disrupted. Whatever is called for goes back to
one event: the second half of a hop to the sending of its first half, and the first half of a hop to an occasion. Occasions
are that an operator forges a message, and that a node votes, accepts, or passes on a vote that a message brought.

Results:
- `execute_booked`: the events and actions of a batch are made up of settled actions, occasions, and other events.
- `Booked.settled_in_order`, `Booked.receipts`, `Booked.sends`: what such books say of each kind of action.
- `Booked.origin`: where an action that is called for comes from.
- `every_action_accounted`: **every action is accounted for**, in any batch.
-/
import FederatedAgreement.Proofs.Network.Deeds
import FederatedAgreement.Proofs.Network.Nodes
import Mathlib.Data.List.Forall2

namespace FederatedAgreement

/-! ## What events tell -/

namespace EventKind

/-- what can become of a protocol action -/
def isFate : EventKind → Bool
  | .messageSent | .messageReceived | .messageDropped | .messageDisrupted => true
  | _ => false

/-- what makes messages be sent -/
def isOccasion : EventKind → Bool
  | .messageForged | .voted | .accepted | .messageRelayed => true
  | _ => false

end EventKind

/-- the event tells what became of the protocol action, and carries its message -/
inductive Settles (a : ProtocolAction) : Event → Prop
  | sent (intact : a.disrupted = false) (half : a.delivery = .send) :
      Settles a (.make .messageSent a.message.sender [("message", a.message.text)])
  | received (intact : a.disrupted = false) (half : a.delivery = .receive) :
      Settles a (.make .messageReceived a.message.receiver [("message", a.message.text)])
  | dropped (intact : a.disrupted = false) (reason : String) :
      Settles a (.make .messageDropped a.message.receiver [("message", a.message.text), ("reason", reason)])
  | disrupted (lost : a.disrupted = true) :
      Settles a (.make .messageDisrupted a.author [("message", a.message.text), ("action", a.kind.name)])

theorem Settles.isFate {a : ProtocolAction} {e : Event} (h : Settles a e) : e.kind.isFate = true := by
  cases h <;> rfl

theorem Settles.not_occasion {a : ProtocolAction} {e : Event} (h : Settles a e) : e.kind.isOccasion = false := by
  cases h <;> rfl

/-- what makes messages be sent: a message is forged, a node votes or accepts, or it passes on what a message brought -/
inductive Occasion where
  | forged (m : Message)
  | voted (node : NodeId) (s : Statement)
  | accepted (node : NodeId) (s : Statement) (g : Ground)
  | relayed (m : Message)

namespace Occasion

/-- in whose name messages are sent -/
def sender : Occasion → NodeId
  | .forged m => m.sender
  | .voted node _ | .accepted node _ _ => node
  | .relayed m => m.receiver

/-- what the messages carry -/
def vote : Occasion → Vote
  | .forged m | .relayed m => m.vote
  | .voted node s => ⟨s, node, false⟩
  | .accepted node s _ => ⟨s, node, true⟩

/-- to whom messages are sent: one's own votes go to all peers, those of others to the peers that neither sent nor cast
them -/
def listeners (n : Network) : Occasion → List NodeId
  | .forged m => [m.receiver]
  | .voted node _ | .accepted node _ _ => n.peersOf node
  | .relayed m => (n.peersOf m.receiver).filter fun p => p ≠ m.sender && p ≠ m.vote.voter

/-- the actions that are called for: one for each listener -/
def sends (n : Network) (o : Occasion) : List ProtocolAction := broadcast o.sender o.vote (o.listeners n)

/-- the event that tells of it; if a vote is passed on, it lists the listeners -/
def event (n : Network) : Occasion → Event
  | .forged m => .make .messageForged m.sender [("message", m.text)]
  | .voted node s => .make .voted node [("statement", s)]
  | .accepted node s g => .make .accepted node [("statement", s), ("reason", g.name)]
  | .relayed m =>
    .make .messageRelayed m.receiver
      [("vote", m.vote.text), ("peers", ",".intercalate ((Occasion.relayed m).listeners n))]

def forged? : Occasion → Option Message
  | .forged m => some m
  | _ => none

theorem isOccasion_event (n : Network) (o : Occasion) : (o.event n).kind.isOccasion = true := by
  cases o <;> rfl

theorem not_fate_event (n : Network) (o : Occasion) : (o.event n).kind.isFate = false := by
  cases o <;> rfl

theorem delivery_sends {n : Network} {o : Occasion} : ∀ a ∈ o.sends n, a.delivery = .send := by
  intro a ha
  obtain ⟨p, _, rfl⟩ := List.mem_map.1 ha
  rfl

end Occasion

/-- the message that an order forges -/
def UserAction.forged? : UserAction → Option Message
  | .forge m => some m
  | _ => none

/-! ## Books -/

/-- the events that are seen, each in its network, and the actions that are called for are made up, piece by piece, of the
settled actions, of occasions, among them the forged messages, and of other events -/
inductive Booked :
    List (Network × Event) → List ProtocolAction → List ProtocolAction → List Message → Prop
  | nothing : Booked [] [] [] []
  | append {seen seen' : List (Network × Event)} {called called' settled settled' : List ProtocolAction}
      {forged forged' : List Message} (h : Booked seen called settled forged) (h' : Booked seen' called' settled' forged') :
      Booked (seen ++ seen') (called ++ called') (settled ++ settled') (forged ++ forged')
  | settled (n : Network) {a : ProtocolAction} {e : Event} (h : Settles a e) :
      Booked [(n, e)] (if e.kind = .messageSent then [.receive a.message] else []) [a] []
  | occasion (n : Network) (o : Occasion) : Booked [(n, o.event n)] (o.sends n) [] o.forged?.toList
  | other (n : Network) {e : Event} (fate : e.kind.isFate = false) (occasion : e.kind.isOccasion = false) :
      Booked [(n, e)] [] [] []

namespace Booked

variable {seen : List (Network × Event)} {called settled : List ProtocolAction} {forged : List Message}

/-- the settled actions and the events that tell what became of actions correspond, in their order -/
theorem settled_in_order (h : Booked seen called settled forged) :
    List.Forall₂ Settles settled ((seen.map Prod.snd).filter (·.kind.isFate)) := by
  induction h with
  | nothing => exact .nil
  | append _ _ first second =>
    rw [List.map_append, List.filter_append]
    exact List.rel_append first second
  | settled n settles => simpa [settles.isFate] using settles
  | occasion n o => simp [o.not_fate_event n]
  | other n fate _ => simp [fate]

/-- the second halves of hops that are called for are those of the actions that were settled by being sent -/
theorem receipts (h : Booked seen called settled forged) :
    called.filter (·.delivery = .receive) =
      ((settled.zip ((seen.map Prod.snd).filter (·.kind.isFate))).filter (·.2.kind = .messageSent)).map
        fun p => .receive p.1.message := by
  induction h with
  | nothing => rfl
  | append first _ ih ih' =>
    have length := first.settled_in_order.length_eq
    simp only [List.map_append, List.filter_append, List.zip_append length, ih, ih']
  | @settled n a e settles =>
    have fates : ([(n, e)].map Prod.snd).filter (·.kind.isFate) = [e] := by simp [settles.isFate]
    rw [fates]
    by_cases sent : e.kind = .messageSent <;> simp [sent, ProtocolAction.receive]
  | occasion n o =>
    have sends : ∀ a ∈ o.sends n, ¬ a.delivery = .receive := fun a ha => by
      rw [Occasion.delivery_sends a ha]
      exact Delivery.noConfusion
    simpa [o.not_fate_event n] using sends
  | other n fate _ => simp [fate]

/-- the first halves of hops that are called for are those that the occasions call for, in their order -/
theorem sends (h : Booked seen called settled forged) :
    ∃ occasions : List (Network × Occasion),
      occasions.map (fun p => (p.1, p.2.event p.1)) = seen.filter (·.2.kind.isOccasion) ∧
      called.filter (·.delivery = .send) = occasions.flatMap (fun p => p.2.sends p.1) ∧
      occasions.filterMap (·.2.forged?) = forged := by
  induction h with
  | nothing => exact ⟨[], rfl, rfl, rfl⟩
  | append _ _ ih ih' =>
    obtain ⟨first, events, sends, forged⟩ := ih
    obtain ⟨second, events', sends', forged'⟩ := ih'
    refine ⟨first ++ second, ?_, ?_, ?_⟩
    · rw [List.map_append, List.filter_append, events, events']
    · rw [List.flatMap_append, List.filter_append, sends, sends']
    · rw [List.filterMap_append, forged, forged']
  | @settled n a e settles =>
    refine ⟨[], ?_, ?_, rfl⟩
    · simp [settles.not_occasion]
    · split <;> rfl
  | occasion n o =>
    refine ⟨[(n, o)], ?_, ?_, ?_⟩
    · simp [o.isOccasion_event n]
    · simpa using Occasion.delivery_sends (n := n) (o := o)
    · cases o <;> rfl
  | other n _ occasion => exact ⟨[], by simp [occasion], rfl, rfl⟩

/-- an event that tells what became of an action tells it of one that was settled -/
theorem settled_of_fate (h : Booked seen called settled forged) {p : Network × Event} (hp : p ∈ seen)
    (fate : p.2.kind.isFate = true) : ∃ a ∈ settled, Settles a p.2 := by
  induction h with
  | nothing => exact absurd hp List.not_mem_nil
  | append _ _ ih ih' =>
    rcases List.mem_append.1 hp with first | second
    · obtain ⟨a, ha, settles⟩ := ih first
      exact ⟨a, List.mem_append_left _ ha, settles⟩
    · obtain ⟨a, ha, settles⟩ := ih' second
      exact ⟨a, List.mem_append_right _ ha, settles⟩
  | settled n settles =>
    rw [List.mem_singleton.1 hp]
    exact ⟨_, List.mem_cons_self, settles⟩
  | occasion n o =>
    rw [List.mem_singleton.1 hp, o.not_fate_event n] at fate
    exact Bool.noConfusion fate
  | other n none _ =>
    rw [List.mem_singleton.1 hp, none] at fate
    exact Bool.noConfusion fate

/-- where an action that is called for comes from: it is the second half of a hop whose first half was settled and not
disrupted, or there was an occasion for it, where a message was given if it is a forged one -/
theorem origin (h : Booked seen called settled forged) {a : ProtocolAction} (ha : a ∈ called) :
    (∃ b ∈ settled, b.delivery = .send ∧ b.disrupted = false ∧ a = .receive b.message) ∨
      ∃ (n : Network) (o : Occasion), (n, o.event n) ∈ seen ∧ (∀ m ∈ o.forged?.toList, m ∈ forged) ∧ a ∈ o.sends n := by
  induction h with
  | nothing => exact absurd ha List.not_mem_nil
  | append _ _ ih ih' =>
    rcases List.mem_append.1 ha with first | second
    · refine (ih first).imp (fun ⟨b, hb, sent⟩ => ⟨b, List.mem_append_left _ hb, sent⟩) ?_
      exact fun ⟨n, o, there, given, calls⟩ =>
        ⟨n, o, List.mem_append_left _ there, fun m hm => List.mem_append_left _ (given m hm), calls⟩
    · refine (ih' second).imp (fun ⟨b, hb, sent⟩ => ⟨b, List.mem_append_right _ hb, sent⟩) ?_
      exact fun ⟨n, o, there, given, calls⟩ =>
        ⟨n, o, List.mem_append_right _ there, fun m hm => List.mem_append_right _ (given m hm), calls⟩
  | @settled n b e settles =>
    cases settles with
    | sent intact half => exact Or.inl ⟨b, List.mem_cons_self, half, intact, List.mem_singleton.1 ha⟩
    | received | dropped | disrupted => exact absurd ha List.not_mem_nil
  | occasion n o => exact Or.inr ⟨n, o, List.mem_cons_self, fun _ hm => hm, ha⟩
  | other n _ _ => exact absurd ha List.not_mem_nil

end Booked

/-! ## Rules -/

/-- an outcome in a network is booked -/
def Network.Books {σ : Type} (n : Network) (o : Outcome σ) (settled : List ProtocolAction) (forged : List Message) :
    Prop :=
  Booked (o.events.map (n, ·)) o.actions settled forged

namespace VotingState

open Network (Books)

variable {n : Network} {σ τ : Type} {settled : List ProtocolAction} {forged : List Message}

theorem books_still (s : σ) : n.Books (.still s) [] [] := .nothing

theorem books_noting (s : σ) {e : Event} (fate : e.kind.isFate = false) (occasion : e.kind.isOccasion = false) :
    n.Books (.noting s e) [] [] :=
  .other n fate occasion

/-- whatever follows settles and forges nothing -/
theorem books_andThen {o : Outcome σ} {next : σ → Outcome τ} (h : n.Books o settled forged)
    (h' : n.Books (next o.state) [] []) : n.Books (o.andThen next) settled forged := by
  have both := h.append h'
  rw [List.append_nil, List.append_nil, ← List.map_append] at both
  exact both

theorem tryAccept_books (node : NodeId) (st : VotingState) : n.Books (st.tryAccept node (n.peersOf node)) [] [] := by
  unfold tryAccept
  split
  · split
    · next s g _ => exact .occasion n (.accepted node s g)
    · exact books_still st
  · exact books_still st

theorem tryConfirm_books (node : NodeId) (st : VotingState) : n.Books (st.tryConfirm node) [] [] := by
  unfold tryConfirm
  split
  · split
    · exact books_noting _ rfl rfl
    · exact books_still st
  · exact books_still st

theorem evaluate_books (node : NodeId) (st : VotingState) : n.Books (st.evaluate node (n.peersOf node)) [] [] :=
  books_andThen (tryAccept_books node st) (tryConfirm_books node _)

theorem vote_books (node : NodeId) (s : Statement) (st : VotingState) :
    n.Books (st.vote node (n.peersOf node) s) [] [] := by
  unfold vote
  split
  · exact books_noting st rfl rfl
  · exact books_andThen (.occasion n (.voted node s)) (evaluate_books node _)

theorem relay_books (m : Message) (st : VotingState) :
    n.Books (st.relay m.receiver (n.peersOf m.receiver) m) [] [] := by
  unfold relay
  split
  · exact books_still st
  · dsimp only
    split
    · next nobody =>
      have silent : broadcast m.receiver m.vote
          ((n.peersOf m.receiver).filter fun p => p ≠ m.sender && p ≠ m.vote.voter) = [] := by
        rw [List.isEmpty_iff.1 nobody]
        rfl
      unfold Books
      rw [silent]
      exact .nothing
    · exact .occasion n (.relayed m)

theorem process_books (node : NodeId) (v : Vote) (st : VotingState) :
    n.Books (st.process node (n.peersOf node) v) [] [] := by
  unfold process
  split
  · exact books_still st
  · exact evaluate_books node _

theorem receive_books (gossip : Bool) (m : Message) (st : VotingState) :
    n.Books (st.receive m.receiver (n.peersOf m.receiver) gossip m) [] [] := by
  unfold receive
  refine books_andThen ?_ (process_books m.receiver m.vote _)
  split
  · exact relay_books m st
  · exact books_still st

end VotingState

/-! ## Actions and batches -/

namespace Network

open VotingState

variable {n : Network}

theorem atNode_books {key : NodeId} {act : VotingState → Outcome VotingState} {settled : List ProtocolAction}
    (there : key ∈ n.roster ∨ settled = []) (one : ∀ st, n.Books (act st) settled []) :
    n.Books (n.atNode key act) settled [] := by
  rcases n.atNode_outcome key act with ⟨ignored, absent⟩ | ⟨st, _, acted⟩
  · rw [ignored, there.resolve_left absent]
    exact books_noting n rfl rfl
  · rw [acted]
    exact one st

theorem changeLink_books (a b : NodeId) (change : Overlay → NodeId → NodeId → Option Overlay) {kind : EventKind}
    (fate : kind.isFate = false) (occasion : kind.isOccasion = false) : n.Books (n.changeLink a b change kind) [] [] := by
  unfold changeLink
  split
  · split
    · exact books_noting _ fate occasion
    · exact books_noting n rfl rfl
  · exact books_noting n rfl rfl

theorem applyUser_books (u : UserAction) : n.Books (n.applyUser u) [] u.forged?.toList := by
  cases u with
  | addNode key q =>
    show n.Books (n.addNode key q) [] []
    unfold addNode
    split <;> exact books_noting _ rfl rfl
  | removeNode key =>
    show n.Books (n.removeNode key) [] []
    unfold removeNode
    split <;> exact books_noting _ rfl rfl
  | updateQuorumSet key q =>
    exact atNode_books (Or.inr rfl) fun st => books_andThen (books_noting _ rfl rfl) (evaluate_books key _)
  | vote key s => exact atNode_books (Or.inr rfl) (vote_books key s)
  | connect a b => exact changeLink_books a b _ rfl rfl
  | disconnect a b => exact changeLink_books a b _ rfl rfl
  | forge m => exact .occasion n (.forged m)

theorem applyProtocol_books (a : ProtocolAction) : n.Books (n.applyProtocol a) [a] [] := by
  unfold applyProtocol
  split
  · next lost => exact .settled n (.disrupted lost)
  · next flag =>
    have intact : a.disrupted = false := Bool.not_eq_true _ ▸ flag
    split
    · next half =>
      unfold send
      split
      · exact .settled n (.dropped intact "not connected")
      · exact .settled n (.sent intact half)
    · next half =>
      unfold receive
      split
      · next there =>
        exact atNode_books (Or.inl there) fun st =>
          books_andThen (.settled n (.received intact half)) (receive_books n.overlay.gossip a.message st)
      · exact .settled n (.dropped intact "receiver does not exist")

end Network

namespace Deed

/-- the message that is forged, if the deed is an order to forge one -/
def forged? : Deed → Option Message
  | .order u => u.forged?
  | .deliver _ => none

theorem forged_batch (users : List UserAction) (protocol : List ProtocolAction) :
    (batch users protocol).filterMap forged? = users.filterMap UserAction.forged? := by
  simp [batch, List.filterMap_map, Function.comp_def, forged?]

end Deed

namespace Network

theorem carryOut_books (n : Network) (d : Deed) : n.Books (n.carryOut d) d.protocol?.toList d.forged?.toList := by
  cases d with
  | order u => exact applyUser_books u
  | deliver a => exact applyProtocol_books a

theorem undergo_booked (n : Network) (deeds : List Deed) :
    Booked (n.witnessed deeds) (n.undergo deeds).actions (deeds.filterMap Deed.protocol?)
      (deeds.filterMap Deed.forged?) := by
  induction deeds generalizing n with
  | nil => exact .nothing
  | cons d deeds ih =>
    rw [List.filterMap_eq_flatMap_toList, List.filterMap_eq_flatMap_toList] at ih ⊢
    exact (n.carryOut_books d).append (ih _)

/-- **Books of a batch.** What is seen and called for in a batch is made up of what became of the given protocol actions, of
occasions, and of other events. -/
theorem execute_booked (n : Network) (users : List UserAction) (protocol : List ProtocolAction) :
    Booked (n.witnessed (Deed.batch users protocol)) (n.execute users protocol).actions protocol
      (users.filterMap UserAction.forged?) := by
  have booked := n.undergo_booked (Deed.batch users protocol)
  rw [Deed.protocol_batch, Deed.forged_batch, ← execute_eq_undergo] at booked
  exact booked

end Network

/-! ## Main result -/

/-- **Every action is accounted for.** Let any user actions and protocol actions be carried out as a batch in any network.
The events that something was sent, received, dropped or disrupted correspond to the given protocol actions, one to one and
in order, and each carries the message of its action. The second halves of hops that the batch calls for are those of the
actions that were settled by being sent, in order, and none is disrupted. The events that a message was forged, that a node
voted or accepted, or that it passed a vote on, in the order in which they were seen, are the occasions for the first halves
of hops that the batch calls for: one for each message that an operator forged, one for each present peer of a node that
voted or accepted, and one for each of the peers that the event of passing on lists. -/
theorem every_action_accounted (n : Network) (users : List UserAction) (protocol : List ProtocolAction) :
    List.Forall₂ Settles protocol ((n.execute users protocol).events.filter (·.kind.isFate)) ∧
    (n.execute users protocol).actions.filter (·.delivery = .receive) =
      ((protocol.zip ((n.execute users protocol).events.filter (·.kind.isFate))).filter
        (·.2.kind = .messageSent)).map (fun p => .receive p.1.message) ∧
    (n.witnessed (Deed.batch users protocol)).map Prod.snd = (n.execute users protocol).events ∧
    ∃ occasions : List (Network × Occasion),
      occasions.map (fun p => (p.1, p.2.event p.1)) =
        (n.witnessed (Deed.batch users protocol)).filter (·.2.kind.isOccasion) ∧
      (n.execute users protocol).actions.filter (·.delivery = .send) = occasions.flatMap (fun p => p.2.sends p.1) ∧
      occasions.filterMap (·.2.forged?) = users.filterMap UserAction.forged? := by
  have seen : (n.witnessed (Deed.batch users protocol)).map Prod.snd = (n.execute users protocol).events := by
    rw [n.execute_eq_undergo]
    exact n.events_witnessed _
  have booked := n.execute_booked users protocol
  have settled := booked.settled_in_order
  have receipts := booked.receipts
  rw [seen] at settled receipts
  exact ⟨settled, receipts, seen, booked.sends⟩

end FederatedAgreement
