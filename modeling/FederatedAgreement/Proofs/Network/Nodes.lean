/-
Nodes and links: what single actions do to them. A protocol action is lost, goes on to the second half of its hop, or is
delivered to a single node; a user action changes a single node, or who is there and who is linked with whom. So what the
rules of voting keep up at a single node, whatever it is told, all nodes keep up.

Results:
- `atNode_outcome`, `applyProtocol_outcome`: all that an action of a node or a message can do.
- `NodeInvariant.queued`: what the rules keep up at each node, actions keep up at all nodes.
- `steady_queued`: as long as operators only order votes and trust, nodes and links stay as they are.
-/
import FederatedAgreement.Proofs.Network.Queue

namespace FederatedAgreement.Network

variable {n : Network}

/-! ## What single actions do -/

/-- a node acts on its state, if it is there; otherwise it is noted that it is not -/
theorem atNode_outcome (n : Network) (key : NodeId) (act : VotingState → Outcome VotingState) :
    (n.atNode key act = n.ignore key "node does not exist" ∧ key ∉ n.roster) ∨
    ∃ st, n.roster.get? key = some st ∧
      n.atNode key act = (act st).map fun st' => { n with roster := n.roster.put key st' } := by
  unfold atNode
  split
  · next st here => exact Or.inr ⟨st, here, rfl⟩
  · next none => exact Or.inl ⟨rfl, Roster.get?_eq_none_iff.1 none⟩

/-- what an action of a node leaves and calls for -/
theorem atNode_cases (n : Network) (key : NodeId) (act : VotingState → Outcome VotingState) :
    ((n.atNode key act).state = n ∧ (n.atNode key act).actions = [] ∧ key ∉ n.roster) ∨
    ∃ st, n.roster.get? key = some st ∧ (n.atNode key act).actions = (act st).actions ∧
      (n.atNode key act).state = { n with roster := n.roster.put key (act st).state } := by
  rcases n.atNode_outcome key act with ⟨ignored, absent⟩ | ⟨st, here, acted⟩
  · rw [ignored]
    exact Or.inl ⟨rfl, rfl, absent⟩
  · rw [acted]
    exact Or.inr ⟨st, here, rfl, rfl⟩

/-- what is called for at a node, the node calls for in some state -/
theorem exists_of_mem_atNode {key : NodeId} {act : VotingState → Outcome VotingState} {a : ProtocolAction}
    (called : a ∈ (n.atNode key act).actions) : ∃ st, a ∈ (act st).actions := by
  rcases n.atNode_cases key act with ⟨_, actions, _⟩ | ⟨st, _, actions, _⟩
  · rw [actions] at called
    exact absurd called List.not_mem_nil
  · exact ⟨st, actions ▸ called⟩

theorem overlay_atNode (n : Network) (key : NodeId) (act : VotingState → Outcome VotingState) :
    (n.atNode key act).state.overlay = n.overlay := by
  rcases n.atNode_cases key act with ⟨unchanged, _⟩ | ⟨_, _, _, changed⟩
  · rw [unchanged]
  · rw [changed]

theorem keys_atNode (n : Network) (key : NodeId) (act : VotingState → Outcome VotingState) :
    (n.atNode key act).state.keys = n.keys := by
  rcases n.atNode_cases key act with ⟨unchanged, _⟩ | ⟨st, here, _, changed⟩
  · rw [unchanged]
  · rw [changed]
    exact Roster.keys_put_of_get? here _

/-- a link that is made or dropped changes the overlay, and nothing else -/
theorem changeLink_cases (n : Network) (a b : NodeId) (change : Overlay → NodeId → NodeId → Option Overlay)
    (kind : EventKind) :
    (n.changeLink a b change kind).state = n ∨
      ∃ overlay, change n.overlay a b = some overlay ∧ (n.changeLink a b change kind).state = { n with overlay } := by
  unfold changeLink
  split
  · split
    · next overlay made => exact Or.inr ⟨overlay, made, rfl⟩
    · exact Or.inl rfl
  · exact Or.inl rfl

/-- a message is lost, which is noted; or it is put on the second half of its hop, for which a sender that is there has to
be connected with the receiver; or it is delivered to a node -/
theorem applyProtocol_outcome (n : Network) (a : ProtocolAction) :
    (∃ e : Event, (e.kind = .messageDisrupted ∨ e.kind = .messageDropped) ∧ n.applyProtocol a = .noting n e) ∨
    (a.delivery = .send ∧
      (a.message.sender ∈ n.roster → n.overlay.isConnected a.message.sender a.message.receiver n.keys = true) ∧
      n.applyProtocol a =
        ⟨n, [.receive a.message], [.make .messageSent a.message.sender [("message", a.message.text)]]⟩) ∨
    (a.delivery = .receive ∧ n.applyProtocol a = n.atNode a.message.receiver fun st =>
      (Outcome.noting st (.make .messageReceived a.message.receiver [("message", a.message.text)])).andThen
        (VotingState.receive a.message.receiver (n.peersOf a.message.receiver) n.overlay.gossip a.message)) := by
  unfold applyProtocol
  split
  · exact Or.inl ⟨_, Or.inl rfl, rfl⟩
  · split
    · next delivery =>
      unfold send
      split
      · exact Or.inl ⟨_, Or.inr rfl, rfl⟩
      · next goes =>
        refine Or.inr (Or.inl ⟨delivery, fun sender => ?_, rfl⟩)
        rw [← Bool.not_eq_false]
        exact fun apart => goes ⟨sender, apart⟩
    · next delivery =>
      unfold receive
      split
      · exact Or.inr (Or.inr ⟨delivery, rfl⟩)
      · exact Or.inl ⟨_, Or.inr rfl, rfl⟩

/-- what a protocol action leaves and calls for -/
theorem applyProtocol_cases (n : Network) (a : ProtocolAction) :
    ((n.applyProtocol a).state = n ∧ (n.applyProtocol a).actions = []) ∨
    (a.delivery = .send ∧ (n.applyProtocol a).state = n ∧ (n.applyProtocol a).actions = [.receive a.message]) ∨
    (a.delivery = .receive ∧ n.applyProtocol a = n.atNode a.message.receiver fun st =>
      (Outcome.noting st (.make .messageReceived a.message.receiver [("message", a.message.text)])).andThen
        (VotingState.receive a.message.receiver (n.peersOf a.message.receiver) n.overlay.gossip a.message)) := by
  rcases n.applyProtocol_outcome a with ⟨_, _, lost⟩ | ⟨send, _, sent⟩ | received
  · rw [lost]
    exact Or.inl ⟨rfl, rfl⟩
  · rw [sent]
    exact Or.inr (Or.inl ⟨send, rfl, rfl⟩)
  · exact Or.inr (Or.inr received)

/-- the nodes and the links between them are not what messages change -/
theorem applyProtocol_steady (n : Network) (a : ProtocolAction) :
    (n.applyProtocol a).state.keys = n.keys ∧ (n.applyProtocol a).state.overlay = n.overlay := by
  rcases n.applyProtocol_cases a with ⟨unchanged, _⟩ | ⟨_, unchanged, _⟩ | ⟨_, received⟩
  · rw [unchanged]
    exact ⟨rfl, rfl⟩
  · rw [unchanged]
    exact ⟨rfl, rfl⟩
  · rw [received]
    exact ⟨keys_atNode n _ _, overlay_atNode n _ _⟩

/-! ## Invariants of nodes -/

/-- every node has the property in its present state -/
def Every (L : NodeId → VotingState → Prop) (n : Network) : Prop :=
  ∀ key st, n.roster.get? key = some st → L key st

/-- a property of single nodes, which each rule of voting keeps up, whoever the peers are -/
structure NodeInvariant (gossip : Bool) (L : NodeId → VotingState → Prop) : Prop where
  fresh : ∀ key q, L key (.fresh q)
  retrust : ∀ {key st} peers q, L key st → L key (VotingState.evaluate key peers { st with quorumSet := q }).state
  vote : ∀ {key st} peers s, L key st → L key (st.vote key peers s).state
  receive : ∀ {key st} peers m, L key st → L key (st.receive key peers gossip m).state

variable {gossip : Bool} {L : NodeId → VotingState → Prop}

theorem Every.put (h : Every L n) {key : NodeId} {st : VotingState} (hst : L key st) :
    Every L { n with roster := n.roster.put key st } := by
  intro key' st' here
  rw [Roster.get?_put] at here
  split at here
  · next e =>
    cases here
    exact e ▸ hst
  · exact h _ _ here

theorem Every.atNode (h : Every L n) {key : NodeId} {act : VotingState → Outcome VotingState}
    (one : ∀ st, L key st → L key (act st).state) : Every L (n.atNode key act).state := by
  rcases n.atNode_cases key act with ⟨unchanged, _⟩ | ⟨st, here, _, changed⟩
  · rw [unchanged]
    exact h
  · rw [changed]
    exact h.put (one st (h _ _ here))

/-- nobody can turn gossip on or off -/
theorem gossip_applyUser (n : Network) (u : UserAction) : (n.applyUser u).state.overlay.gossip = n.overlay.gossip := by
  have linking : ∀ a b change kind, (∀ o, change n.overlay a b = some o → o.gossip = n.overlay.gossip) →
      (n.changeLink a b change kind).state.overlay.gossip = n.overlay.gossip := by
    intro a b change kind same
    rcases n.changeLink_cases a b change kind with unchanged | ⟨o, made, changed⟩
    · rw [unchanged]
    · rw [changed]
      exact same o made
  cases u with
  | addNode key q =>
    show (n.addNode key q).state.overlay.gossip = _
    unfold addNode
    split <;> rfl
  | removeNode key =>
    show (n.removeNode key).state.overlay.gossip = _
    unfold removeNode
    split <;> rfl
  | updateQuorumSet key q => exact congrArg Overlay.gossip (overlay_atNode n key _)
  | vote key s => exact congrArg Overlay.gossip (overlay_atNode n key _)
  | connect a b =>
    apply linking
    intro o made
    unfold Overlay.connect? at made
    split at made
    · cases made
    · cases made
      rfl
  | disconnect a b =>
    apply linking
    intro o made
    unfold Overlay.disconnect? at made
    split at made
    · cases made
    · cases made
      rfl
  | forge m => rfl

theorem Every.changeLink (h : Every L n) (a b : NodeId) (change : Overlay → NodeId → NodeId → Option Overlay)
    (kind : EventKind) : Every L (n.changeLink a b change kind).state := by
  rcases n.changeLink_cases a b change kind with unchanged | ⟨o, _, changed⟩
  · rw [unchanged]
    exact h
  · rw [changed]
    exact h

theorem Every.applyUser (I : NodeInvariant gossip L) (h : Every L n) (u : UserAction) :
    Every L (n.applyUser u).state := by
  cases u with
  | addNode key q =>
    show Every L (n.addNode key q).state
    unfold addNode
    split
    · exact h
    · exact h.put (I.fresh key q)
  | removeNode key =>
    show Every L (n.removeNode key).state
    unfold removeNode
    split
    · intro key' st here
      rw [Outcome.noting, Roster.get?_erase] at here
      split at here
      · cases here
      · exact h _ _ here
    · exact h
  | updateQuorumSet key q =>
    apply h.atNode
    intro st hst
    exact I.retrust (n.peersOf key) q hst
  | vote key s =>
    apply h.atNode
    intro st hst
    exact I.vote (n.peersOf key) s hst
  | connect a b => exact h.changeLink a b Overlay.connect? .connectionAdded
  | disconnect a b => exact h.changeLink a b Overlay.disconnect? .connectionRemoved
  | forge m => exact h

theorem Every.applyProtocol (I : NodeInvariant n.overlay.gossip L) (h : Every L n) (a : ProtocolAction) :
    Every L (n.applyProtocol a).state := by
  rcases n.applyProtocol_cases a with ⟨unchanged, _⟩ | ⟨_, unchanged, _⟩ | ⟨_, received⟩
  · rw [unchanged]
    exact h
  · rw [unchanged]
    exact h
  · rw [received]
    apply h.atNode
    intro st hst
    exact I.receive (n.peersOf a.message.receiver) a.message hst

/-- **Nodes.** What each rule keeps up at a single node, actions of all kinds keep up at all nodes. -/
theorem NodeInvariant.queued (I : NodeInvariant gossip L) :
    QueueInvariant (fun _ => True) fun n _ => n.overlay.gossip = gossip ∧ Every L n where
  ordered := by
    rintro n u queue ⟨on, h⟩ -
    exact ⟨(gossip_applyUser n u).trans on, h.applyUser I u⟩
  delivered := by
    rintro n a queue ⟨rfl, h⟩
    exact ⟨congrArg Overlay.gossip (n.applyProtocol_steady a).2, h.applyProtocol I a⟩

/-! ## Steady networks -/

/-- orders that only concern what nodes say and whom they trust -/
def Calm (u : UserAction) : Prop := u.kind = .vote ∨ u.kind = .updateQuorumSet

instance (u : UserAction) : Decidable (Calm u) := inferInstanceAs (Decidable (_ ∨ _))

/-- a calm order is carried out by a single node, which looks at its peers only and speaks for itself -/
theorem applyUser_of_calm {u : UserAction} (calm : Calm u) :
    ∃ act : List NodeId → VotingState → Outcome VotingState,
      (∀ n : Network, n.applyUser u = n.atNode u.author (act (n.peersOf u.author))) ∧
      ∀ peers st, VotingState.Heeds (fun _ => False) u.author st (act peers st) := by
  cases u with
  | vote key s =>
    refine ⟨fun peers => VotingState.vote key peers s, fun n => ?_, fun peers st => ?_⟩
    · show n.applyUser (.vote key s) = n.atNode key _
      rfl
    · have acts : VotingState.Acts (fun _ => False) (· = s) key st (st.vote key peers s) := VotingState.vote_acts rfl
      exact acts.heeds
  | updateQuorumSet key q =>
    let note : Event := .make .quorumSetUpdated key [("quorum_set", q.canonical)]
    refine ⟨fun peers st => (Outcome.noting { st with quorumSet := q } note).andThen (VotingState.evaluate key peers),
      fun n => ?_, fun _ st => ?_⟩
    · show n.updateQuorumSet key q = n.atNode key _
      rfl
    · exact VotingState.retrust_heeds _ st q note
  | _ => exact absurd calm (by simp [Calm, UserAction.kind])

theorem applyUser_steady {u : UserAction} (calm : Calm u) :
    (n.applyUser u).state.keys = n.keys ∧ (n.applyUser u).state.overlay = n.overlay := by
  obtain ⟨act, same, _⟩ := applyUser_of_calm calm
  rw [same]
  exact ⟨keys_atNode n _ _, overlay_atNode n _ _⟩

/-- **Steady networks.** Calm orders leave the nodes and the links between them as they are. -/
theorem steady_queued (keys : List NodeId) (overlay : Overlay) :
    QueueInvariant Calm fun n _ => n.keys = keys ∧ n.overlay = overlay where
  ordered := by
    rintro n u queue ⟨rfl, rfl⟩ calm
    exact applyUser_steady calm
  delivered := by
    rintro n a queue ⟨rfl, rfl⟩
    exact applyProtocol_steady n a

end FederatedAgreement.Network
