/-
Dissemination of votes. As long as operators only order votes and trust, and no message is lost, every vote that a node
spreads has reached each of its peers or is on its way there. A node leaves out the peers that sent or cast the vote, and
those knew it before. So once nothing is under way, all nodes that are joined by links know the same votes.

Results:
- `attested_invariant`: whatever a node holds, the voter knows.
- `Reaches.ordered`, `Reaches.delivered`: a vote that has reached a node or is on its way there stays so.
- `Disseminating.queued`: every vote that a node spreads reaches all peers.
- `Disseminating.heard_by_all`: **everyone knows everything** once nothing is under way.
-/
import FederatedAgreement.Proofs.Network.Provenance
import FederatedAgreement.Proofs.Network.Nodes
import FederatedAgreement.Proofs.Voting.Spreading

namespace FederatedAgreement.Network

variable {allowed : UserAction → Prop} {given : Message → Prop} {n n' : Network} {queue : List ProtocolAction}
  {key p : NodeId} {v : Vote}

/-! ## What the voter knows -/

/-- the node took the vote into account -/
def Heard (n : Network) (key : NodeId) (v : Vote) : Prop := ∃ st, n.roster.get? key = some st ∧ v ∈ st.processed

/-- whatever a node holds, the voter took into account -/
def Attested (n : Network) : Prop := ∀ {key st v}, n.roster.get? key = some st → st.Holds v → Heard n v.voter v

theorem Heard.mem_keys (h : Heard n key v) : key ∈ n.keys := by
  obtain ⟨st, here, _⟩ := h
  exact Roster.mem_of_get? here

theorem heard_iff {st : VotingState} (here : n.roster.get? key = some st) : Heard n key v ↔ v ∈ st.processed := by
  constructor
  · rintro ⟨st', there, heard⟩
    cases here.symm.trans there
    exact heard
  · exact fun heard => ⟨st, here, heard⟩

/-- a vote that its voter took into account does not come back to the voter as news -/
theorem Heard.own (h : Heard n v.voter v) {st : VotingState} (here : n.roster.get? key = some st) (cast : v.voter = key) :
    v ∈ st.processed := by
  rw [cast] at h
  exact (heard_iff here).1 h

theorem Turn.processed {st st' : VotingState} (t : Turn allowed given key st st') : st.processed <+: st'.processed := by
  cases t with
  | same => exact List.prefix_refl _
  | move m => exact m.processed
  | retrust _ => exact List.prefix_refl _

theorem Heard.change (h : Heard n key v) (stays : ¬ allowed (.removeNode key)) (c : Change allowed given n n') :
    Heard n' key v := by
  obtain ⟨st, here, hv⟩ := h
  obtain ⟨st', there, turn⟩ := c.forward stays here
  exact ⟨st', there, turn.processed.subset hv⟩

/-- nobody forgets a vote, whatever is done other than removing nodes -/
theorem Heard.changes (h : Heard n key v) (stays : ∀ key, ¬ allowed (.removeNode key))
    (cs : Changes allowed given n n') : Heard n' key v := by
  induction cs with
  | refl => exact h
  | tail _ c ih => exact ih.change (stays key) c

theorem Heard.ordered {u : UserAction} (h : Heard n key v) (sincere : Sincere u) :
    Heard (n.applyUser u).state key v := by
  have proceeds : Proceeds Sincere (fun _ => True) n (n.applyUser u) := applyUser_proceeds sincere fun _ _ => trivial
  exact h.changes sincere_stays proceeds.changes

theorem Heard.delivered (h : Heard n key v) (a : ProtocolAction) : Heard (n.applyProtocol a).state key v := by
  have proceeds : Proceeds Sincere (fun _ => True) n (n.applyProtocol a) := applyProtocol_proceeds trivial
  exact h.changes sincere_stays proceeds.changes

theorem Attested.change (h : Attested n) (stays : ∀ key, ¬ allowed (.removeNode key)) (c : Change allowed given n n')
    (carried : ∀ v, Carried given v → Heard n v.voter v) : Attested n' := by
  intro key st' v there hv
  rcases c.origin there with ⟨st, here, turn⟩ | ⟨q, _, _, rfl⟩
  · rcases turn.held hv with hv | hv | cast
    · exact (h here hv).change (stays _) c
    · exact (carried v hv).change (stays _) c
    · exact ⟨st', cast.voter ▸ there, cast.processed⟩
  · exact absurd hv (VotingState.not_holds_fresh q v)

/-- **Voters know their votes.** Where nobody forges messages and no node is removed, whatever is held or under way, the
voter took into account. -/
theorem attested_invariant : Invariant Sincere Attested (fun n m => Heard n m.vote.voter m.vote) where
  holds h c := by
    apply h.change sincere_stays c
    rintro v ⟨m, hm, rfl⟩
    exact hm
  good _ c hm := hm.change (sincere_stays _) c
  sent h here sends := h here sends.holds
  forged _ ordered := absurd rfl ordered.1

/-! ## Votes on their way -/

/-- the two nodes can exchange messages -/
def Neighbours (n : Network) (a b : NodeId) : Prop := n.overlay.isConnected a b n.keys = true

theorem neighbours_steady (same : n'.keys = n.keys ∧ n'.overlay = n.overlay) : n'.Neighbours = n.Neighbours := by
  funext a b
  rw [Neighbours, Neighbours, same.1, same.2]

theorem Calm.sincere {u : UserAction} (calm : Calm u) : Sincere u := by
  rcases calm with vote | trust
  · exact ⟨by rw [vote]; decide, by rw [vote]; decide⟩
  · exact ⟨by rw [trust]; decide, by rw [trust]; decide⟩

theorem mem_peersOf_iff : p ∈ n.peersOf key ↔ n.Neighbours key p := Overlay.mem_peersOf

theorem mem_keys_of_mem_peersOf (h : p ∈ n.peersOf key) : p ∈ n.keys := (List.mem_filter.1 h).1

/-- the action will make the node hear of the vote -/
structure Brings (n : Network) (p : NodeId) (v : Vote) (a : ProtocolAction) : Prop where
  intact : a.disrupted = false
  receiver : a.message.receiver = p
  vote : a.message.vote = v
  linked : a.delivery = .send → n.Neighbours a.message.sender p

/-- the vote has reached the node, or it is on its way there -/
def Reaches (n : Network) (queue : List ProtocolAction) (p : NodeId) (v : Vote) : Prop :=
  Heard n p v ∨ ∃ a ∈ queue, Brings n p v a

/-- nothing that leaves nodes and links as they are keeps an action from bringing a vote -/
theorem Brings.steady {a : ProtocolAction} (h : Brings n p v a) (same : n'.keys = n.keys ∧ n'.overlay = n.overlay) :
    Brings n' p v a := by
  refine { h with linked := fun send => ?_ }
  rw [neighbours_steady same]
  exact h.linked send

theorem Reaches.ordered {u : UserAction} (h : Reaches n queue p v) (calm : Calm u) :
    Reaches (n.applyUser u).state (queue ++ (n.applyUser u).actions) p v := by
  rcases h with heard | ⟨a, ha, brings⟩
  · exact Or.inl (heard.ordered calm.sincere)
  · exact Or.inr ⟨a, List.mem_append_left _ ha, brings.steady (applyUser_steady calm)⟩

/-- **Hop by hop.** A message that is sent is received next, and the vote of a message that is received is taken into
account. -/
theorem Brings.delivered {a : ProtocolAction} (h : Brings n p v a) (here : p ∈ n.keys) :
    Reaches (n.applyProtocol a).state (n.applyProtocol a).actions p v := by
  obtain ⟨delivery, m, disrupted⟩ := a
  obtain ⟨rfl, rfl, rfl, linked⟩ := h
  unfold applyProtocol
  rw [if_neg (by simp)]
  cases delivery with
  | send =>
    have goes : ¬ (m.sender ∈ n.roster ∧ n.overlay.isConnected m.sender m.receiver n.keys = false) := by
      rintro ⟨-, apart⟩
      rw [show n.overlay.isConnected m.sender m.receiver n.keys = true from linked rfl] at apart
      exact absurd apart (by decide)
    simp only [send, if_neg goes]
    exact Or.inr ⟨.receive m, List.mem_singleton_self _, rfl, rfl, rfl, nofun⟩
  | receive =>
    obtain ⟨st, there⟩ := Roster.mem_iff_exists_get?.1 here
    have member : m.receiver ∈ n.roster := here
    simp only [receive, if_pos member, atNode, there]
    refine Or.inl ⟨_, (Roster.get?_put _ _ _ _).trans (if_pos rfl), ?_⟩
    exact VotingState.receive_processed m.receiver (n.peersOf m.receiver) n.overlay.gossip st m

theorem Reaches.delivered {a : ProtocolAction} (h : Reaches n (a :: queue) p v) (here : p ∈ n.keys) :
    Reaches (n.applyProtocol a).state (queue ++ (n.applyProtocol a).actions) p v := by
  rcases h with heard | ⟨b, hb, brings⟩
  · exact Or.inl (heard.delivered a)
  · rcases List.mem_cons.1 hb with rfl | later
    · refine (brings.delivered here).imp_right ?_
      rintro ⟨c, hc, next⟩
      exact ⟨c, List.mem_append_right _ hc, next⟩
    · exact Or.inr ⟨b, List.mem_append_left _ later, brings.steady (applyProtocol_steady n a)⟩

/-! ## All peers -/

/-- every vote that a node spreads has reached its peers or is on its way there -/
def Spreading (n : Network) (queue : List ProtocolAction) : Prop :=
  ∀ key st v p, n.roster.get? key = some st → st.Spreads key v → p ∈ n.peersOf key → Reaches n queue p v

/-- a node that tells its peers what is new, but for what they know, keeps them informed -/
theorem Spreading.atNode {queue' : List ProtocolAction} {act : VotingState → Outcome VotingState}
    (h : Spreading n queue)
    (informs : ∀ st, n.roster.get? key = some st →
      VotingState.Informs key (n.peersOf key) (fun v p => Heard n p v) st (act st))
    (onward : ∀ {p v}, p ∈ n.keys → Reaches n queue p v →
      Reaches (n.atNode key act).state (queue' ++ (n.atNode key act).actions) p v) :
    Spreading (n.atNode key act).state (queue' ++ (n.atNode key act).actions) := by
  intro key' st' v p there spreads peer
  have peer' : p ∈ n.peersOf key' := by
    unfold peersOf at peer ⊢
    rwa [overlay_atNode, keys_atNode] at peer
  have known := mem_keys_of_mem_peersOf peer'
  have before : ∀ {st}, n.roster.get? key' = some st → st.Spreads key' v →
      Reaches (n.atNode key act).state (queue' ++ (n.atNode key act).actions) p v :=
    fun here spreads => onward known (h key' _ v p here spreads peer')
  rcases n.atNode_cases key act with ⟨unchanged, _⟩ | ⟨st, here, actions, changed⟩
  · rw [unchanged] at there
    exact before there spreads
  · rw [changed, Roster.get?_put] at there
    split at there
    · next e =>
      subst e
      cases there
      rcases (informs st here).news v spreads with old | new
      · exact before here old
      · rcases new p peer' with heard | sent
        · exact onward known (Or.inl heard)
        · refine Or.inr ⟨_, List.mem_append_right _ (actions ▸ sent), ?_⟩
          have brings : Brings n p v (.send ⟨key', p, v⟩) := ⟨rfl, rfl, rfl, fun _ => mem_peersOf_iff.1 peer'⟩
          exact brings.steady ⟨keys_atNode n key' act, overlay_atNode n key' act⟩
    · exact before there spreads

/-- whatever holds of networks in which votes are spread: votes are authentic and known to their voters, nodes pass on what
they hear if there is gossip, and nothing that peers do not know is kept from them -/
structure Disseminating (gossip : Bool) (n : Network) (queue : List ProtocolAction) : Prop where
  sourced : Truthful ∅ n ∧ ∀ a ∈ queue, Sourced n a.message
  attested : Attested n ∧ ∀ a ∈ queue, Heard n a.message.vote.voter a.message.vote
  complete : n.overlay.gossip = gossip ∧ Every (VotingState.Complete gossip) n
  spreading : Spreading n queue

theorem complete_invariant (gossip : Bool) : NodeInvariant gossip (VotingState.Complete gossip) where
  fresh key q := VotingState.complete_fresh gossip key q
  retrust _ _ h := VotingState.evaluate_complete ⟨h.heard, h.passed⟩
  vote _ s h := VotingState.vote_complete h s
  receive _ m h := VotingState.receive_complete h m

/-- every two nodes are joined by a chain of links -/
def Joined (n : Network) : Prop := ∀ a ∈ n.keys, ∀ b ∈ n.keys, Relation.ReflTransGen n.Neighbours a b

/-- all nodes can hear of all votes: in a full mesh from the voters, otherwise along links, if there is gossip -/
def Connected (n : Network) : Prop := n.overlay.fullMesh = true ∨ n.overlay.gossip = true ∧ n.Joined

theorem Connected.steady (h : n.Connected) (same : n'.keys = n.keys ∧ n'.overlay = n.overlay) : n'.Connected := by
  unfold Connected Joined at h ⊢
  rw [neighbours_steady same, same.1, same.2]
  exact h

namespace Disseminating

variable {gossip : Bool}

theorem ordered (h : Disseminating gossip n queue) {u : UserAction} (calm : Calm u) :
    Spreading (n.applyUser u).state (queue ++ (n.applyUser u).actions) := by
  cases u with
  | vote key s =>
    apply h.spreading.atNode
    · intro st _
      exact VotingState.vote_informs s
    · intro p v _ reaches
      exact reaches.ordered calm
  | updateQuorumSet key q =>
    apply h.spreading.atNode
    · intro st _
      exact .andThen (.noting rfl rfl) (VotingState.evaluate_informs _ key (n.peersOf key) { st with quorumSet := q })
    · intro p v _ reaches
      exact reaches.ordered calm
  | _ => exact absurd calm (by simp [Calm, UserAction.kind])

/-- whoever sent or cast the vote of a message under way knows it -/
theorem heard_of_knewBefore (h : Disseminating gossip n queue) {a : ProtocolAction} (ha : a ∈ queue)
    (knew : VotingState.KnewBefore a.message v p) : Heard n p v := by
  obtain ⟨rfl, rfl | rfl⟩ := knew
  · rcases (h.sourced.2 a ha).passed with cast | ⟨st, here, passed⟩
    · rw [cast]
      exact h.attested.2 a ha
    · exact ⟨st, here, (h.complete.2 _ _ here).heard _ passed⟩
  · exact h.attested.2 a ha

theorem delivered {a : ProtocolAction} (h : Disseminating gossip n (a :: queue)) :
    Spreading (n.applyProtocol a).state (queue ++ (n.applyProtocol a).actions) := by
  have waiting : (n.applyProtocol a).state = n →
      Spreading (n.applyProtocol a).state (queue ++ (n.applyProtocol a).actions) := by
    intro unchanged key st v p there spreads peer
    rw [unchanged] at there peer
    exact (h.spreading key st v p there spreads peer).delivered (mem_keys_of_mem_peersOf peer)
  rcases n.applyProtocol_cases a with ⟨unchanged, _⟩ | ⟨_, unchanged, _⟩ | ⟨_, received⟩
  · exact waiting unchanged
  · exact waiting unchanged
  · have onward : ∀ {p v}, p ∈ n.keys → Reaches n (a :: queue) p v →
        Reaches (n.applyProtocol a).state (queue ++ (n.applyProtocol a).actions) p v :=
      fun here reaches => reaches.delivered here
    rw [received] at onward ⊢
    apply h.spreading.atNode _ onward
    intro st here
    have heard := h.attested.2 a List.mem_cons_self
    refine .andThen (.noting rfl rfl) ((VotingState.receive_informs (heard.own here)).weaken fun v p knew => ?_)
    exact h.heard_of_knewBefore List.mem_cons_self knew

/-- **Nobody is left out.** Calm orders and messages that are delivered keep up the dissemination of votes. -/
theorem queued (gossip : Bool) : QueueInvariant Calm (Disseminating gossip) where
  ordered queue h calm := {
    sourced := sourced_invariant.queued.ordered queue h.sourced calm.sincere
    attested := attested_invariant.queued.ordered queue h.attested calm.sincere
    complete := (complete_invariant gossip).queued.ordered queue h.complete trivial
    spreading := h.ordered calm }
  delivered queue h := {
    sourced := sourced_invariant.queued.delivered queue h.sourced
    attested := attested_invariant.queued.delivered queue h.attested
    complete := (complete_invariant gossip).queued.delivered queue h.complete
    spreading := h.delivered }

/-! ## Nothing under way -/

theorem heard_of_spreads (h : Disseminating gossip n []) {st : VotingState} (here : n.roster.get? key = some st)
    (spreads : st.Spreads key v) (peer : n.Neighbours key p) : Heard n p v := by
  rcases h.spreading key st v p here spreads (mem_peersOf_iff.2 peer) with heard | ⟨a, ha, _⟩
  · exact heard
  · exact absurd ha List.not_mem_nil

/-- where there is gossip, what a node knows its peers know -/
theorem heard_by_peer (h : Disseminating true n []) (heard : Heard n key v) (peer : n.Neighbours key p) :
    Heard n p v := by
  obtain ⟨st, here, known⟩ := heard
  apply h.heard_of_spreads here _ peer
  rcases (h.complete.2 _ _ here).passed rfl v known with cast | passed
  · exact Or.inl ⟨cast, known⟩
  · exact Or.inr passed

/-- the induction is along the chain of links -/
theorem heard_along (h : Disseminating true n []) (heard : Heard n key v)
    (chain : Relation.ReflTransGen n.Neighbours key p) : Heard n p v := by
  induction chain with
  | refl => exact heard
  | tail _ peer ih => exact h.heard_by_peer ih peer

/-- in a full mesh the voter is a peer of everyone else, so no gossip is needed -/
theorem heard_in_mesh (h : Disseminating gossip n []) (mesh : n.overlay.fullMesh = true) (heard : Heard n key v)
    (member : p ∈ n.keys) : Heard n p v := by
  obtain ⟨st, here, known⟩ := heard
  obtain ⟨sv, there, known⟩ := h.attested.1 here (Or.inl known)
  have voter : v.voter ∈ n.keys := Roster.mem_of_get? there
  by_cases own : v.voter = p
  · exact own ▸ ⟨sv, there, known⟩
  · apply h.heard_of_spreads there (Or.inl ⟨rfl, known⟩)
    unfold Neighbours Overlay.isConnected
    simp [own, voter, member, mesh]

/-- without a full mesh it takes gossip, and a chain of links -/
theorem heard_in_component (h : Disseminating gossip n [])
    (chain : n.overlay.fullMesh = true ∨ n.overlay.gossip = true ∧ Relation.ReflTransGen n.Neighbours key p)
    (heard : Heard n key v) (member : p ∈ n.keys) : Heard n p v := by
  rcases chain with mesh | ⟨on, chain⟩
  · exact h.heard_in_mesh mesh heard member
  · cases h.complete.1.symm.trans on
    exact h.heard_along heard chain

/-- **Everyone knows everything.** Once nothing is under way, all nodes of a connected network know the same votes. -/
theorem heard_by_all (h : Disseminating gossip n []) (connected : n.Connected) (heard : Heard n key v)
    (member : p ∈ n.keys) : Heard n p v := by
  have chain := connected.imp_right (And.imp_right fun joined => joined key heard.mem_keys p member)
  exact h.heard_in_component chain heard member

end Disseminating

theorem disseminating_load {e loaded : Engine} {nodes : List Node} {links : List (NodeId × NodeId)}
    (load : e.load nodes links = .ok loaded) :
    Disseminating loaded.network.overlay.gossip loaded.network [] where
  sourced := ⟨truthful_load load, fun _ ha => absurd ha List.not_mem_nil⟩
  attested := by
    refine ⟨fun here hv => ?_, fun _ ha => absurd ha List.not_mem_nil⟩
    exact absurd hv (Engine.not_holds_load load here _)
  complete := by
    refine ⟨rfl, fun key st here => ?_⟩
    obtain ⟨q, _, rfl⟩ := Engine.get?_load load here
    exact VotingState.complete_fresh _ _ q
  spreading := by
    intro key st v p here spreads _
    exact absurd (spreads.imp_left And.right) (Engine.not_holds_load load here v)

end FederatedAgreement.Network
