/-
Spreading: what a node owes its peers. A node spreads the votes that it cast itself and those that it passes on. Whenever
a rule adds a vote to these, the node sends it to all its peers at once, but for those that sent or cast it.

Results:
- `evaluate_informs`, `vote_informs`, `receive_informs`: each rule tells the peers what is new.
- `vote_complete`, `receive_complete`: where there is gossip, a node spreads all that it took into account, and it never
  spreads anything else.
- `process_processed`: a vote that was processed has been taken into account.
-/
import FederatedAgreement.Proofs.Voting.Exhaustion

namespace FederatedAgreement.VotingState

/-- the node spreads the vote: it cast it itself, or passed it on -/
def Spreads (node : NodeId) (st : VotingState) (v : Vote) : Prop :=
  v.voter = node ∧ v ∈ st.processed ∨ v ∈ st.forwarded

/-! ## What is new to the peers -/

/-- no vote is forgotten, and every vote that the node spreads from now on goes to each peer that was not told before -/
structure Informs (node : NodeId) (peers : List NodeId) (told : Vote → NodeId → Prop) (st : VotingState)
    (o : Outcome VotingState) : Prop where
  processed : st.processed <+: o.state.processed
  news : ∀ v, o.state.Spreads node v → st.Spreads node v ∨
    ∀ p ∈ peers, told v p ∨ ProtocolAction.send ⟨node, p, v⟩ ∈ o.actions

variable {node : NodeId} {peers : List NodeId} {told : Vote → NodeId → Prop} {st : VotingState}

theorem Informs.still : Informs node peers told st (.still st) := ⟨List.prefix_refl _, fun _ h => Or.inl h⟩

/-- a node that only trusts others from now on has nothing to tell -/
theorem Informs.noting {st' : VotingState} {e : Event} (processed : st'.processed = st.processed)
    (forwarded : st'.forwarded = st.forwarded) : Informs node peers told st (.noting st' e) := by
  refine ⟨processed ▸ List.prefix_refl _, fun v spreads => Or.inl ?_⟩
  unfold Spreads at spreads ⊢
  rwa [Outcome.noting, processed, forwarded] at spreads

theorem Informs.andThen {o : Outcome VotingState} {next : VotingState → Outcome VotingState}
    (h : Informs node peers told st o) (h' : Informs node peers told o.state (next o.state)) :
    Informs node peers told st (o.andThen next) := by
  refine ⟨h.processed.trans h'.processed, fun v spreads => ?_⟩
  rcases h'.news v spreads with before | later
  · refine (h.news v before).imp_right fun all p hp => ?_
    exact (all p hp).imp_right (List.mem_append_left _)
  · exact Or.inr fun p hp => (later p hp).imp_right (List.mem_append_right _)

theorem Informs.weaken {told' : Vote → NodeId → Prop} {o : Outcome VotingState} (h : Informs node peers told st o)
    (imp : ∀ v p, told v p → told' v p) : Informs node peers told' st o := by
  refine ⟨h.processed, fun v spreads => (h.news v spreads).imp_right fun all p hp => ?_⟩
  exact (all p hp).imp_left (imp v p)

theorem mem_broadcast {v : Vote} {p : NodeId} (h : p ∈ peers) :
    ProtocolAction.send ⟨node, p, v⟩ ∈ broadcast node v peers := List.mem_map_of_mem h

/-- a node that takes a vote of its own into account and tells all peers has told them what is new -/
theorem informs_of_broadcast {o : Outcome VotingState} {own : Vote}
    (processed : o.state.processed = st.processed ++ [own]) (forwarded : o.state.forwarded = st.forwarded)
    (actions : o.actions = broadcast node own peers) : Informs node peers told st o := by
  refine ⟨processed ▸ List.prefix_append _ _, fun v spreads => ?_⟩
  unfold Spreads at spreads
  rw [processed, forwarded] at spreads
  rcases spreads with ⟨cast, hv⟩ | passed
  · rcases List.mem_append.1 hv with old | new
    · exact Or.inl (Or.inl ⟨cast, old⟩)
    · rw [List.mem_singleton.1 new, actions]
      exact Or.inr fun p hp => Or.inr (mem_broadcast hp)
  · exact Or.inl (Or.inr passed)

theorem evaluate_informs (told : Vote → NodeId → Prop) (node : NodeId) (peers : List NodeId) (st : VotingState) :
    Informs node peers told st (st.evaluate node peers) := by
  obtain ⟨forwarded, ⟨_, processed, _⟩ | ⟨s, actions, processed, _⟩⟩ := evaluate_cases node peers st
  · refine ⟨processed ▸ List.prefix_refl _, fun v spreads => Or.inl ?_⟩
    unfold Spreads at spreads ⊢
    rwa [processed, forwarded] at spreads
  · exact informs_of_broadcast processed forwarded actions

theorem vote_informs (s : Statement) : Informs node peers told st (st.vote node peers s) := by
  unfold vote
  split
  · exact .noting rfl rfl
  · refine Informs.andThen ?_ (evaluate_informs told node peers _)
    exact informs_of_broadcast rfl rfl rfl

/-- the peer sent the vote to the node, or cast it -/
def KnewBefore (m : Message) (v : Vote) (p : NodeId) : Prop := v = m.vote ∧ (p = m.sender ∨ p = m.vote.voter)

theorem relay_informs (m : Message) : Informs node peers (KnewBefore m) st (st.relay node peers m) := by
  unfold relay
  split
  · exact .still
  · refine ⟨List.prefix_refl _, fun v spreads => ?_⟩
    rcases spreads with own | passed
    · exact Or.inl (Or.inl own)
    · rcases List.mem_append.1 passed with old | new
      · exact Or.inl (Or.inr old)
      · rw [List.mem_singleton.1 new]
        refine Or.inr fun p hp => ?_
        by_cases knew : p = m.sender ∨ p = m.vote.voter
        · exact Or.inl ⟨rfl, knew⟩
        · refine Or.inr (mem_broadcast (List.mem_filter.2 ⟨hp, ?_⟩))
          simpa using not_or.1 knew

/-- a vote of the node's own that comes back is not new to the node -/
theorem process_informs {v : Vote} (own : v.voter = node → v ∈ st.processed) :
    Informs node peers told st (st.process node peers v) := by
  unfold process
  split
  · exact .still
  · next new =>
    have rest := evaluate_informs told node peers { st with processed := st.processed ++ [v] }
    refine ⟨(List.prefix_append _ _).trans rest.processed, fun w spreads => ?_⟩
    refine (rest.news w spreads).imp_left fun before => ?_
    rcases before with ⟨cast, hw⟩ | passed
    · rcases List.mem_append.1 hw with old | heard
      · exact Or.inl ⟨cast, old⟩
      · rw [List.mem_singleton.1 heard] at cast
        exact absurd (own cast) new
    · exact Or.inr passed

theorem relay_processed (m : Message) : (st.relay node peers m).state.processed = st.processed := by
  unfold relay
  split <;> rfl

theorem receive_informs {gossip : Bool} {m : Message} (own : m.vote.voter = node → m.vote ∈ st.processed) :
    Informs node peers (KnewBefore m) st (st.receive node peers gossip m) := by
  unfold receive
  split
  · refine (relay_informs m).andThen (process_informs fun cast => ?_)
    rw [relay_processed]
    exact own cast
  · exact Informs.still.andThen (process_informs own)

theorem process_processed (node : NodeId) (peers : List NodeId) (st : VotingState) (v : Vote) :
    v ∈ (st.process node peers v).state.processed := by
  unfold process
  split
  · next known => exact known
  · have grown := (evaluate_informs (fun _ _ => False) node peers { st with processed := st.processed ++ [v] }).processed
    exact grown.subset (List.mem_append_right _ (List.mem_singleton_self v))

theorem receive_processed (node : NodeId) (peers : List NodeId) (gossip : Bool) (st : VotingState) (m : Message) :
    m.vote ∈ (st.receive node peers gossip m).state.processed := by
  unfold receive
  exact process_processed node peers _ m.vote

/-! ## Nothing else and nothing less -/

/-- votes that were passed on were taken into account, and where there is gossip, a vote that was taken into account is
the node's own or was passed on -/
structure Complete (gossip : Bool) (node : NodeId) (st : VotingState) : Prop where
  heard : ∀ v ∈ st.forwarded, v ∈ st.processed
  passed : gossip = true → ∀ v ∈ st.processed, v.voter = node ∨ v ∈ st.forwarded

variable {gossip : Bool}

theorem complete_fresh (gossip : Bool) (node : NodeId) (q : QuorumSet) : Complete gossip node (fresh q) :=
  ⟨fun _ => nofun, fun _ _ => nofun⟩

/-- a node that takes one more vote of its own into account -/
theorem Complete.cast {st' : VotingState} (h : Complete gossip node st) {own : Vote} (cast : own.voter = node)
    (processed : st'.processed = st.processed ++ [own]) (forwarded : st'.forwarded = st.forwarded) :
    Complete gossip node st' := by
  refine ⟨fun v hv => ?_, fun on v hv => ?_⟩
  · rw [forwarded] at hv
    rw [processed]
    exact List.mem_append_left _ (h.heard v hv)
  · rw [processed] at hv
    rw [forwarded]
    rcases List.mem_append.1 hv with old | new
    · exact h.passed on v old
    · rw [List.mem_singleton.1 new]
      exact Or.inl cast

theorem evaluate_complete (h : Complete gossip node st) : Complete gossip node (st.evaluate node peers).state := by
  obtain ⟨forwarded, ⟨_, processed, _⟩ | ⟨s, _, processed, _⟩⟩ := evaluate_cases node peers st
  · refine ⟨?_, ?_⟩
    · rw [forwarded, processed]
      exact h.heard
    · rw [forwarded, processed]
      exact h.passed
  · exact h.cast rfl processed forwarded

theorem vote_complete (h : Complete gossip node st) (s : Statement) :
    Complete gossip node (st.vote node peers s).state := by
  unfold vote
  split
  · exact h
  · exact evaluate_complete (h.cast rfl rfl rfl)

/-- between passing a vote on and taking it into account a node is not complete, so the two go together -/
theorem receive_complete (h : Complete gossip node st) (m : Message) :
    Complete gossip node (st.receive node peers gossip m).state := by
  have processing : ∀ st' : VotingState, st'.processed = st.processed →
      (∀ v ∈ st'.forwarded, v = m.vote ∨ v ∈ st.forwarded) → (∀ v ∈ st.forwarded, v ∈ st'.forwarded) →
      (gossip = true → m.vote.voter = node ∨ m.vote ∈ st'.forwarded) →
      Complete gossip node (st'.process node peers m.vote).state := by
    intro st' processed origin kept passed
    have before : ∀ v ∈ st.processed, gossip = true → v.voter = node ∨ v ∈ st'.forwarded :=
      fun v hv on => (h.passed on v hv).imp_right (kept v)
    unfold process
    rw [processed]
    split
    · next known =>
      refine ⟨fun v hv => ?_, fun on v hv => before v (processed ▸ hv) on⟩
      rw [Outcome.still, processed]
      rcases origin v hv with rfl | hv
      · exact known
      · exact h.heard v hv
    · refine evaluate_complete ⟨fun v hv => ?_, fun on v hv => ?_⟩
      · rcases origin v hv with rfl | hv
        · exact List.mem_append_right _ (List.mem_singleton_self _)
        · exact List.mem_append_left _ (h.heard v hv)
      · rcases List.mem_append.1 hv with hv | hv
        · exact before v hv on
        · rw [List.mem_singleton.1 hv]
          exact passed on
  unfold receive
  split
  · next on =>
    unfold relay
    split
    · next skipped =>
      exact processing st rfl (fun v hv => Or.inr hv) (fun v hv => hv) fun _ => skipped
    · refine processing _ rfl (fun v hv => ?_) (fun v hv => List.mem_append_left _ hv) fun _ => Or.inr ?_
      · exact (List.mem_append.1 hv).symm.imp_left List.mem_singleton.1
      · exact List.mem_append_right _ (List.mem_singleton_self _)
  · next off =>
    exact processing st rfl (fun v hv => Or.inr hv) (fun v hv => hv) fun on => absurd on off

end FederatedAgreement.VotingState
