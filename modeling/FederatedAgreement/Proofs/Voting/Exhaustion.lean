/-
Exhaustion: after each rule there is nothing left for the node to do. Nothing that it heard of can be accepted, unless it
has accepted something, and what it accepted cannot be confirmed, unless it is. So the rules need not be applied again
before the node hears something new or trusts others.

Results:
- `tryAccept_cases`, `tryConfirm_cases`: all that the two rules can do.
- `evaluate_cases`: applying them says at most one thing, the acceptance.
- `evaluate_exhausted`, `vote_exhausted`, `receive_exhausted`: nothing is left to do after any rule.
- `Exhausted.evaluate_eq_still`: then the rules do nothing.
-/
import FederatedAgreement.Proofs.Voting.Moves

namespace FederatedAgreement.VotingState

variable {node : NodeId} {peers : List NodeId} {st : VotingState}

/-! ## What the rules can do -/

/-- the state of a node that accepts a statement -/
def accepting (st : VotingState) (node : NodeId) (s : Statement) : VotingState :=
  { st with
    phase := .accepted
    voted := st.voted.or (some s)
    accepted := some s
    processed := st.processed ++ [⟨s, node, true⟩] }

/-- a node accepts nothing, as nothing can be accepted or something was, or it accepts a statement and tells its peers -/
theorem tryAccept_cases (node : NodeId) (peers : List NodeId) (st : VotingState) :
    (st.tryAccept node peers = .still st ∧
      (st.phase < .accepted → ∀ s ∈ st.knownStatements, st.ground? s = none)) ∨
    ∃ s, st.phase < .accepted ∧ (st.tryAccept node peers).state = st.accepting node s ∧
      (st.tryAccept node peers).actions = broadcast node ⟨s, node, true⟩ peers := by
  unfold tryAccept
  by_cases phase : st.phase < .accepted
  · rw [if_pos phase]
    cases found : st.acceptable? with
    | none =>
      refine Or.inl ⟨rfl, fun _ s known => ?_⟩
      have none := List.findSome?_eq_none_iff.1 found s known
      exact Option.map_eq_none_iff.1 none
    | some p => exact Or.inr ⟨p.1, phase, rfl, rfl⟩
  · rw [if_neg phase]
    exact Or.inl ⟨rfl, fun below => absurd below phase⟩

/-- a node confirms nothing, as nothing that it accepted waits for it or too few others accepted it, or it confirms what
it accepted -/
theorem tryConfirm_cases (node : NodeId) (st : VotingState) :
    (st.tryConfirm node = .still st ∧
      (st.phase = .accepted → ∀ s, st.accepted = some s → st.quorumSet.isSlice (st.acceptersOf s) = false)) ∨
    ∃ s, st.phase = .accepted ∧ (st.tryConfirm node).state = { st with phase := .confirmed, confirmed := some s } ∧
      (st.tryConfirm node).actions = [] := by
  unfold tryConfirm
  split
  · next s accepted =>
    split
    · next enough => exact Or.inr ⟨s, enough.1, rfl, rfl⟩
    · next few =>
      refine Or.inl ⟨rfl, fun phase t same => ?_⟩
      cases accepted.symm.trans same
      rw [← Bool.not_eq_true]
      exact fun slice => few ⟨phase, slice⟩
  · next none =>
    refine Or.inl ⟨rfl, fun _ s accepted => ?_⟩
    exact absurd (none.symm.trans accepted) nofun

/-- **One thing at most is said.** Either nothing is accepted, or the node's own acceptance is taken into account and
told to all peers; nothing else is said or heard. -/
theorem evaluate_cases (node : NodeId) (peers : List NodeId) (st : VotingState) :
    (st.evaluate node peers).state.forwarded = st.forwarded ∧
    (((st.evaluate node peers).actions = [] ∧ (st.evaluate node peers).state.processed = st.processed ∧
        ((st.evaluate node peers).state.phase < .accepted → st.phase < .accepted)) ∨
      ∃ s, (st.evaluate node peers).actions = broadcast node ⟨s, node, true⟩ peers ∧
        (st.evaluate node peers).state.processed = st.processed ++ [⟨s, node, true⟩] ∧
        st.phase < .accepted ∧ ¬ (st.evaluate node peers).state.phase < .accepted) := by
  have confirming : ∀ st : VotingState, (st.tryConfirm node).state.forwarded = st.forwarded ∧
      (st.tryConfirm node).actions = [] ∧ (st.tryConfirm node).state.processed = st.processed ∧
      ((st.tryConfirm node).state.phase < .accepted → st.phase < .accepted) := by
    intro st
    rcases tryConfirm_cases node st with ⟨still, _⟩ | ⟨s, _, state, actions⟩
    · rw [still]
      exact ⟨rfl, rfl, rfl, id⟩
    · rw [state, actions]
      exact ⟨rfl, rfl, rfl, fun below => absurd below (by decide : ¬ Phase.confirmed < Phase.accepted)⟩
  obtain ⟨forwarded, silent, processed, phase⟩ := confirming (st.tryAccept node peers).state
  unfold evaluate Outcome.andThen
  dsimp only
  rw [forwarded, silent, processed, List.append_nil]
  rcases tryAccept_cases node peers st with ⟨still, _⟩ | ⟨s, below, state, actions⟩
  · rw [still] at phase ⊢
    exact ⟨rfl, Or.inl ⟨rfl, rfl, phase⟩⟩
  · rw [state] at phase ⊢
    refine ⟨rfl, Or.inr ⟨s, actions, rfl, below, fun still_below => ?_⟩⟩
    exact absurd (phase still_below) (by decide : ¬ Phase.accepted < Phase.accepted)

/-- whoever is asked to vote has come past the beginning thereafter -/
theorem vote_phase_ne (node : NodeId) (peers : List NodeId) (s : Statement) (st : VotingState) :
    (st.vote node peers s).state.phase ≠ .unknown := by
  unfold vote
  split
  · next past => exact past
  · have cast : ({ st with
        phase := .voted
        voted := some s
        processed := st.processed ++ [⟨s, node, false⟩] } : VotingState).phase ≠ .unknown := by simp
    exact (evaluate_acts (fun _ => False) (fun _ => False) node peers _).moves.phase_ne cast

/-! ## Nothing left to do -/

/-- no statement that was heard of can be accepted, unless one was, and what was accepted cannot be confirmed, unless it
is -/
structure Exhausted (st : VotingState) : Prop where
  accept : st.phase < .accepted → ∀ s ∈ st.knownStatements, st.ground? s = none
  confirm : st.phase = .accepted → ∀ s, st.accepted = some s → st.quorumSet.isSlice (st.acceptersOf s) = false

theorem exhausted_fresh (q : QuorumSet) : (fresh q).Exhausted := by
  refine ⟨fun _ s known => ?_, nofun⟩
  obtain ⟨v, hv, _⟩ := mem_knownStatements.1 known
  exact absurd hv List.not_mem_nil

/-- **Once is enough.** After one application of the rules nothing is left to do. -/
theorem evaluate_exhausted (node : NodeId) (peers : List NodeId) (st : VotingState) :
    (st.evaluate node peers).state.Exhausted := by
  have confirming : ∀ st : VotingState, (st.phase < .accepted → ∀ s ∈ st.knownStatements, st.ground? s = none) →
      (st.tryConfirm node).state.Exhausted := by
    intro st waiting
    rcases tryConfirm_cases node st with ⟨still, unconfirmed⟩ | ⟨s, _, state, _⟩
    · rw [still]
      exact ⟨waiting, unconfirmed⟩
    · rw [state]
      exact ⟨fun below => absurd below (by decide : ¬ Phase.confirmed < Phase.accepted), nofun⟩
  unfold evaluate Outcome.andThen
  rcases tryAccept_cases node peers st with ⟨still, waiting⟩ | ⟨s, _, state, _⟩
  · rw [still]
    exact confirming st waiting
  · rw [state]
    exact confirming _ fun below => absurd below (by decide : ¬ Phase.accepted < Phase.accepted)

/-- without anything left to do the rules do nothing, and say nothing -/
theorem Exhausted.evaluate_eq_still (h : st.Exhausted) (node : NodeId) (peers : List NodeId) :
    st.evaluate node peers = .still st := by
  have accepting : st.tryAccept node peers = .still st := by
    unfold tryAccept
    split
    · next below =>
      have nothing : st.acceptable? = none := by
        refine List.findSome?_eq_none_iff.2 fun s known => ?_
        rw [h.accept below s known, Option.map_none]
      rw [nothing]
    · rfl
  have confirming : st.tryConfirm node = .still st := by
    unfold tryConfirm
    split
    · next s accepted =>
      refine if_neg fun enough => ?_
      rw [h.confirm enough.1 s accepted] at enough
      exact absurd enough.2 (by decide)
    · rfl
  rw [evaluate, accepting, Outcome.still_andThen, confirming]

theorem vote_exhausted (h : st.Exhausted) (s : Statement) : (st.vote node peers s).state.Exhausted := by
  unfold vote
  split
  · exact h
  · exact evaluate_exhausted node peers _

/-- passing a vote on is nothing to the rules -/
theorem relay_exhausted (h : st.Exhausted) (m : Message) : (st.relay node peers m).state.Exhausted := by
  unfold relay
  split
  · exact h
  · exact ⟨h.accept, h.confirm⟩

theorem process_exhausted (h : st.Exhausted) (v : Vote) : (st.process node peers v).state.Exhausted := by
  unfold process
  split
  · exact h
  · exact evaluate_exhausted node peers _

theorem receive_exhausted (h : st.Exhausted) (gossip : Bool) (m : Message) :
    (st.receive node peers gossip m).state.Exhausted := by
  unfold receive
  refine process_exhausted ?_ m.vote
  split
  · exact relay_exhausted h m
  · exact h

end FederatedAgreement.VotingState
