/-
Coherence of a node: its phase says which of its statements are set. A coherent node stays coherent whatever it does, and
it never takes anything back: phases do not go down, and what it voted for, accepted or confirmed stays.

Results:
- `Coherent.phase_eq_unknown_iff` and so on: which phase means what.
- `Move.coherent`, `Moves.coherent`: moves keep a node coherent.
- `Move.advances`, `Moves.advances`: a coherent node takes nothing back.
- `Stands.later`: what a node stands behind, it goes on standing behind.
- `Move.spoken`: nodes that have come past the beginning have cast a vote.
- `Move.founded`: what a node confirmed, one of its slices is known to have accepted.
-/
import FederatedAgreement.Proofs.QuorumSet.Slices
import FederatedAgreement.Proofs.Voting.Moves

namespace FederatedAgreement.VotingState

/-- the phase says what is set, only what was accepted is confirmed, and the node's own acceptance is among the votes -/
structure Coherent (node : NodeId) (st : VotingState) : Prop where
  voted_none : st.voted = none ↔ st.phase = .unknown
  accepted_none : st.accepted = none ↔ st.phase < .accepted
  confirmed_none : st.confirmed = none ↔ st.phase < .confirmed
  confirmed_accepted : ∀ s, st.confirmed = some s → st.accepted = some s
  own : ∀ s, st.accepted = some s → ⟨s, node, true⟩ ∈ st.processed

/-- nothing is taken back -/
structure Advances (st st' : VotingState) : Prop where
  phase : st.phase ≤ st'.phase
  voted : ∀ s, st.voted = some s → st'.voted = some s
  accepted : ∀ s, st.accepted = some s → st'.accepted = some s
  confirmed : ∀ s, st.confirmed = some s → st'.confirmed = some s
  processed : st.processed <+: st'.processed
  forwarded : st.forwarded <+: st'.forwarded

theorem Advances.refl (st : VotingState) : Advances st st :=
  ⟨Nat.le_refl _, fun _ h => h, fun _ h => h, fun _ h => h, List.prefix_refl _, List.prefix_refl _⟩

theorem Advances.trans {st st' st'' : VotingState} (h : Advances st st') (h' : Advances st' st'') : Advances st st'' where
  phase := Nat.le_trans h.phase h'.phase
  voted s hs := h'.voted s (h.voted s hs)
  accepted s hs := h'.accepted s (h.accepted s hs)
  confirmed s hs := h'.confirmed s (h.confirmed s hs)
  processed := h.processed.trans h'.processed
  forwarded := h.forwarded.trans h'.forwarded

theorem coherent_fresh (node : NodeId) (q : QuorumSet) : Coherent node (fresh q) := by
  refine ⟨?_, ?_, ?_, ?_, ?_⟩ <;> simp [fresh, Phase.lt_iff_rank, Phase.rank]

variable {told : Vote → Prop} {asked : Statement → Prop} {node : NodeId} {st st' : VotingState}

theorem Coherent.voted_of_unknown (h : Coherent node st) (phase : st.phase = .unknown) :
    st.voted = none ∧ st.accepted = none ∧ st.confirmed = none := by
  refine ⟨h.voted_none.2 phase, h.accepted_none.2 ?_, h.confirmed_none.2 ?_⟩ <;> rw [phase] <;> decide

theorem Coherent.phase_eq_unknown_iff (h : Coherent node st) :
    st.phase = .unknown ↔ st.voted = none ∧ st.accepted = none ∧ st.confirmed = none :=
  ⟨h.voted_of_unknown, fun unset => h.voted_none.1 unset.1⟩

theorem Coherent.phase_eq_voted_iff (h : Coherent node st) :
    st.phase = .voted ↔ st.voted ≠ none ∧ st.accepted = none := by
  rw [ne_eq, h.voted_none, h.accepted_none]
  cases st.phase <;> decide

theorem Coherent.phase_eq_accepted_iff (h : Coherent node st) :
    st.phase = .accepted ↔ st.accepted ≠ none ∧ st.confirmed = none := by
  rw [ne_eq, h.accepted_none, h.confirmed_none]
  cases st.phase <;> decide

theorem Coherent.phase_eq_confirmed_iff (h : Coherent node st) : st.phase = .confirmed ↔ st.confirmed ≠ none := by
  rw [ne_eq, h.confirmed_none]
  cases st.phase <;> decide

/-- whoever accepted a statement has voted, if only by accepting it -/
theorem Coherent.voted_ne_none (h : Coherent node st) (accepted : st.accepted ≠ none) : st.voted ≠ none := by
  rw [ne_eq, h.voted_none]
  intro phase
  exact accepted (h.voted_of_unknown phase).2.1

/-- a node that accepted a statement, and is not waiting to confirm it, has confirmed it -/
theorem Coherent.confirmed_of_accepted (h : Coherent node st) {s : Statement} (accepted : st.accepted = some s)
    (phase : st.phase ≠ .accepted) : st.confirmed = some s := by
  have reached : ¬ st.phase < .accepted := fun hlt => by
    rw [h.accepted_none.2 hlt] at accepted
    exact absurd accepted nofun
  cases hc : st.confirmed with
  | some t => rw [← accepted, h.confirmed_accepted t hc]
  | none =>
    have below := h.confirmed_none.1 hc
    cases hp : st.phase with
    | accepted => exact absurd hp phase
    | unknown | voted => exact absurd (by rw [hp]; decide) reached
    | confirmed => exact absurd (hp ▸ below) (by decide)

/-- a node that trusts others from now on is as coherent as before -/
theorem Coherent.retrust (h : Coherent node st) (q : QuorumSet) : Coherent node { st with quorumSet := q } :=
  ⟨h.voted_none, h.accepted_none, h.confirmed_none, h.confirmed_accepted, h.own⟩

theorem Advances.retrust (st : VotingState) (q : QuorumSet) : Advances st { st with quorumSet := q } :=
  ⟨Nat.le_refl _, fun _ h => h, fun _ h => h, fun _ h => h, List.prefix_refl _, List.prefix_refl _⟩

theorem Move.coherent (m : Move told asked node st st') (h : Coherent node st) : Coherent node st' := by
  cases m with
  | hear _ _ => exact { h with own := fun s hs => List.mem_append_left _ (h.own s hs) }
  | pass _ _ _ => exact { h with }
  | cast _ phase =>
    obtain ⟨_, accepted, confirmed⟩ := h.voted_of_unknown phase
    refine ⟨by simp, ?_, ?_, h.confirmed_accepted, fun s hs => List.mem_append_left _ (h.own s hs)⟩
    · exact iff_of_true accepted (by decide : Phase.voted < Phase.accepted)
    · exact iff_of_true confirmed (by decide : Phase.voted < Phase.confirmed)
  | accept phase _ _ =>
    have confirmed : st.confirmed = none := h.confirmed_none.2 (Nat.lt_trans phase (by decide))
    refine ⟨?_, by simp [Phase.lt_iff_rank], ?_, ?_, ?_⟩
    · cases st.voted <;> simp
    · exact iff_of_true confirmed (by decide : Phase.accepted < Phase.confirmed)
    · intro s hs
      simp [confirmed] at hs
    · intro s hs
      cases hs
      exact List.mem_append_right _ (List.mem_singleton_self _)
  | confirm phase accepted _ =>
    have voted : st.voted ≠ none := fun hv => by
      have := h.voted_none.1 hv
      rw [phase] at this
      exact absurd this (by decide)
    refine ⟨iff_of_false voted ?_, iff_of_false (by simp [accepted]) ?_, by simp [Phase.lt_iff_rank], ?_, h.own⟩
    · exact (by decide : Phase.confirmed ≠ Phase.unknown)
    · exact (by decide : ¬ Phase.confirmed < Phase.accepted)
    · intro s hs
      cases hs
      exact accepted

theorem Moves.coherent (ms : Moves told asked node st st') (h : Coherent node st) : Coherent node st' := by
  induction ms with
  | refl => exact h
  | tail _ m ih => exact m.coherent ih

theorem Move.advances (m : Move told asked node st st') (h : Coherent node st) : Advances st st' := by
  have grow := m.processed
  cases m with
  | hear _ _ | pass _ _ _ => exact { Advances.refl st with processed := grow, forwarded := by simp }
  | cast _ phase =>
    obtain ⟨voted, _, _⟩ := h.voted_of_unknown phase
    refine { Advances.refl st with phase := ?_, voted := ?_, processed := grow }
    · rw [phase]
      exact (by decide : Phase.unknown ≤ Phase.voted)
    · intro s hs
      simp [voted] at hs
  | accept phase _ _ =>
    have accepted := h.accepted_none.2 phase
    refine { Advances.refl st with phase := Nat.le_of_lt phase, voted := ?_, accepted := ?_, processed := grow }
    · intro s hs
      simp [hs]
    · intro s hs
      simp [accepted] at hs
  | confirm phase _ _ =>
    have confirmed : st.confirmed = none := h.confirmed_none.2 (by rw [phase]; decide)
    refine { Advances.refl st with phase := ?_, confirmed := ?_ }
    · rw [phase]
      exact (by decide : Phase.accepted ≤ Phase.confirmed)
    · intro s hs
      simp [confirmed] at hs

theorem Moves.advances (ms : Moves told asked node st st') (h : Coherent node st) : Advances st st' := by
  induction ms with
  | refl => exact .refl st
  | tail before m ih => exact ih.trans (m.advances (Moves.coherent before h))

theorem Advances.accepted_ne_none (h : Advances st st') (decided : st.accepted ≠ none) : st'.accepted ≠ none := by
  obtain ⟨t, ht⟩ := Option.ne_none_iff_exists'.1 decided
  rw [h.accepted t ht]
  exact nofun

theorem Advances.voted_ne_none (h : Advances st st') (cast : st.voted ≠ none) : st'.voted ≠ none := by
  obtain ⟨t, ht⟩ := Option.ne_none_iff_exists'.1 cast
  rw [h.voted t ht]
  exact nofun

/-- what a node stands behind, it goes on standing behind -/
theorem Stands.later {v : Vote} (h : st.Stands v) (adv : Advances st st') : st'.Stands v := by
  unfold Stands at h ⊢
  split at h
  · next ha =>
    rw [if_pos ha]
    exact adv.accepted _ h
  · next ha =>
    rw [if_neg ha]
    exact adv.voted _ h

/-! ## Own votes -/

/-- a node that has come past the beginning took a vote of its own into account -/
def Spoken (node : NodeId) (st : VotingState) : Prop := st.phase ≠ .unknown → ∃ v ∈ st.processed, v.voter = node

theorem spoken_fresh (node : NodeId) (q : QuorumSet) : Spoken node (fresh q) := fun past => absurd rfl past

theorem Spoken.later (h : Spoken node st) (past : st.phase ≠ .unknown) (grown : st.processed <+: st'.processed) :
    Spoken node st' := by
  intro _
  obtain ⟨v, hv, own⟩ := h past
  exact ⟨v, grown.subset hv, own⟩

/-- nodes only go on to a new phase by casting a vote, or by confirming what they accepted -/
theorem Move.spoken (m : Move told asked node st st') (h : Spoken node st) : Spoken node st' := by
  have grown := m.processed
  cases m with
  | hear _ _ | pass _ _ _ => exact fun past => h.later past grown past
  | cast _ _ | accept _ _ _ => exact fun _ => ⟨_, List.mem_append_right _ (List.mem_singleton_self _), rfl⟩
  | confirm phase _ _ => exact h.later (by rw [phase]; decide) grown

/-! ## Grounds of confirmation -/

/-- what the node confirmed is accepted by one of its slices, as far as the node knows -/
def Founded (st : VotingState) : Prop :=
  ∀ s, st.confirmed = some s → st.quorumSet.isSlice (st.acceptersOf s) = true

theorem founded_fresh (q : QuorumSet) : (fresh q).Founded := fun _ => nofun

theorem acceptersOf_mono {s : Statement} (h : st.processed <+: st'.processed) :
    st.acceptersOf s ⊆ st'.acceptersOf s := by
  intro z hz
  obtain ⟨v, hv, accept⟩ := mem_acceptersOf.1 hz
  exact mem_acceptersOf.2 ⟨v, h.subset hv, accept⟩

theorem Move.founded (m : Move told asked node st st') (h : st.Founded) : st'.Founded := by
  intro s hs
  have stays : st.confirmed = some s → st'.quorumSet.isSlice (st'.acceptersOf s) = true := by
    intro hs
    rw [m.quorumSet]
    exact st.quorumSet.isSlice_mono (acceptersOf_mono m.processed) (h s hs)
  cases m with
  | confirm _ _ enough =>
    cases hs
    exact enough
  | _ => exact stays hs

end FederatedAgreement.VotingState
