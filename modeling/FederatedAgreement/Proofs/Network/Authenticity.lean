/-
Authenticity of votes: whatever is held or under way in the name of a node outside a set of bad nodes, that node stands
behind. Bad nodes may have anything said in their name. Nothing is demanded of the overlay, and nodes may come and
trust others, but none may be removed.

Results:
- `Backed.change`: a backed vote stays backed.
- `Truthful.change`: if only backed votes are under way, only backed votes come to be held.
- `invariant_of_truthful`: invariants of networks with authentic votes.
-/
import FederatedAgreement.Proofs.Network.Rounds

namespace FederatedAgreement.Network

variable {bad : NodeSet} {allowed : UserAction → Prop} {given : Message → Prop} {n n' : Network} {v : Vote}

/-- the voter is bad, or it is there and stands behind the vote -/
def Backed (bad : NodeSet) (n : Network) (v : Vote) : Prop :=
  v.voter ∈ bad ∨ ∃ st, n.roster.get? v.voter = some st ∧ st.Stands v

/-- every node is coherent and holds backed votes only -/
structure Truthful (bad : NodeSet) (n : Network) : Prop where
  coherent : ∀ {key st}, n.roster.get? key = some st → st.Coherent key
  backed : ∀ {key st v}, n.roster.get? key = some st → st.Holds v → Backed bad n v

theorem Backed.change (hv : Backed bad n v) (h : Truthful bad n) (stays : ∀ key, ¬ allowed (.removeNode key))
    (c : Change allowed given n n') : Backed bad n' v := by
  rcases hv with hbad | ⟨st, here, stands⟩
  · exact Or.inl hbad
  · obtain ⟨st', there, turn⟩ := c.forward (stays v.voter) here
    exact Or.inr ⟨st', there, stands.later (turn.advances (h.coherent here))⟩

theorem Truthful.change (h : Truthful bad n) (stays : ∀ key, ¬ allowed (.removeNode key))
    (c : Change allowed given n n') (carried : ∀ v, Carried given v → Backed bad n v) : Truthful bad n' := by
  refine ⟨fun {key st'} there => ?_, fun {key st' v} there hv => ?_⟩
  · rcases c.origin there with ⟨st, here, turn⟩ | ⟨q, _, _, rfl⟩
    · exact turn.coherent (h.coherent here)
    · exact VotingState.coherent_fresh key q
  · rcases c.origin there with ⟨st, here, turn⟩ | ⟨q, _, _, rfl⟩
    · rcases turn.held hv with hv | hv | cast
      · exact (h.backed here hv).change h stays c
      · exact (carried v hv).change h stays c
      · exact Or.inr ⟨st', cast.voter ▸ there, cast.stands⟩
    · exact absurd hv (VotingState.not_holds_fresh q v)

theorem truthful_load {e loaded : Engine} {nodes : List Node} {links : List (NodeId × NodeId)}
    (h : e.load nodes links = .ok loaded) : Truthful bad loaded.network := by
  refine ⟨fun here => ?_, fun here hv => ?_⟩
  · obtain ⟨q, _, rfl⟩ := Engine.get?_load h here
    exact VotingState.coherent_fresh _ q
  · exact absurd hv (Engine.not_holds_load h here _)

/-- **Authentic votes.** Let no node be removed, and let votes be forged in the name of bad nodes only. Then a property
that implies truthfulness, and that changes keep up as long as only backed votes are under way, is an invariant. -/
theorem invariant_of_truthful {Holds : Network → Prop} (stays : ∀ key, ¬ allowed (.removeNode key))
    (forged : ∀ m, allowed (.forge m) → m.vote.voter ∈ bad) (truthful : ∀ {n}, Holds n → Truthful bad n)
    (step : ∀ {n n'} {given : Message → Prop}, Holds n → Change allowed given n n' →
      (∀ v, Carried given v → Backed bad n v) → Holds n') :
    Invariant allowed Holds (fun n m => Backed bad n m.vote) where
  holds h c := by
    refine step h c ?_
    intro v hv
    obtain ⟨m, hm, rfl⟩ := hv
    exact hm
  good h c hm := hm.change (truthful h) stays c
  sent h here sends := (truthful h).backed here sends.holds
  forged _ ordered := Or.inl (forged _ ordered)

/-! ## Unchanged trust -/

/-- every node is one of the given nodes, and trusts as given -/
def Trusts (nodes : List Node) (n : Network) : Prop :=
  ∀ {key st}, n.roster.get? key = some st → ⟨key, st.quorumSet⟩ ∈ nodes

/-- no node may come, leave or trust others -/
structure Settled (allowed : UserAction → Prop) : Prop where
  addNode : ∀ key q, ¬ allowed (.addNode key q)
  removeNode : ∀ key, ¬ allowed (.removeNode key)
  updateQuorumSet : ∀ key q, ¬ allowed (.updateQuorumSet key q)

theorem Turn.quorumSet {key : NodeId} {st st' : VotingState} (t : Turn allowed given key st st')
    (fixed : Settled allowed) : st'.quorumSet = st.quorumSet := by
  cases t with
  | same => rfl
  | move m => exact m.quorumSet
  | retrust ordered => exact absurd ordered (fixed.updateQuorumSet _ _)

/-- where the roster is settled, every state comes from one that was there -/
theorem Change.origin_of_settled (c : Change allowed given n n') (fixed : Settled allowed) {key : NodeId}
    {st' : VotingState} (there : n'.roster.get? key = some st') :
    ∃ st, n.roster.get? key = some st ∧ Turn allowed given key st st' := by
  rcases c.origin there with h | ⟨q, ordered, _⟩
  · exact h
  · exact absurd ordered (fixed.addNode key q)

theorem Trusts.change {nodes : List Node} (h : Trusts nodes n) (fixed : Settled allowed)
    (c : Change allowed given n n') : Trusts nodes n' := by
  intro key st' there
  obtain ⟨st, here, turn⟩ := c.origin_of_settled fixed there
  rw [turn.quorumSet fixed]
  exact h here

theorem trusts_load {e loaded : Engine} {nodes : List Node} {links : List (NodeId × NodeId)}
    (h : e.load nodes links = .ok loaded) : Trusts nodes loaded.network := by
  intro key st here
  obtain ⟨q, hq, rfl⟩ := Engine.get?_load h here
  exact hq

end FederatedAgreement.Network
