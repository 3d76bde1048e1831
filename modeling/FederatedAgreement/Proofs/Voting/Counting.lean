/-
Counting votes: how often a node takes one vote into account. Votes that arrive are only taken into account if they are new,
but what a node casts itself is added in any case. So a vote is there twice if it came to the node in whose name it is, and
that node cast it afterwards; and no vote is there more often.

Results:
- `Move.mayCast`: what a node may still cast, it could have cast before.
- `Moves.counted`: moves keep up that only votes which were foretold are there twice.
-/
import FederatedAgreement.Proofs.Voting.Coherence

namespace FederatedAgreement.VotingState

variable {told : Vote → Prop} {asked : Statement → Prop} {node : NodeId} {st st' : VotingState}

/-! ## What is still to be cast -/

/-- the phase of the node lets it cast such a vote: an acceptance as long as nothing is accepted, another vote at the
beginning -/
def MayCast (st : VotingState) (v : Vote) : Prop := if v.isAccept then st.phase < .accepted else st.phase = .unknown

instance (st : VotingState) (v : Vote) : Decidable (st.MayCast v) := by
  unfold MayCast
  infer_instance

theorem Move.mayCast (m : Move told asked node st st') {v : Vote} (may : st'.MayCast v) : st.MayCast v := by
  unfold MayCast at may ⊢
  cases m with
  | hear _ _ | pass _ _ _ => exact may
  | cast _ phase =>
    rw [phase]
    split
    · decide
    · rfl
  | accept _ _ _ =>
    split at may
    · exact absurd may (by decide : ¬ Phase.accepted < Phase.accepted)
    · exact absurd may nofun
  | confirm _ _ _ =>
    split at may
    · exact absurd may (by decide : ¬ Phase.confirmed < Phase.accepted)
    · exact absurd may nofun

theorem Moves.mayCast (ms : Moves told asked node st st') {v : Vote} (may : st'.MayCast v) : st.MayCast v := by
  induction ms with
  | refl => exact may
  | tail _ m ih => exact ih (m.mayCast may)

/-! ## What is there twice -/

/-- the vote is there twice; it is the node's own, which it stands behind, and it was foretold -/
structure Twice (foretold : Vote → Prop) (node : NodeId) (st : VotingState) (v : Vote) : Prop where
  count : st.processed.count v = 2
  own : v.voter = node
  cast : ¬ st.MayCast v
  stands : st.Stands v
  foretold : foretold v

/-- votes of the node's own that it may still cast are only there if they were foretold, and a vote is there once at most
or twice for that reason -/
structure Counted (foretold : Vote → Prop) (node : NodeId) (st : VotingState) : Prop where
  early : ∀ v ∈ st.processed, v.voter = node → st.MayCast v → foretold v
  count : ∀ v, st.processed.count v ≤ 1 ∨ Twice foretold node st v

variable {foretold foretold' : Vote → Prop}

theorem counted_fresh (foretold : Vote → Prop) (node : NodeId) (q : QuorumSet) : Counted foretold node (fresh q) :=
  ⟨fun _ hv => absurd hv List.not_mem_nil, fun _ => Or.inl (Nat.zero_le 1)⟩

theorem Counted.mono (h : Counted foretold node st) (more : ∀ v, foretold v → foretold' v) :
    Counted foretold' node st :=
  ⟨fun v hv own may => more v (h.early v hv own may),
    fun v => (h.count v).imp_right fun twice => { twice with foretold := more v twice.foretold }⟩

/-- what only depends on the votes and on what the node stands for does not mind whom it trusts -/
theorem Counted.retrust (h : Counted foretold node st) (q : QuorumSet) :
    Counted foretold node { st with quorumSet := q } :=
  ⟨h.early, fun v => (h.count v).imp_right fun twice => { twice with }⟩

theorem Twice.later {v : Vote} (h : Twice foretold node st v) (count : st'.processed.count v = st.processed.count v)
    (cast : st'.MayCast v → st.MayCast v) (adv : Advances st st') : Twice foretold node st' v :=
  ⟨count.trans h.count, h.own, fun may => h.cast (cast may), h.stands.later adv, h.foretold⟩

/-- a node casts a vote of its own that it could cast before -/
theorem Counted.say (h : Counted foretold node st) {v : Vote} (own : v.voter = node) (may : st.MayCast v)
    (cast : ¬ st'.MayCast v) (stands : st'.Stands v) (processed : st'.processed = st.processed ++ [v])
    (before : ∀ w, st'.MayCast w → st.MayCast w) (adv : Advances st st') : Counted foretold node st' := by
  refine ⟨fun w hw mine may' => ?_, fun w => ?_⟩
  · rw [processed] at hw
    rcases List.mem_append.1 hw with old | new
    · exact h.early w old mine (before w may')
    · rw [List.mem_singleton.1 new] at may'
      exact absurd may' cast
  · by_cases e : w = v
    · subst e
      have more : st'.processed.count w = st.processed.count w + 1 := by simp [processed]
      have once := (h.count w).resolve_right fun twice => twice.cast may
      by_cases there : w ∈ st.processed
      · have positive := List.count_pos_iff.2 there
        exact Or.inr ⟨by omega, own, cast, stands, h.early w there own may⟩
      · rw [List.count_eq_zero_of_not_mem there] at more
        exact Or.inl (Nat.le_of_eq more)
    · have same : st'.processed.count w = st.processed.count w := by simp [processed, Ne.symm e]
      exact (h.count w).imp (fun once => same ▸ once) fun twice => twice.later same (before w) adv

/-- a vote comes to the node that was not there -/
theorem Counted.hear (h : Counted foretold node st) {v : Vote} (new : v ∉ st.processed)
    (early : v.voter = node → st.MayCast v → foretold v) :
    Counted foretold node { st with processed := st.processed ++ [v] } := by
  refine ⟨fun w hw mine may => ?_, fun w => ?_⟩
  · rcases List.mem_append.1 hw with old | last
    · exact h.early w old mine may
    · rw [List.mem_singleton.1 last] at mine may ⊢
      exact early mine may
  · by_cases e : w = v
    · subst e
      refine Or.inl (Nat.le_of_eq ?_)
      simp [List.count_eq_zero_of_not_mem new]
    · have same : (st.processed ++ [v]).count w = st.processed.count w := by simp [Ne.symm e]
      refine (h.count w).imp (fun once => same ▸ once) fun twice => ?_
      exact ⟨same.trans twice.count, twice.own, twice.cast, twice.stands, twice.foretold⟩

/-- **Counting.** Moves keep up that only foretold votes are there twice, if the votes of its own that come to the node
while it may still cast them are foretold. -/
theorem Move.counted (m : Move told asked node st st') (coherent : st.Coherent node)
    (early : ∀ v, told v → v.voter = node → st.MayCast v → foretold v) (h : Counted foretold node st) :
    Counted foretold node st' := by
  have adv := m.advances coherent
  have before : ∀ w, st'.MayCast w → st.MayCast w := fun w => m.mayCast
  cases m with
  | @hear v hv new => exact h.hear new (early v hv)
  | pass _ _ _ => exact ⟨h.early, fun v => (h.count v).imp_right fun twice => twice.later rfl (before v) adv⟩
  | @cast s _ phase =>
    have may : st.MayCast ⟨s, node, false⟩ := phase
    exact h.say rfl may nofun rfl rfl before adv
  | @accept s g phase _ _ =>
    have may : st.MayCast ⟨s, node, true⟩ := phase
    exact h.say rfl may (by decide : ¬ Phase.accepted < Phase.accepted) rfl rfl before adv
  | confirm _ _ _ =>
    refine ⟨fun v hv own may => h.early v hv own (before v may), fun v => ?_⟩
    exact (h.count v).imp_right fun twice => twice.later rfl (before v) adv

theorem Moves.counted (ms : Moves told asked node st st') (coherent : st.Coherent node)
    (early : ∀ v, told v → v.voter = node → st.MayCast v → foretold v) (h : Counted foretold node st) :
    Counted foretold node st' := by
  induction ms with
  | refl => exact h
  | tail ms m ih =>
    exact m.counted (Moves.coherent ms coherent) (fun v hv own may => early v hv own (Moves.mayCast ms may)) ih

end FederatedAgreement.VotingState
