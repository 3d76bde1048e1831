/-
Gathering votes: what a node makes of the votes for a single statement, which come to it one by one while it may be asked
to vote for the statement itself. Whether it accepts, and whether it confirms, only depends on which votes there were, its
own vote among them if it was asked. They may come in any order and any number of times, and the node may be asked at
any point, even too late.

Results:
- `convincing_mono`: more votes convince no less.
- `Move.sound`, `Moves.sound`: what a node stands for, the votes it was brought account for.
- `Gathered.act`, `gathered_answered`: nothing that a node was brought is missed.
- `Gathered.outcome`: what it voted for, accepted and confirmed can be read off the votes.
- `order_of_arrival_irrelevant`: **the same votes lead to the same end**, in any order and with any repetitions.
-/
import FederatedAgreement.Proofs.Voting.Coherence
import FederatedAgreement.Proofs.Voting.Spreading

namespace FederatedAgreement

open Sorting (SortedSet)

/-! ## What is put to a node -/

/-- a message comes to a node, or the node is asked to vote, while it has certain peers -/
inductive Prompt where
  | hear (peers : List NodeId) (gossip : Bool) (m : Message)
  | ask (peers : List NodeId) (s : Statement)
deriving DecidableEq, Repr

namespace Prompt

def statement : Prompt → Statement
  | hear _ _ m => m.vote.statement
  | ask _ s => s

/-- the vote that comes with a message -/
def arriving? : Prompt → Option Vote
  | hear _ _ m => some m.vote
  | ask _ _ => none

def isAsk : Prompt → Bool
  | hear _ _ _ => false
  | ask _ _ => true

/-- the vote that the node is to take into account: the one that comes, or its own -/
def brings (node : NodeId) : Prompt → Vote
  | hear _ _ m => m.vote
  | ask _ s => ⟨s, node, false⟩

theorem brings_eq_iff {node : NodeId} {p : Prompt} {v : Vote} :
    p.brings node = v ↔ p.arriving? = some v ∨ p.isAsk = true ∧ v = ⟨p.statement, node, false⟩ := by
  cases p <;> simp [brings, arriving?, isAsk, statement, eq_comm]

theorem statement_brings (node : NodeId) (p : Prompt) : (p.brings node).statement = p.statement := by
  cases p <;> rfl

def act (node : NodeId) (st : VotingState) : Prompt → Outcome VotingState
  | hear peers gossip m => st.receive node peers gossip m
  | ask peers s => st.vote node peers s

end Prompt

namespace VotingState

/-- the state of a node with the given quorum set after the prompts -/
def answered (node : NodeId) (q : QuorumSet) (ps : List Prompt) : VotingState :=
  (Outcome.runEach (Prompt.act node) (fresh q) ps).state

/-! ## What votes speak for -/

/-- those who cast the votes -/
def votersIn (votes : List Vote) : NodeSet := SortedSet.ofList (votes.map Vote.voter)

/-- those who cast the acceptances among the votes -/
def acceptersIn (votes : List Vote) : NodeSet := SortedSet.ofList ((votes.filter Vote.isAccept).map Vote.voter)

theorem mem_votersIn {votes : List Vote} {n : NodeId} : n ∈ votersIn votes ↔ ∃ v ∈ votes, v.voter = n := by
  simp [votersIn]

theorem mem_acceptersIn {votes : List Vote} {n : NodeId} :
    n ∈ acceptersIn votes ↔ ∃ v ∈ votes, v.isAccept = true ∧ v.voter = n := by
  simp [acceptersIn, and_assoc]

theorem votersIn_mono {votes votes' : List Vote} (h : votes ⊆ votes') : votersIn votes ⊆ votersIn votes' := by
  intro n hn
  obtain ⟨v, hv, cast⟩ := mem_votersIn.1 hn
  exact mem_votersIn.2 ⟨v, h hv, cast⟩

theorem acceptersIn_mono {votes votes' : List Vote} (h : votes ⊆ votes') : acceptersIn votes ⊆ acceptersIn votes' := by
  intro n hn
  obtain ⟨v, hv, cast⟩ := mem_acceptersIn.1 hn
  exact mem_acceptersIn.2 ⟨v, h hv, cast⟩

/-- a node only knows of backers whose votes it holds -/
theorem votersFor_subset {st : VotingState} {votes : List Vote} (held : ∀ v ∈ st.processed, v ∈ votes)
    (t : Statement) : st.votersFor t ⊆ votersIn votes := by
  intro n hn
  obtain ⟨v, hv, _, cast⟩ := mem_votersFor.1 hn
  exact mem_votersIn.2 ⟨v, held v hv, cast⟩

theorem acceptersOf_subset {st : VotingState} {votes : List Vote} (held : ∀ v ∈ st.processed, v ∈ votes)
    (t : Statement) : st.acceptersOf t ⊆ acceptersIn votes := by
  intro n hn
  obtain ⟨v, hv, _, accept, cast⟩ := mem_acceptersOf.1 hn
  exact mem_acceptersIn.2 ⟨v, held v hv, accept, cast⟩

/-- it knows of all whose votes it holds, if these are about the statement -/
theorem subset_votersFor {st : VotingState} {s : Statement} {votes : List Vote}
    (held : ∀ v ∈ votes, v ∈ st.processed) (topic : ∀ v ∈ votes, v.statement = s) :
    votersIn votes ⊆ st.votersFor s := by
  intro n hn
  obtain ⟨v, hv, cast⟩ := mem_votersIn.1 hn
  exact mem_votersFor.2 ⟨v, held v hv, topic v hv, cast⟩

theorem subset_acceptersOf {st : VotingState} {s : Statement} {votes : List Vote}
    (held : ∀ v ∈ votes, v.isAccept = true → v ∈ st.processed) (topic : ∀ v ∈ votes, v.statement = s) :
    acceptersIn votes ⊆ st.acceptersOf s := by
  intro n hn
  obtain ⟨v, hv, accept, cast⟩ := mem_acceptersIn.1 hn
  exact mem_acceptersOf.2 ⟨v, held v hv accept, topic v hv, accept, cast⟩

/-- there are votes, and those who cast them satisfy the quorum set, or those who accepted block it; a quorum set that
nothing can satisfy is blocked by nobody at all, so it does not go without saying that there are votes -/
def Convincing (q : QuorumSet) (votes : List Vote) : Prop :=
  votes ≠ [] ∧ (q.isSlice (votersIn votes) = true ∨ q.isBlocking (acceptersIn votes) = true)

/-- those who accepted, and the node itself, satisfy the quorum set -/
def Conclusive (q : QuorumSet) (node : NodeId) (s : Statement) (votes : List Vote) : Prop :=
  q.isSlice (acceptersIn (⟨s, node, true⟩ :: votes)) = true

variable {q : QuorumSet} {node : NodeId} {s : Statement} {votes votes' : List Vote}

theorem convincing_mono (h : votes ⊆ votes') (convincing : Convincing q votes) : Convincing q votes' := by
  obtain ⟨some, enough⟩ := convincing
  obtain ⟨v, hv⟩ := List.exists_mem_of_ne_nil votes some
  refine ⟨List.ne_nil_of_mem (h hv), ?_⟩
  exact enough.imp (q.isSlice_mono (votersIn_mono h)) (q.isBlocking_mono (acceptersIn_mono h))

theorem conclusive_mono (h : votes ⊆ votes') (conclusive : Conclusive q node s votes) :
    Conclusive q node s votes' :=
  q.isSlice_mono (acceptersIn_mono (List.cons_subset_cons _ h)) conclusive

/-! ## Nothing without reason -/

/-- the votes account for what the node stands for, and for the votes that it holds; only its own acceptance may not be
among them -/
structure Sound (q : QuorumSet) (node : NodeId) (s : Statement) (votes : List Vote) (asked : Bool)
    (st : VotingState) : Prop where
  trusts : st.quorumSet = q
  processed : ∀ v ∈ st.processed, v ∈ votes ∨ v = ⟨s, node, true⟩ ∧ st.accepted ≠ none
  voted : ∀ t, st.voted = some t → t = s ∧ (asked = true ∨ st.accepted ≠ none)
  accepted : ∀ t, st.accepted = some t → t = s ∧ Convincing q votes
  confirmed : ∀ t, st.confirmed = some t → Conclusive q node s votes

theorem sound_fresh (q : QuorumSet) (node : NodeId) (s : Statement) : Sound q node s [] false (fresh q) :=
  ⟨rfl, fun _ => nofun, fun _ => nofun, fun _ => nofun, fun _ => nofun⟩

variable {asked asked' : Bool} {st st' : VotingState}

theorem Sound.mono (h : Sound q node s votes asked st) (more : votes ⊆ votes') (later : asked = true → asked' = true) :
    Sound q node s votes' asked' st where
  trusts := h.trusts
  processed v hv := (h.processed v hv).imp_left (more ·)
  voted t ht := (h.voted t ht).imp_right (Or.imp_left later)
  accepted t ht := (h.accepted t ht).imp_right (convincing_mono more)
  confirmed t ht := conclusive_mono more (h.confirmed t ht)

/-- as long as nothing is accepted, the votes that a node holds are among those that it was brought -/
theorem Sound.heard (h : Sound q node s votes asked st) (undecided : st.accepted = none) {v : Vote}
    (hv : v ∈ st.processed) : v ∈ votes :=
  (h.processed v hv).resolve_right fun own => own.2 undecided

/-- in any case they are among those and its own acceptance -/
theorem Sound.mem_cons (h : Sound q node s votes asked st) {v : Vote} (hv : v ∈ st.processed) :
    v ∈ (⟨s, node, true⟩ : Vote) :: votes := by
  rcases h.processed v hv with brought | own
  · exact List.mem_cons_of_mem _ brought
  · exact own.1 ▸ List.mem_cons_self

/-- whatever speaks for accepting a statement is among the votes that the node was brought -/
theorem Sound.convincing (h : Sound q node s votes asked st) (topic : ∀ v ∈ votes, v.statement = s)
    (undecided : st.accepted = none) {t : Statement} (known : t ∈ st.knownStatements) {g : Ground}
    (ground : st.ground? t = some g) : t = s ∧ Convincing q votes := by
  obtain ⟨v, hv, same⟩ := mem_knownStatements.1 known
  have held : ∀ v ∈ st.processed, v ∈ votes := fun v => h.heard undecided
  refine ⟨same ▸ topic v (held v hv), List.ne_nil_of_mem (held v hv), ?_⟩
  rw [← h.trusts]
  exact (enough_of_ground ground).imp (st.quorumSet.isSlice_mono (votersFor_subset held t))
    (st.quorumSet.isBlocking_mono (acceptersOf_subset held t))

theorem Move.sound (m : Move (· ∈ votes) (fun t => t = s ∧ asked = true) node st st') (coherent : st.Coherent node)
    (topic : ∀ v ∈ votes, v.statement = s) (own : asked = true → ⟨s, node, false⟩ ∈ votes)
    (h : Sound q node s votes asked st) : Sound q node s votes asked st' := by
  cases m with
  | @hear v brought _ =>
    refine { h with processed := fun w hw => ?_ }
    rcases List.mem_append.1 hw with old | new
    · exact h.processed w old
    · exact Or.inl (List.mem_singleton.1 new ▸ brought)
  | pass _ _ _ => exact { h with }
  | cast order _ =>
    obtain ⟨rfl, asked⟩ := order
    refine { h with processed := fun w hw => ?_, voted := fun t ht => ?_ }
    · rcases List.mem_append.1 hw with old | new
      · exact h.processed w old
      · exact Or.inl (List.mem_singleton.1 new ▸ own asked)
    · cases ht
      exact ⟨rfl, Or.inl asked⟩
  | @accept t g phase known ground =>
    have undecided := coherent.accepted_none.2 phase
    obtain ⟨rfl, convincing⟩ := h.convincing topic undecided known ground
    refine ⟨h.trusts, fun w hw => ?_, fun u hu => ?_, fun u hu => ?_, h.confirmed⟩
    · rcases List.mem_append.1 hw with old | new
      · exact Or.inl (h.heard undecided old)
      · exact Or.inr ⟨List.mem_singleton.1 new, nofun⟩
    · refine ⟨?_, Or.inr nofun⟩
      cases before : st.voted with
      | none =>
        simp only [before, Option.none_or, Option.some.injEq] at hu
        exact hu.symm
      | some v =>
        simp only [before, Option.some_or, Option.some.injEq] at hu
        exact hu ▸ (h.voted v before).1
    · cases hu
      exact ⟨rfl, convincing⟩
  | @confirm t _ _ enough =>
    refine { h with confirmed := fun _ _ => ?_ }
    rw [h.trusts] at enough
    exact q.isSlice_mono (acceptersOf_subset (fun v => h.mem_cons) t) enough

theorem Moves.sound (ms : Moves (· ∈ votes) (fun t => t = s ∧ asked = true) node st st') (coherent : st.Coherent node)
    (topic : ∀ v ∈ votes, v.statement = s) (own : asked = true → ⟨s, node, false⟩ ∈ votes)
    (h : Sound q node s votes asked st) : Sound q node s votes asked st' := by
  induction ms with
  | refl => exact h
  | tail before m ih => exact m.sound (Moves.coherent before coherent) topic own ih

/-! ## Nothing missed -/

/-- the votes account for what the node stands for, there is nothing left for it to do, and it missed none of the votes;
its own vote is only missing if it had accepted the statement before it was asked -/
structure Gathered (q : QuorumSet) (node : NodeId) (s : Statement) (votes : List Vote) (asked : Bool)
    (st : VotingState) : Prop where
  sound : Sound q node s votes asked st
  coherent : st.Coherent node
  exhausted : st.Exhausted
  heard : ∀ v ∈ votes, v ∈ st.processed ∨ v.isAccept = false ∧ st.accepted ≠ none
  topic : ∀ v ∈ votes, v.statement = s
  own : asked = true → ⟨s, node, false⟩ ∈ votes ∧ st.voted ≠ none

theorem gathered_fresh (q : QuorumSet) (node : NodeId) (s : Statement) : Gathered q node s [] false (fresh q) :=
  ⟨sound_fresh q node s, coherent_fresh node q, exhausted_fresh q, fun _ => nofun, fun _ => nofun, nofun⟩

theorem act_acts {told : Vote → Prop} {order : Statement → Prop} (p : Prompt) (heard : told (p.brings node))
    (asked : p.isAsk = true → order p.statement) : Acts told order node st (p.act node st) := by
  cases p with
  | hear peers gossip m => exact receive_acts heard
  | ask peers s => exact vote_acts (asked rfl)

theorem act_processed (node : NodeId) (p : Prompt) (st : VotingState) :
    st.processed <+: (p.act node st).state.processed := by
  have acts : Acts (fun _ => True) (fun _ => True) node st (p.act node st) := act_acts p trivial fun _ => trivial
  exact acts.moves.processed

theorem act_exhausted (h : st.Exhausted) (node : NodeId) (p : Prompt) : (p.act node st).state.Exhausted := by
  cases p with
  | hear peers gossip m => exact receive_exhausted h gossip m
  | ask peers s => exact vote_exhausted h s

theorem act_phase_ne (node : NodeId) {p : Prompt} (ask : p.isAsk = true) (st : VotingState) :
    (p.act node st).state.phase ≠ .unknown := by
  cases p with
  | hear => exact absurd ask nofun
  | ask peers s => exact vote_phase_ne node peers s st

/-- whoever is asked at the beginning takes its own vote into account -/
theorem vote_processed (phase : st.phase = .unknown) (peers : List NodeId) :
    ⟨s, node, false⟩ ∈ (st.vote node peers s).state.processed := by
  unfold vote
  rw [if_neg (not_not_intro phase)]
  have grown := (evaluate_acts (fun _ => False) (fun _ => False) node peers
    { st with phase := .voted, voted := some s, processed := st.processed ++ [⟨s, node, false⟩] }).moves.processed
  exact grown.subset (List.mem_append_right _ (List.mem_singleton_self _))

/-- a node that is asked too late has taken its own vote into account before, or has accepted the statement -/
theorem Gathered.late (h : Gathered q node s votes asked st) (past : st.phase ≠ .unknown) :
    ⟨s, node, false⟩ ∈ st.processed ∨ st.accepted ≠ none := by
  obtain ⟨t, ht⟩ := Option.ne_none_iff_exists'.1 fun none => past (h.coherent.voted_none.1 none)
  rcases (h.sound.voted t ht).2 with asked | accepted
  · exact (h.heard _ (h.own asked).1).imp_right And.right
  · exact Or.inr accepted

/-- the vote of a prompt is taken into account; only if the node is asked when it has accepted the statement, it is not -/
theorem Gathered.heard_act (h : Gathered q node s votes asked st) (p : Prompt) (about : p.statement = s) :
    p.brings node ∈ (p.act node st).state.processed ∨ (p.brings node).isAccept = false ∧ st.accepted ≠ none := by
  have grown := act_processed node p st
  cases p with
  | hear peers gossip m => exact Or.inl (receive_processed node peers gossip st m)
  | ask peers t =>
    cases about
    by_cases phase : st.phase = .unknown
    · exact Or.inl (vote_processed phase peers)
    · exact (h.late phase).imp (grown.subset ·) fun decided => ⟨rfl, decided⟩

/-- a prompt that is about the statement adds its vote to those that account for the state of the node -/
theorem Gathered.act (h : Gathered q node s votes asked st) (p : Prompt) (about : p.statement = s) :
    Gathered q node s (votes ++ [p.brings node]) (asked || p.isAsk) (p.act node st).state := by
  have more : votes ⊆ votes ++ [p.brings node] := List.subset_append_left _ _
  have last : p.brings node ∈ votes ++ [p.brings node] := List.mem_append_right _ (List.mem_singleton_self _)
  have acts : Acts (· ∈ votes ++ [p.brings node]) (fun t => t = s ∧ (asked || p.isAsk) = true) node st
      (p.act node st) :=
    act_acts p last fun ask => ⟨about, by simp [ask]⟩
  have advances := acts.moves.advances h.coherent
  have coherent := acts.moves.coherent h.coherent
  have topic : ∀ v ∈ votes ++ [p.brings node], v.statement = s := by
    intro v hv
    rcases List.mem_append.1 hv with old | new
    · exact h.topic v old
    · rw [List.mem_singleton.1 new, p.statement_brings, about]
  have own : (asked || p.isAsk) = true →
      ⟨s, node, false⟩ ∈ votes ++ [p.brings node] ∧ (p.act node st).state.voted ≠ none := by
    intro either
    rcases Bool.or_eq_true_iff.1 either with before | ask
    · exact ⟨more (h.own before).1, advances.voted_ne_none (h.own before).2⟩
    · refine ⟨?_, fun none => act_phase_ne node ask st (coherent.voted_none.1 none)⟩
      have brings : p.brings node = ⟨s, node, false⟩ := Prompt.brings_eq_iff.2 (Or.inr ⟨ask, by rw [about]⟩)
      rw [← brings]
      exact last
  refine ⟨?_, coherent, act_exhausted h.exhausted node p, fun v hv => ?_, topic, own⟩
  · -- the votes to come only matter once they are there, so the state before was sound for them as well
    have before : Sound q node s (votes ++ [p.brings node]) (asked || p.isAsk) st :=
      h.sound.mono more fun asked => by simp [asked]
    exact acts.moves.sound h.coherent topic (fun asked => (own asked).1) before
  · have heard : v ∈ (p.act node st).state.processed ∨ v.isAccept = false ∧ st.accepted ≠ none := by
      rcases List.mem_append.1 hv with old | new
      · exact (h.heard v old).imp_left (advances.processed.subset ·)
      · exact List.mem_singleton.1 new ▸ h.heard_act p about
    exact heard.imp_right (And.imp_right advances.accepted_ne_none)

theorem Gathered.runEach (h : Gathered q node s votes asked st) {ps : List Prompt} (about : ∀ p ∈ ps, p.statement = s) :
    Gathered q node s (votes ++ ps.map (Prompt.brings node)) (asked || ps.any Prompt.isAsk)
      (Outcome.runEach (Prompt.act node) st ps).state := by
  induction ps generalizing votes asked st with
  | nil => rwa [List.map_nil, List.append_nil, List.any_nil, Bool.or_false]
  | cons p ps ih =>
    obtain ⟨first, rest⟩ := List.forall_mem_cons.1 about
    have later := ih (h.act p first) rest
    rwa [List.append_assoc, List.singleton_append, Bool.or_assoc] at later

/-- a node that is fresh gathers all that the prompts bring -/
theorem gathered_answered (q : QuorumSet) (node : NodeId) {ps : List Prompt} (about : ∀ p ∈ ps, p.statement = s) :
    Gathered q node s (ps.map (Prompt.brings node)) (ps.any Prompt.isAsk) (answered node q ps) := by
  have gathered := (gathered_fresh q node s).runEach about
  rwa [List.nil_append, Bool.false_or] at gathered

/-! ## What comes of it -/

/-- the votes that convince make a node accept -/
theorem Gathered.accepts (h : Gathered q node s votes asked st) (convincing : Convincing q votes) :
    st.accepted ≠ none := by
  intro undecided
  obtain ⟨some, enough⟩ := convincing
  have held : ∀ v ∈ votes, v ∈ st.processed := fun v hv => (h.heard v hv).resolve_right fun late => late.2 undecided
  obtain ⟨v, hv⟩ := List.exists_mem_of_ne_nil votes some
  have known : s ∈ st.knownStatements := mem_knownStatements.2 ⟨v, held v hv, h.topic v hv⟩
  obtain ⟨few, weak⟩ := ground?_eq_none_iff.1 (h.exhausted.accept (h.coherent.accepted_none.1 undecided) s known)
  rw [h.sound.trusts] at few weak
  rcases enough with slice | blocking
  · exact absurd (q.isSlice_mono (subset_votersFor held h.topic) slice) (by simp [few])
  · have accepters := subset_acceptersOf (fun v hv _ => held v hv) h.topic
    exact absurd (q.isBlocking_mono accepters blocking) (by simp [weak])

/-- a node that accepted the statement, of which enough others are known to have accepted it too, confirms it -/
theorem Gathered.confirms (h : Gathered q node s votes asked st) (accepted : st.accepted = some s)
    (conclusive : Conclusive q node s votes) : st.confirmed = some s := by
  refine h.coherent.confirmed_of_accepted accepted fun waiting => ?_
  have held : ∀ v ∈ (⟨s, node, true⟩ : Vote) :: votes, v.isAccept = true → v ∈ st.processed := by
    intro v hv accept
    rcases List.mem_cons.1 hv with rfl | hv
    · exact h.coherent.own s accepted
    · exact (h.heard v hv).resolve_right fun late => by simp [late.1] at accept
  have accepters : acceptersIn (⟨s, node, true⟩ :: votes) ⊆ st.acceptersOf s :=
    subset_acceptersOf held (List.forall_mem_cons.2 ⟨rfl, h.topic⟩)
  have few := h.exhausted.confirm waiting s accepted
  rw [h.sound.trusts] at few
  exact absurd (q.isSlice_mono accepters conclusive) (by simp [few])

/-- **What comes of the votes.** A node accepts the statement if the votes are convincing, confirms it if they are
conclusive too, and has voted for it if it was asked or accepted it. -/
theorem Gathered.outcome (h : Gathered q node s votes asked st) :
    (∀ t, st.accepted = some t ↔ t = s ∧ Convincing q votes) ∧
      (∀ t, st.confirmed = some t ↔ t = s ∧ Convincing q votes ∧ Conclusive q node s votes) ∧
      ∀ t, st.voted = some t ↔ t = s ∧ (asked = true ∨ Convincing q votes) := by
  have accepted : ∀ t, st.accepted = some t ↔ t = s ∧ Convincing q votes := by
    refine fun t => ⟨h.sound.accepted t, fun ⟨same, convincing⟩ => ?_⟩
    obtain ⟨u, hu⟩ := Option.ne_none_iff_exists'.1 (h.accepts convincing)
    rw [hu, same, (h.sound.accepted u hu).1]
  refine ⟨accepted, fun t => ⟨fun confirmed => ?_, fun ⟨same, convincing, conclusive⟩ => ?_⟩, fun t => ⟨?_, ?_⟩⟩
  · obtain ⟨same, convincing⟩ := (accepted t).1 (h.coherent.confirmed_accepted t confirmed)
    exact ⟨same, convincing, h.sound.confirmed t confirmed⟩
  · rw [same]
    exact h.confirms ((accepted s).2 ⟨rfl, convincing⟩) conclusive
  · intro voted
    refine (h.sound.voted t voted).imp_right (Or.imp_right fun decided => ?_)
    obtain ⟨u, hu⟩ := Option.ne_none_iff_exists'.1 decided
    exact ((accepted u).1 hu).2
  · rintro ⟨same, reason⟩
    have cast : st.voted ≠ none := by
      rcases reason with asked | convincing
      · exact (h.own asked).2
      · exact h.coherent.voted_ne_none (h.accepts convincing)
    obtain ⟨u, hu⟩ := Option.ne_none_iff_exists'.1 cast
    rw [hu, same, (h.sound.voted u hu).1]

/-- two coherent nodes that stand for the same are in the same phase -/
theorem Coherent.phase_eq {node' : NodeId} (h : st.Coherent node) (h' : st'.Coherent node')
    (voted : st.voted = st'.voted) (accepted : st.accepted = st'.accepted) (confirmed : st.confirmed = st'.confirmed) :
    st.phase = st'.phase := by
  cases phase : st'.phase with
  | unknown => rw [h.phase_eq_unknown_iff, voted, accepted, confirmed, ← h'.phase_eq_unknown_iff, phase]
  | voted => rw [h.phase_eq_voted_iff, voted, accepted, ← h'.phase_eq_voted_iff, phase]
  | accepted => rw [h.phase_eq_accepted_iff, accepted, confirmed, ← h'.phase_eq_accepted_iff, phase]
  | confirmed => rw [h.phase_eq_confirmed_iff, confirmed, ← h'.phase_eq_confirmed_iff, phase]

/-! ## The same votes in other orders -/

theorem convincing_congr (same : ∀ v, v ∈ votes ↔ v ∈ votes') : Convincing q votes ↔ Convincing q votes' :=
  ⟨convincing_mono fun v hv => (same v).1 hv, convincing_mono fun v hv => (same v).2 hv⟩

theorem conclusive_congr (same : ∀ v, v ∈ votes ↔ v ∈ votes') :
    Conclusive q node s votes ↔ Conclusive q node s votes' :=
  ⟨conclusive_mono fun v hv => (same v).1 hv, conclusive_mono fun v hv => (same v).2 hv⟩

/-- what a node is brought are the votes that come to it, and its own if it is asked -/
theorem mem_map_brings {ps : List Prompt} (about : ∀ p ∈ ps, p.statement = s) {v : Vote} :
    v ∈ ps.map (Prompt.brings node) ↔
      v ∈ ps.filterMap Prompt.arriving? ∨ ps.any Prompt.isAsk = true ∧ v = ⟨s, node, false⟩ := by
  constructor
  · intro hv
    obtain ⟨p, hp, brings⟩ := List.mem_map.1 hv
    rcases Prompt.brings_eq_iff.1 brings with arriving | ⟨ask, own⟩
    · exact Or.inl (List.mem_filterMap.2 ⟨p, hp, arriving⟩)
    · exact Or.inr ⟨List.any_eq_true.2 ⟨p, hp, ask⟩, about p hp ▸ own⟩
  · rintro (hv | ⟨asked, own⟩)
    · obtain ⟨p, hp, arriving⟩ := List.mem_filterMap.1 hv
      exact List.mem_map.2 ⟨p, hp, Prompt.brings_eq_iff.2 (Or.inl arriving)⟩
    · obtain ⟨p, hp, ask⟩ := List.any_eq_true.1 asked
      exact List.mem_map.2 ⟨p, hp, Prompt.brings_eq_iff.2 (Or.inr ⟨ask, (about p hp).symm ▸ own⟩)⟩

/-- **Order and repetition do not matter.** Let a node with any quorum set be fresh, and let all that is put to it be
about one statement. If the same votes come to it, in whatever order and however often, from whomever and with whatever
peers and gossip there are, even votes in its own name, and if it is asked to vote in one case just as in the other, at
whatever point, then it ends in the same phase, and has voted for, accepted and confirmed the same. -/
theorem order_of_arrival_irrelevant (q : QuorumSet) (node : NodeId) {s : Statement} {ps ps' : List Prompt}
    (about : ∀ p ∈ ps, p.statement = s) (about' : ∀ p ∈ ps', p.statement = s)
    (same : ∀ v, v ∈ ps.filterMap Prompt.arriving? ↔ v ∈ ps'.filterMap Prompt.arriving?)
    (asked : ps.any Prompt.isAsk = ps'.any Prompt.isAsk) :
    (answered node q ps).phase = (answered node q ps').phase ∧
      (answered node q ps).voted = (answered node q ps').voted ∧
      (answered node q ps).accepted = (answered node q ps').accepted ∧
      (answered node q ps).confirmed = (answered node q ps').confirmed := by
  have brought : ∀ v, v ∈ ps.map (Prompt.brings node) ↔ v ∈ ps'.map (Prompt.brings node) := by
    intro v
    rw [mem_map_brings about, mem_map_brings about', same v, asked]
  have h := gathered_answered q node about
  have h' := gathered_answered q node about'
  obtain ⟨accepted, confirmed, voted⟩ := h.outcome
  obtain ⟨accepted', confirmed', voted'⟩ := h'.outcome
  have voted : (answered node q ps).voted = (answered node q ps').voted := by
    ext t
    rw [voted, voted', asked, convincing_congr brought]
  have accepted : (answered node q ps).accepted = (answered node q ps').accepted := by
    ext t
    rw [accepted, accepted', convincing_congr brought]
  have confirmed : (answered node q ps).confirmed = (answered node q ps').confirmed := by
    ext t
    rw [confirmed, confirmed', convincing_congr brought, conclusive_congr brought]
  exact ⟨h.coherent.phase_eq h'.coherent voted accepted confirmed, voted, accepted, confirmed⟩

/-- a node that trusts any two of three, itself among them -/
def anyTwo : QuorumSet := .flat 2 ["N", "O", "P"] (by decide)

/-- the node is asked first; then there come the vote of "O", twice, an echo of its own vote, and an acceptance by "P" -/
def promptly : List Prompt :=
  [.ask ["O", "P"] "x", .hear ["O", "P"] true ⟨"O", "N", ⟨"x", "O", false⟩⟩,
    .hear ["O", "P"] true ⟨"P", "N", ⟨"x", "O", false⟩⟩, .hear ["O"] false ⟨"O", "N", ⟨"x", "N", false⟩⟩,
    .hear ["O"] false ⟨"P", "N", ⟨"x", "P", true⟩⟩]

/-- the same votes come before the node is asked, which then has accepted already -/
def belatedly : List Prompt :=
  [.hear [] false ⟨"P", "N", ⟨"x", "P", true⟩⟩, .hear ["P"] true ⟨"O", "N", ⟨"x", "O", false⟩⟩,
    .hear ["O"] true ⟨"O", "N", ⟨"x", "N", false⟩⟩, .ask ["O", "P"] "x"]

/-- asked too late or in time, the node confirms, though it does not hold the same votes in the same order -/
theorem belated_answer_same :
    (∀ p ∈ promptly, p.statement = "x") ∧ (∀ p ∈ belatedly, p.statement = "x") ∧
    (∀ v, v ∈ promptly.filterMap Prompt.arriving? ↔ v ∈ belatedly.filterMap Prompt.arriving?) ∧
    promptly.any Prompt.isAsk = belatedly.any Prompt.isAsk ∧
    (answered "N" anyTwo promptly).phase = .confirmed ∧
    (answered "N" anyTwo belatedly).phase = .confirmed ∧
    (answered "N" anyTwo belatedly).voted = some "x" ∧
    (answered "N" anyTwo belatedly).accepted = some "x" ∧
    (answered "N" anyTwo belatedly).confirmed = some "x" ∧
    (answered "N" anyTwo promptly).processed ≠ (answered "N" anyTwo belatedly).processed := by
  have about : ∀ p ∈ promptly, p.statement = "x" := by simp [promptly, Prompt.statement]
  have about' : ∀ p ∈ belatedly, p.statement = "x" := by simp [belatedly, Prompt.statement]
  have same : ∀ v, v ∈ promptly.filterMap Prompt.arriving? ↔ v ∈ belatedly.filterMap Prompt.arriving? := by
    refine fun v => ⟨fun hv => ?_, fun hv => ?_⟩
    · exact (by decide : promptly.filterMap Prompt.arriving? ⊆ belatedly.filterMap Prompt.arriving?) hv
    · exact (by decide : belatedly.filterMap Prompt.arriving? ⊆ promptly.filterMap Prompt.arriving?) hv
  have asked : promptly.any Prompt.isAsk = belatedly.any Prompt.isAsk := by decide
  obtain ⟨phase, voted, accepted, confirmed⟩ := order_of_arrival_irrelevant anyTwo "N" about about' same asked
  refine ⟨about, about', same, asked, ?_⟩
  rw [← phase, ← voted, ← accepted, ← confirmed]
  decide +kernel

end VotingState

end FederatedAgreement
