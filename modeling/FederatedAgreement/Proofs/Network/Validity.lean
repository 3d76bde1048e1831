/-
Validity: nodes make nothing up. What a node votes for, accepts or confirms, and what the votes are about that it took
into account, passed on or sent, was brought up by an operator, who asked some node to vote for it or had a message
forged about it. It does not matter who trusts whom, who comes and goes, and which messages are lost.

Results:
- `Move.mentions`: a statement that is new to a node was told to it, or it was asked to vote for it.
- `topical_invariant`: as long as operators bring up nothing else, nodes mention nothing else.
- `nothing_made_up`: **no statement is made up**, in any rounds.
-/
import FederatedAgreement.Proofs.Network.Nodes
import FederatedAgreement.Proofs.Network.Rounds

namespace FederatedAgreement

variable {s : Statement}

/-! ## Statements of a node -/

namespace VotingState

variable {told : Vote → Prop} {asked : Statement → Prop} {node : NodeId} {st st' : VotingState}

/-- the node stands for the statement, or holds a vote about it -/
inductive Mentions (st : VotingState) (s : Statement) : Prop
  | voted (h : st.voted = some s) : Mentions st s
  | accepted (h : st.accepted = some s) : Mentions st s
  | confirmed (h : st.confirmed = some s) : Mentions st s
  | held {v : Vote} (h : st.Holds v) (about : v.statement = s) : Mentions st s

theorem not_mentions_fresh (q : QuorumSet) (s : Statement) : ¬ (fresh q).Mentions s := by
  intro mentioned
  cases mentioned with
  | voted h | accepted h | confirmed h => exact absurd h nofun
  | held h _ => exact not_holds_fresh q _ h

/-- what a node heard of, it mentions -/
theorem mentions_of_known (known : s ∈ st.knownStatements) : st.Mentions s := by
  obtain ⟨v, hv, about⟩ := mem_knownStatements.1 known
  exact .held (Or.inl hv) about

/-- where the statements that a node mentions come from -/
theorem Move.mentions (m : Move told asked node st st') (h : st'.Mentions s) :
    st.Mentions s ∨ (∃ v, told v ∧ v.statement = s) ∨ asked s := by
  cases h with
  | voted h =>
    cases m with
    | hear | pass | confirm => exact Or.inl (.voted h)
    | cast ordered _ =>
      cases h
      exact Or.inr (Or.inr ordered)
    | accept _ known _ =>
      -- an acceptance is a vote only for a node that has not voted
      rcases Option.or_eq_some_iff.1 h with before | ⟨_, new⟩
      · exact Or.inl (.voted before)
      · cases new
        exact Or.inl (mentions_of_known known)
  | accepted h =>
    cases m with
    | hear | pass | cast | confirm => exact Or.inl (.accepted h)
    | accept _ known _ =>
      cases h
      exact Or.inl (mentions_of_known known)
  | confirmed h =>
    cases m with
    | hear | pass | cast | accept => exact Or.inl (.confirmed h)
    | confirm _ accepted _ =>
      cases h
      exact Or.inl (.accepted accepted)
  | held h about =>
    rcases m.held h with before | heard | cast
    · exact Or.inl (.held before about)
    · exact Or.inr (Or.inl ⟨_, heard, about⟩)
    · rcases cast.reason with ⟨_, ordered⟩ | ⟨_, known, _⟩
      · exact Or.inr (Or.inr (about ▸ ordered))
      · exact Or.inl (about ▸ mentions_of_known known)

end VotingState

/-! ## Statements in a network -/

/-- the statement that an order brings up: an order to vote, or one to forge a message -/
def UserAction.statement? : UserAction → Option Statement
  | .vote _ s => some s
  | .forge m => some m.vote.statement
  | _ => none

namespace Network

variable {allowed : UserAction → Prop} {given : Message → Prop}

theorem Turn.mentions {key : NodeId} {st st' : VotingState} (t : Turn allowed given key st st') (h : st'.Mentions s) :
    st.Mentions s ∨ (∃ v, Carried given v ∧ v.statement = s) ∨ allowed (.vote key s) := by
  cases t with
  | same => exact Or.inl h
  | move m => exact m.mentions h
  | retrust _ =>
    refine Or.inl ?_
    cases h with
    | voted h => exact .voted h
    | accepted h => exact .accepted h
    | confirmed h => exact .confirmed h
    | held h about => exact .held h about

/-- the order brings up nothing but topics -/
def OnTopic (topic : Statement → Prop) (u : UserAction) : Prop := ∀ s, u.statement? = some s → topic s

/-- **Topics.** As long as operators bring up topics only, the nodes mention topics only, and so do the messages under
way. -/
theorem topical_invariant (topic : Statement → Prop) :
    Invariant (OnTopic topic) (Every fun _ st => ∀ s, st.Mentions s → topic s) fun _ m => topic m.vote.statement where
  holds := by
    intro n n' h c key st' there s mentioned
    rcases c.origin there with ⟨st, here, turn⟩ | ⟨q, _, _, rfl⟩
    · rcases turn.mentions mentioned with before | ⟨v, ⟨m, good, rfl⟩, rfl⟩ | ordered
      · exact h key st here s before
      · exact good
      · exact ordered s rfl
    · exact absurd mentioned (VotingState.not_mentions_fresh q s)
  good _ _ hm := hm
  sent h here sends := h _ _ here _ (.held sends.holds rfl)
  forged _ ordered := ordered _ rfl

end Network

/-! ## Main result -/

/-- some order of the rounds brings the statement up -/
def BroughtUp (rounds : List Round) (s : Statement) : Prop := ∃ r ∈ rounds, ∃ u ∈ r.orders, u.statement? = some s

/-- **No statement is made up.** Let a network be loaded, and let any rounds pass, with orders of all kinds and with any
messages disrupted. What a node voted for, accepted or confirmed, what the votes are about that it took into account or
passed on, and what the messages under way are about, are statements that some order of these rounds brought up. -/
theorem nothing_made_up {e loaded : Engine} {nodes : List Node} {links : List (NodeId × NodeId)}
    (load : e.load nodes links = .ok loaded) (rounds : List Round) :
    (∀ key st, ((Session.start loaded).run rounds).state? key = some st →
      (∀ s, st.voted = some s ∨ st.accepted = some s ∨ st.confirmed = some s → BroughtUp rounds s) ∧
      ∀ v, v ∈ st.processed ∨ v ∈ st.forwarded → BroughtUp rounds v.statement) ∧
    ∀ a ∈ ((Session.start loaded).run rounds).pending, BroughtUp rounds a.message.vote.statement := by
  have ordered : ∀ r ∈ rounds, ∀ u ∈ r.orders, Network.OnTopic (BroughtUp rounds) u :=
    fun r hr u hu s hs => ⟨r, hr, u, hu, hs⟩
  have silent : Network.Every (fun _ st => ∀ s, st.Mentions s → BroughtUp rounds s) loaded.network := by
    intro key st here s mentioned
    obtain ⟨q, _, rfl⟩ := Engine.get?_load load here
    exact absurd mentioned (VotingState.not_mentions_fresh q s)
  have nothing_pending : ∀ a ∈ (Session.start loaded).pending, BroughtUp rounds a.message.vote.statement :=
    fun a ha => absurd ha List.not_mem_nil
  obtain ⟨topical, pending⟩ := (Network.topical_invariant (BroughtUp rounds)).run ordered silent nothing_pending
  refine ⟨fun key st here => ⟨fun s stands => ?_, fun v held => ?_⟩, pending⟩
  · rcases stands with voted | accepted | confirmed
    · exact topical key st here s (.voted voted)
    · exact topical key st here s (.accepted accepted)
    · exact topical key st here s (.confirmed confirmed)
  · exact topical key st here v.statement (.held held rfl)

/-- "G" needs both of two members, one of which is a quorum set without members, so that everything blocks it -/
def gullibleAndTwo : List Node :=
  [⟨"G", ⟨⟨2, ["F"], [⟨1, [], []⟩]⟩, by decide⟩⟩, ⟨"F", .flat 1 ["G"] (by decide)⟩, ⟨"E", .flat 1 ["E"] (by decide)⟩]

/-- a message is forged in the name of a stranger; as soon as the gullible node has accepted what it is about, that node
leaves, and it comes back as one that trusts itself -/
def rumourRounds : List Round :=
  [⟨[.forge ⟨"S", "G", ⟨"x", "S", false⟩⟩], []⟩, ⟨[], []⟩, ⟨[], []⟩,
    ⟨[.removeNode "G", .addNode "G" (.flat 1 ["G"] (by decide))], [0]⟩, ⟨[], []⟩, ⟨[], []⟩]

def rumourSession : Session := (Session.start (.ofSetup ⟨gullibleAndTwo, .bare true true⟩)).run rumourRounds

/-- "F" has come to confirm a statement that no node was asked to vote for, it passed on what "G" said before it left, and
"G", which came back, is about to hear of it: this is what the forged message was about -/
theorem rumour_brought_up :
    (Engine.bare true true).load gullibleAndTwo [] = .ok (.ofSetup ⟨gullibleAndTwo, .bare true true⟩) ∧
    (∃ st, rumourSession.state? "F" = some st ∧ st.confirmed = some "x" ∧ ⟨"x", "G", true⟩ ∈ st.forwarded) ∧
    ProtocolAction.receive ⟨"F", "G", ⟨"x", "F", true⟩⟩ ∈ rumourSession.pending ∧ BroughtUp rumourRounds "x" := by
  have load : (Engine.bare true true).load gullibleAndTwo [] = .ok (.ofSetup ⟨gullibleAndTwo, .bare true true⟩) := by
    rfl
  have here : rumourSession.state? "F" = some
      ⟨.flat 1 ["G"] (by decide), .confirmed, some "x", some "x", some "x", [⟨"x", "G", true⟩, ⟨"x", "F", true⟩],
        [⟨"x", "G", true⟩]⟩ := by decide +kernel
  have pending : ProtocolAction.receive ⟨"F", "G", ⟨"x", "F", true⟩⟩ ∈ rumourSession.pending := by decide +kernel
  obtain ⟨stands, _⟩ := (nothing_made_up load rumourRounds).1 "F" _ here
  exact ⟨load, ⟨_, here, rfl, List.mem_cons_self⟩, pending, stands "x" (Or.inr (Or.inr rfl))⟩

end FederatedAgreement
