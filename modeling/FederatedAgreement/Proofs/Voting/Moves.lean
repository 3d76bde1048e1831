/-
Moves of a node: the elementary changes that the rules of voting are made of. A node takes a vote into account, passes a
vote on, votes, accepts, or confirms. Every rule is a chain of moves, and all that it sends are votes that the node then
holds: its own, and those that it passed on.

Results:
- `Move.processed`, `Move.forwarded`: lists of votes only grow.
- `Move.held`: a vote that is new to a node was told to it or is its own.
- `evaluate_acts`, `vote_acts`, `receive_acts`: each rule is made of moves.
- `Acts.heeds`: a node holds what it was told and its own votes, and sends what it holds.
-/
import FederatedAgreement.Voting.Protocol
import Mathlib.Logic.Relation

namespace FederatedAgreement.VotingState

/-! ## Elementary changes -/

/-- one elementary change of the node `node`, to which the votes of `told` may have come, and which may be asked to
vote for the statements of `asked` -/
inductive Move (told : Vote → Prop) (asked : Statement → Prop) (node : NodeId) (st : VotingState) : VotingState → Prop
  | hear {v : Vote} (h : told v) (new : v ∉ st.processed) :
      Move told asked node st { st with processed := st.processed ++ [v] }
  | pass {v : Vote} (h : told v) (other : v.voter ≠ node) (new : v ∉ st.forwarded) :
      Move told asked node st { st with forwarded := st.forwarded ++ [v] }
  | cast {s : Statement} (h : asked s) (phase : st.phase = .unknown) :
      Move told asked node st
        { st with phase := .voted, voted := some s, processed := st.processed ++ [⟨s, node, false⟩] }
  | accept {s : Statement} {g : Ground} (phase : st.phase < .accepted) (known : s ∈ st.knownStatements)
      (ground : st.ground? s = some g) :
      Move told asked node st
        { st with
          phase := .accepted
          voted := st.voted.or (some s)
          accepted := some s
          processed := st.processed ++ [⟨s, node, true⟩] }
  | confirm {s : Statement} (phase : st.phase = .accepted) (accepted : st.accepted = some s)
      (enough : st.quorumSet.isSlice (st.acceptersOf s) = true) :
      Move told asked node st { st with phase := .confirmed, confirmed := some s }

variable {told : Vote → Prop} {asked : Statement → Prop} {node : NodeId} {st st' : VotingState}

theorem Move.quorumSet (m : Move told asked node st st') : st'.quorumSet = st.quorumSet := by
  cases m <;> rfl

theorem Move.processed (m : Move told asked node st st') : st.processed <+: st'.processed := by
  cases m with
  | pass | confirm => exact List.prefix_refl _
  | hear | cast | accept => exact List.prefix_append _ _

theorem Move.forwarded (m : Move told asked node st st') : st.forwarded <+: st'.forwarded := by
  cases m with
  | pass => exact List.prefix_append _ _
  | _ => exact List.prefix_refl _

/-- no node goes back to the beginning -/
theorem Move.phase_ne (m : Move told asked node st st') (past : st.phase ≠ .unknown) : st'.phase ≠ .unknown := by
  cases m with
  | hear | pass => exact past
  | cast | accept | confirm => simp

/-- the node stands behind the vote: it accepted the statement, or voted for it -/
def Stands (st : VotingState) (v : Vote) : Prop := (if v.isAccept then st.accepted else st.voted) = some v.statement

/-- the vote was taken into account or passed on -/
def Holds (st : VotingState) (v : Vote) : Prop := v ∈ st.processed ∨ v ∈ st.forwarded

theorem not_holds_fresh (q : QuorumSet) (v : Vote) : ¬ (fresh q).Holds v := by simp [Holds, fresh]

/-- the node has just cast the vote, because it was asked to or because something speaks for accepting the statement -/
structure Casts (asked : Statement → Prop) (node : NodeId) (st st' : VotingState) (v : Vote) : Prop where
  voter : v.voter = node
  processed : v ∈ st'.processed
  stands : st'.Stands v
  reason : v.isAccept = false ∧ asked v.statement ∨
    v.isAccept = true ∧ v.statement ∈ st.knownStatements ∧ ∃ g, st.ground? v.statement = some g

/-- where the votes that a node holds come from -/
theorem Move.held (m : Move told asked node st st') {v : Vote} (h : st'.Holds v) :
    st.Holds v ∨ told v ∨ Casts asked node st st' v := by
  cases m with
  | hear hv _ =>
    rcases h with h | h
    · rcases List.mem_append.1 h with h | h
      · exact Or.inl (Or.inl h)
      · rw [List.mem_singleton.1 h]
        exact Or.inr (Or.inl hv)
    · exact Or.inl (Or.inr h)
  | pass hv _ _ =>
    rcases h with h | h
    · exact Or.inl (Or.inl h)
    · rcases List.mem_append.1 h with h | h
      · exact Or.inl (Or.inr h)
      · rw [List.mem_singleton.1 h]
        exact Or.inr (Or.inl hv)
  | cast hs _ =>
    rcases h with h | h
    · rcases List.mem_append.1 h with old | new
      · exact Or.inl (Or.inl old)
      · cases List.mem_singleton.1 new
        exact Or.inr (Or.inr ⟨rfl, h, rfl, Or.inl ⟨rfl, hs⟩⟩)
    · exact Or.inl (Or.inr h)
  | @accept s g _ known ground =>
    rcases h with h | h
    · rcases List.mem_append.1 h with old | new
      · exact Or.inl (Or.inl old)
      · cases List.mem_singleton.1 new
        exact Or.inr (Or.inr ⟨rfl, h, rfl, Or.inr ⟨rfl, known, g, ground⟩⟩)
    · exact Or.inl (Or.inr h)
  | confirm _ _ _ => exact Or.inl h

/-! ## Chains of moves -/

abbrev Moves (told : Vote → Prop) (asked : Statement → Prop) (node : NodeId) : VotingState → VotingState → Prop :=
  Relation.ReflTransGen (Move told asked node)

theorem Moves.processed (ms : Moves told asked node st st') : st.processed <+: st'.processed := by
  induction ms with
  | refl => exact List.prefix_refl _
  | tail _ m ih => exact ih.trans m.processed

theorem Moves.forwarded (ms : Moves told asked node st st') : st.forwarded <+: st'.forwarded := by
  induction ms with
  | refl => exact List.prefix_refl _
  | tail _ m ih => exact ih.trans m.forwarded

/-- a vote that is new to a node after some moves was told to it or is its own -/
theorem Moves.held (ms : Moves told asked node st st') {v : Vote} (h : st'.Holds v) :
    st.Holds v ∨ told v ∨ v.voter = node := by
  induction ms with
  | refl => exact Or.inl h
  | tail _ m ih =>
    rcases m.held h with before | heard | cast
    · exact ih before
    · exact Or.inr (Or.inl heard)
    · exact Or.inr (Or.inr cast.voter)

theorem Moves.phase_ne (ms : Moves told asked node st st') (past : st.phase ≠ .unknown) : st'.phase ≠ .unknown := by
  induction ms with
  | refl => exact past
  | tail _ m ih => exact m.phase_ne ih

/-- the action sends a vote of the node's own or one that the node passed on -/
structure Sends (node : NodeId) (st : VotingState) (a : ProtocolAction) : Prop where
  delivery : a.delivery = .send
  intact : a.disrupted = false
  sender : a.message.sender = node
  vote : a.message.vote.voter = node ∧ a.message.vote ∈ st.processed ∨ a.message.vote ∈ st.forwarded

theorem Sends.holds {a : ProtocolAction} (h : Sends node st a) : st.Holds a.message.vote :=
  h.vote.imp And.right id

theorem Sends.later {a : ProtocolAction} (h : Sends node st a) (processed : st.processed <+: st'.processed)
    (forwarded : st.forwarded <+: st'.forwarded) : Sends node st' a :=
  { h with vote := h.vote.imp (And.imp_right fun hv => processed.subset hv) fun hv => forwarded.subset hv }

theorem broadcast_sends {v : Vote} {peers : List NodeId}
    (h : v.voter = node ∧ v ∈ st.processed ∨ v ∈ st.forwarded) : ∀ a ∈ broadcast node v peers, Sends node st a := by
  intro a ha
  obtain ⟨peer, _, rfl⟩ := List.mem_map.1 ha
  exact ⟨rfl, rfl, rfl, h⟩

/-! ## Rules -/

/-- an outcome that is reached by moves, and by which the node sends what it holds -/
structure Acts (told : Vote → Prop) (asked : Statement → Prop) (node : NodeId) (st : VotingState)
    (o : Outcome VotingState) : Prop where
  moves : Moves told asked node st o.state
  sends : ∀ a ∈ o.actions, Sends node o.state a

/-- a single move without messages -/
theorem Acts.noting {e : Event} (m : Moves told asked node st st') : Acts told asked node st (.noting st' e) :=
  ⟨m, by simp [Outcome.noting]⟩

theorem Acts.still : Acts told asked node st (.still st) := ⟨.refl, by simp [Outcome.still]⟩

theorem Acts.andThen {o : Outcome VotingState} {next : VotingState → Outcome VotingState}
    (h : Acts told asked node st o) (h' : Acts told asked node o.state (next o.state)) :
    Acts told asked node st (o.andThen next) := by
  refine ⟨h.moves.trans h'.moves, fun a ha => ?_⟩
  rcases List.mem_append.1 ha with ha | ha
  · exact (h.sends a ha).later h'.moves.processed h'.moves.forwarded
  · exact h'.sends a ha

variable {peers : List NodeId}

/-- what can be accepted was heard of, and something speaks for it -/
theorem acceptable?_eq_some {s : Statement} {g : Ground} (h : st.acceptable? = some (s, g)) :
    s ∈ st.knownStatements ∧ st.ground? s = some g := by
  obtain ⟨s', known, h'⟩ := List.exists_of_findSome?_eq_some h
  obtain ⟨g', hg, e⟩ := Option.map_eq_some_iff.1 h'
  cases e
  exact ⟨known, hg⟩

theorem tryAccept_acts (told : Vote → Prop) (asked : Statement → Prop) (node : NodeId) (peers : List NodeId)
    (st : VotingState) : Acts told asked node st (st.tryAccept node peers) := by
  unfold tryAccept
  split
  · next phase =>
    split
    · next s g h =>
      obtain ⟨known, ground⟩ := acceptable?_eq_some h
      refine ⟨.single (.accept phase known ground), ?_⟩
      exact broadcast_sends (Or.inl ⟨rfl, List.mem_append_right _ (List.mem_singleton_self _)⟩)
    · exact .still
  · exact .still

theorem tryConfirm_acts (told : Vote → Prop) (asked : Statement → Prop) (node : NodeId) (st : VotingState) :
    Acts told asked node st (st.tryConfirm node) := by
  unfold tryConfirm
  split
  · next s accepted =>
    split
    · next h => exact .noting (.single (.confirm h.1 accepted h.2))
    · exact .still
  · exact .still

theorem evaluate_acts (told : Vote → Prop) (asked : Statement → Prop) (node : NodeId) (peers : List NodeId)
    (st : VotingState) : Acts told asked node st (st.evaluate node peers) :=
  (tryAccept_acts told asked node peers st).andThen (tryConfirm_acts told asked node _)

theorem vote_acts {s : Statement} (h : asked s) : Acts told asked node st (st.vote node peers s) := by
  unfold vote
  split
  · exact .noting .refl
  · next phase =>
    refine Acts.andThen ⟨.single (.cast h (Classical.not_not.1 phase)), ?_⟩ (evaluate_acts told asked node peers _)
    exact broadcast_sends (Or.inl ⟨rfl, List.mem_append_right _ (List.mem_singleton_self _)⟩)

theorem relay_acts {m : Message} (h : told m.vote) : Acts told asked node st (st.relay node peers m) := by
  unfold relay
  split
  · exact .still
  · next new =>
    obtain ⟨other, new⟩ := not_or.1 new
    refine ⟨.single (.pass h other new), ?_⟩
    exact broadcast_sends (Or.inr (List.mem_append_right _ (List.mem_singleton_self _)))

theorem process_acts {v : Vote} (h : told v) : Acts told asked node st (st.process node peers v) := by
  unfold process
  split
  · exact .still
  · next new =>
    have rest := evaluate_acts told asked node peers { st with processed := st.processed ++ [v] }
    exact ⟨.head (.hear h new) rest.moves, rest.sends⟩

theorem receive_acts {m : Message} {gossip : Bool} (h : told m.vote) :
    Acts told asked node st (st.receive node peers gossip m) := by
  unfold receive
  refine Acts.andThen ?_ (process_acts h)
  split
  · exact relay_acts h
  · exact .still

/-! ## Hearsay -/

/-- after it the node holds nothing but what it held before, what it was told and its own votes, and it sends what it
holds -/
structure Heeds (told : Vote → Prop) (node : NodeId) (st : VotingState) (o : Outcome VotingState) : Prop where
  held : ∀ {v}, o.state.Holds v → st.Holds v ∨ told v ∨ v.voter = node
  sends : ∀ a ∈ o.actions, Sends node o.state a

theorem Acts.heeds {o : Outcome VotingState} (h : Acts told asked node st o) : Heeds told node st o :=
  ⟨h.moves.held, h.sends⟩

/-- whom a node trusts has nothing to do with what it holds -/
theorem retrust_heeds (told : Vote → Prop) (st : VotingState) (q : QuorumSet) (e : Event) :
    Heeds told node st ((Outcome.noting { st with quorumSet := q } e).andThen (evaluate node peers)) := by
  have rest := (evaluate_acts told (fun _ => False) node peers { st with quorumSet := q }).heeds
  exact ⟨rest.held, rest.sends⟩

/-- a message that is delivered tells the node a single vote -/
theorem deliver_heeds (m : Message) (gossip : Bool) (st : VotingState) (e : Event) :
    Heeds (· = m.vote) node st ((Outcome.noting st e).andThen (receive node peers gossip m)) := by
  have acts : Acts (· = m.vote) (fun _ => False) node st (st.receive node peers gossip m) := receive_acts rfl
  exact ((Acts.noting .refl).andThen acts).heeds

end FederatedAgreement.VotingState
