/-
Announcements: when a node casts a vote, by voting or by accepting, an event says so. What a log of events announces are
the votes that were cast, and a node takes its own votes into account just as it announces them.

Results:
- `casts`: the votes that a log of events announces.
- `vote_announces`, `evaluate_announces`, `receive_announces`: what each rule adds to a node's own votes, it announces.
-/
import FederatedAgreement.Proofs.Voting.Moves

namespace FederatedAgreement

/-! ## What events announce -/

/-- the statement that an event is about -/
def Event.statement? (e : Event) : Option Statement := (Document.get? e.details "statement").bind Document.text?

/-- the vote that an event announces: that the node voted for a statement, or that it accepted one -/
def Event.announced? (e : Event) : Option Vote :=
  match e.kind with
  | .voted => e.statement?.map (⟨·, e.target, false⟩)
  | .accepted => e.statement?.map (⟨·, e.target, true⟩)
  | _ => none

/-- the votes that were cast, as a log of events announces them -/
def casts (log : List Event) : List Vote := log.filterMap Event.announced?

theorem casts_append (first second : List Event) : casts (first ++ second) = casts first ++ casts second :=
  List.filterMap_append

theorem casts_voted (node : NodeId) (s : Statement) :
    casts [.make .voted node [("statement", s)]] = [⟨s, node, false⟩] := rfl

theorem casts_accepted (node : NodeId) (s : Statement) (reason : String) :
    casts [.make .accepted node [("statement", s), ("reason", reason)]] = [⟨s, node, true⟩] := rfl

theorem casts_of_kind {e : Event} (voted : e.kind ≠ .voted) (accepted : e.kind ≠ .accepted) : casts [e] = [] := by
  have silent : e.announced? = none := by
    unfold Event.announced?
    split
    · next kind => exact absurd kind voted
    · next kind => exact absurd kind accepted
    · rfl
  rw [casts, List.filterMap_cons_none silent, List.filterMap_nil]

namespace VotingState

/-! ## What a node announces -/

/-- only votes of the node's own are announced, and these are what is new among its own votes -/
structure Announces (node : NodeId) (st : VotingState) (o : Outcome VotingState) : Prop where
  own : ∀ v ∈ casts o.events, v.voter = node
  new : ∀ v, v.voter = node → (v ∈ o.state.processed ↔ v ∈ st.processed ∨ v ∈ casts o.events)

variable {node : NodeId} {peers : List NodeId} {st : VotingState}

theorem Announces.andThen {o : Outcome VotingState} {next : VotingState → Outcome VotingState}
    (h : Announces node st o) (h' : Announces node o.state (next o.state)) : Announces node st (o.andThen next) := by
  have events : casts (o.andThen next).events = casts o.events ++ casts (next o.state).events := casts_append _ _
  refine ⟨fun v hv => ?_, fun v cast => ?_⟩
  · rw [events] at hv
    exact (List.mem_append.1 hv).elim (h.own v) (h'.own v)
  · rw [events, List.mem_append, ← or_assoc, ← h.new v cast]
    exact h'.new v cast

/-- a node that takes no vote into account announces none -/
theorem announces_nothing {o : Outcome VotingState} (processed : o.state.processed = st.processed)
    (silent : casts o.events = []) : Announces node st o := by
  refine ⟨?_, fun v _ => ?_⟩
  · rw [silent]
    exact fun _ hv => absurd hv List.not_mem_nil
  · rw [processed, silent]
    exact (or_iff_left List.not_mem_nil).symm

/-- a node that casts a vote announces it -/
theorem announces_cast {o : Outcome VotingState} {v : Vote} (cast : v.voter = node)
    (processed : o.state.processed = st.processed ++ [v]) (announced : casts o.events = [v]) : Announces node st o := by
  refine ⟨?_, fun u _ => ?_⟩
  · rw [announced]
    intro u hu
    rw [List.mem_singleton.1 hu]
    exact cast
  · rw [processed, announced]
    exact List.mem_append

theorem tryAccept_announces (node : NodeId) (peers : List NodeId) (st : VotingState) :
    Announces node st (st.tryAccept node peers) := by
  unfold tryAccept
  split
  · split
    · next s g _ => exact announces_cast rfl rfl (casts_accepted node s g.name)
    · exact announces_nothing rfl rfl
  · exact announces_nothing rfl rfl

theorem tryConfirm_announces (node : NodeId) (st : VotingState) : Announces node st (st.tryConfirm node) := by
  unfold tryConfirm
  split
  · split
    · exact announces_nothing rfl rfl
    · exact announces_nothing rfl rfl
  · exact announces_nothing rfl rfl

theorem evaluate_announces (node : NodeId) (peers : List NodeId) (st : VotingState) :
    Announces node st (st.evaluate node peers) :=
  (tryAccept_announces node peers st).andThen (tryConfirm_announces node _)

/-- whom a node trusts is announced, but is no vote -/
theorem retrust_announces (q : QuorumSet) {e : Event} (silent : casts [e] = []) :
    Announces node st ((Outcome.noting { st with quorumSet := q } e).andThen (evaluate node peers)) :=
  Announces.andThen (announces_nothing rfl silent) (evaluate_announces node peers _)

theorem vote_announces (s : Statement) : Announces node st (st.vote node peers s) := by
  unfold vote
  split
  · exact announces_nothing rfl rfl
  · refine Announces.andThen ?_ (evaluate_announces node peers _)
    exact announces_cast rfl rfl (casts_voted node s)

theorem relay_announces (m : Message) : Announces node st (st.relay node peers m) := by
  unfold relay
  split
  · exact announces_nothing rfl rfl
  · refine announces_nothing rfl ?_
    dsimp only
    split <;> rfl

/-- to hear of others announces nothing, as long as no vote of the node's own comes back that it does not know -/
theorem process_announces {v : Vote} (own : v.voter = node → v ∈ st.processed) :
    Announces node st (st.process node peers v) := by
  unfold process
  split
  · exact announces_nothing rfl rfl
  · next new =>
    have rest := evaluate_announces node peers { st with processed := st.processed ++ [v] }
    refine ⟨rest.own, fun u cast => ?_⟩
    have other : u ≠ v := by
      rintro rfl
      exact new (own cast)
    rw [rest.new u cast, List.mem_append, List.mem_singleton, or_iff_left other]

theorem receive_announces {gossip : Bool} {m : Message} (own : m.vote.voter = node → m.vote ∈ st.processed) :
    Announces node st (st.receive node peers gossip m) := by
  have relayed : (if gossip then st.relay node peers m else .still st).state.processed = st.processed := by
    unfold relay
    split
    · split <;> rfl
    · rfl
  unfold receive
  refine Announces.andThen ?_ (process_announces fun cast => ?_)
  · split
    · exact relay_announces m
    · exact announces_nothing rfl rfl
  · rw [relayed]
    exact own cast

end VotingState

end FederatedAgreement
