/-
Grounds of acceptances: an event that announces an acceptance names the ground for it. The ground is there: when a node
announces that a quorum backs a statement, or that nodes which accepted the statement block it, then this is what it had
weighed, just before its own acceptance came in. So a node that was blocked knows of a node that it trusts and that
accepted the statement before, provided that its quorum set has a slice at all. A quorum set whose members cannot reach
its threshold, since there are members without members, is blocked by every set, also by the empty one.

Results:
- `AcceptedOn.trusted`: who was blocked knows of a validator that accepted the statement.
- `grounded_of_step`: acceptances are announced on grounds that are there.
- `blocked_by_trusted`: **nobody is blocked by strangers** who has a slice.
- `hopeless_blocked_by_nobody`: a node without slices accepts what nobody else has accepted.
-/
import FederatedAgreement.Proofs.Network.Reachable
import FederatedAgreement.Proofs.QuorumSet.Blocking

namespace FederatedAgreement

/-! ## Announced acceptances -/

/-- the event of a node that accepts a statement on some ground -/
def acceptance (node : NodeId) (s : Statement) (g : Ground) : Event :=
  .make .accepted node [("statement", s), ("reason", g.name)]

theorem Ground.name_inj {g g' : Ground} (same : g.name = g'.name) : g = g' := by
  revert same
  cases g <;> cases g' <;> decide

theorem acceptance_inj {node node' : NodeId} {s s' : Statement} {g g' : Ground}
    (same : acceptance node s g = acceptance node' s' g') : node = node' ∧ s = s' ∧ g = g' := by
  simp only [acceptance, Event.make, Event.mk.injEq, List.map_cons, List.map_nil, List.cons.injEq, Prod.mk.injEq,
    Document.scalar.injEq, Scalar.text.injEq, true_and, and_true] at same
  exact ⟨same.1, same.2.1, Ground.name_inj same.2.2⟩

/-- no acceptance is announced -/
def Quiet (events : List Event) : Prop := ∀ e ∈ events, e.kind ≠ .accepted

theorem quiet_nil : Quiet [] := fun _ he => absurd he List.not_mem_nil

theorem quiet_single {e : Event} (other : e.kind ≠ .accepted) : Quiet [e] := by
  intro e' he
  rw [List.mem_singleton.1 he]
  exact other

theorem Quiet.not_mem {events : List Event} (quiet : Quiet events) (node : NodeId) (s : Statement) (g : Ground) :
    acceptance node s g ∉ events :=
  fun announced => quiet _ announced rfl

namespace VotingState

variable {node : NodeId} {peers : List NodeId} {s : Statement} {g : Ground} {st st' : VotingState}

/-- a node that had accepted nothing came to accept a statement on a ground that was there, and nothing but its own
acceptance has come in since -/
structure AcceptedOn (node : NodeId) (s : Statement) (g : Ground) (st st' : VotingState) : Prop where
  below : st.phase < .accepted
  ground : st.ground? s = some g
  trust : st'.quorumSet = st.quorumSet
  accepted : st'.accepted = some s
  processed : st'.processed = st.processed ++ [⟨s, node, true⟩]

/-- what was known to be accepted when a node was blocked was accepted by a node that it trusts -/
theorem AcceptedOn.trusted (h : AcceptedOn node s .blocking st st') (slice : st.quorumSet.slices ≠ []) :
    ∃ v ∈ st.quorumSet.validatorSet, v ∈ st.acceptersOf s := by
  obtain ⟨_, blocked⟩ := ground?_eq_blocking_iff.1 h.ground
  apply Classical.byContradiction
  intro strangers
  have apart : ∀ v ∈ st.quorumSet.validatorSet, v ∉ st.acceptersOf s :=
    fun v trusted accepter => strangers ⟨v, trusted, accepter⟩
  exact slice ((QuorumSet.isBlocking_iff_of_apart apart).1 blocked).2

/-! ## Grounds of a single node -/

/-- the acceptances that are announced are the node's own, and on grounds that were there -/
def Grounded (node : NodeId) (o : Outcome VotingState) : Prop :=
  ∀ key s g, acceptance key s g ∈ o.events → key = node ∧ ∃ st, AcceptedOn node s g st o.state

theorem grounded_of_quiet {o : Outcome VotingState} (quiet : Quiet o.events) : Grounded node o :=
  fun key s g announced => absurd announced (quiet.not_mem key s g)

/-- what is seen before the rules are applied announces no acceptance -/
theorem Grounded.after {o : Outcome VotingState} {next : VotingState → Outcome VotingState} (quiet : Quiet o.events)
    (h : Grounded node (next o.state)) : Grounded node (o.andThen next) := by
  intro key s g announced
  rcases List.mem_append.1 announced with before | later
  · exact absurd before (quiet.not_mem key s g)
  · exact h key s g later

theorem tryAccept_grounded (node : NodeId) (peers : List NodeId) (st : VotingState) :
    Grounded node (st.tryAccept node peers) := by
  unfold tryAccept
  split
  · next below =>
    split
    · next s g found =>
      intro key s' g' announced
      obtain ⟨rfl, rfl, rfl⟩ := acceptance_inj (List.mem_singleton.1 announced)
      exact ⟨rfl, st, below, (acceptable?_eq_some found).2, rfl, rfl, rfl⟩
    · exact grounded_of_quiet quiet_nil
  · exact grounded_of_quiet quiet_nil

/-- to confirm what was accepted is no acceptance, and leaves what it rests on as it is -/
theorem tryConfirm_steady (node : NodeId) (st : VotingState) :
    (st.tryConfirm node).state.quorumSet = st.quorumSet ∧ (st.tryConfirm node).state.accepted = st.accepted ∧
    (st.tryConfirm node).state.processed = st.processed ∧ Quiet (st.tryConfirm node).events := by
  unfold tryConfirm
  split
  · split
    · exact ⟨rfl, rfl, rfl, quiet_single (by decide : EventKind.confirmed ≠ .accepted)⟩
    · exact ⟨rfl, rfl, rfl, quiet_nil⟩
  · exact ⟨rfl, rfl, rfl, quiet_nil⟩

theorem evaluate_grounded (node : NodeId) (peers : List NodeId) (st : VotingState) :
    Grounded node (st.evaluate node peers) := by
  intro key s g announced
  obtain ⟨trust, accepted, processed, quiet⟩ := tryConfirm_steady node (st.tryAccept node peers).state
  rcases List.mem_append.1 announced with first | second
  · obtain ⟨own, before, h⟩ := tryAccept_grounded node peers st key s g first
    exact ⟨own, before, h.below, h.ground, trust.trans h.trust, accepted.trans h.accepted, processed.trans h.processed⟩
  · exact absurd second (quiet.not_mem key s g)

theorem retrust_grounded (q : QuorumSet) {e : Event} (other : e.kind ≠ .accepted) :
    Grounded node ((Outcome.noting { st with quorumSet := q } e).andThen (evaluate node peers)) :=
  Grounded.after (quiet_single other) (evaluate_grounded node peers _)

theorem vote_grounded (node : NodeId) (peers : List NodeId) (s : Statement) (st : VotingState) :
    Grounded node (st.vote node peers s) := by
  unfold vote
  split
  · exact grounded_of_quiet (quiet_single (by decide : EventKind.voteIgnored ≠ .accepted))
  · exact Grounded.after (quiet_single (by decide : EventKind.voted ≠ .accepted)) (evaluate_grounded node peers _)

theorem relay_quiet (m : Message) : Quiet (st.relay node peers m).events := by
  unfold relay
  split
  · exact quiet_nil
  · dsimp only
    split
    · exact quiet_nil
    · exact quiet_single (by decide : EventKind.messageRelayed ≠ .accepted)

theorem process_grounded (node : NodeId) (peers : List NodeId) (v : Vote) (st : VotingState) :
    Grounded node (st.process node peers v) := by
  unfold process
  split
  · exact grounded_of_quiet quiet_nil
  · exact evaluate_grounded node peers _

theorem receive_grounded (node : NodeId) (peers : List NodeId) (gossip : Bool) (m : Message) (st : VotingState) :
    Grounded node (st.receive node peers gossip m) := by
  unfold receive
  refine Grounded.after ?_ (process_grounded node peers m.vote _)
  split
  · exact relay_quiet m
  · exact quiet_nil

end VotingState

/-! ## Grounds in a network -/

namespace Network

open VotingState (AcceptedOn Grounded)

variable {n : Network}

/-- what comes of a single action -/
inductive Step (n : Network) : Outcome Network → Prop
  | order (u : UserAction) : Step n (n.applyUser u)
  | deliver (a : ProtocolAction) : Step n (n.applyProtocol a)

/-- whoever announces an acceptance is there, and accepted on a ground that was there -/
def AllGrounded (o : Outcome Network) : Prop :=
  ∀ key s g, acceptance key s g ∈ o.events →
    ∃ st st', o.state.roster.get? key = some st' ∧ AcceptedOn key s g st st'

theorem allGrounded_of_quiet {o : Outcome Network} (quiet : Quiet o.events) : AllGrounded o :=
  fun key s g announced => absurd announced (quiet.not_mem key s g)

theorem allGrounded_noting {n' : Network} {e : Event} (other : e.kind ≠ .accepted) : AllGrounded (.noting n' e) :=
  allGrounded_of_quiet (quiet_single other)

theorem atNode_allGrounded {key : NodeId} {act : VotingState → Outcome VotingState}
    (grounded : ∀ st, Grounded key (act st)) : AllGrounded (n.atNode key act) := by
  rcases n.atNode_outcome key act with ⟨ignored, _⟩ | ⟨st, _, acted⟩
  · rw [ignored]
    exact allGrounded_noting (by decide : EventKind.actionIgnored ≠ .accepted)
  · rw [acted]
    intro key' s g announced
    obtain ⟨rfl, before, h⟩ := grounded st key' s g announced
    exact ⟨before, (act st).state, by simp [Outcome.map, Roster.get?_put], h⟩

theorem changeLink_allGrounded (a b : NodeId) (change : Overlay → NodeId → NodeId → Option Overlay) {kind : EventKind}
    (other : kind ≠ .accepted) : AllGrounded (n.changeLink a b change kind) := by
  unfold changeLink
  split
  · split
    · exact allGrounded_noting other
    · exact allGrounded_noting (by decide : EventKind.connectionIgnored ≠ .accepted)
  · exact allGrounded_noting (by decide : EventKind.actionIgnored ≠ .accepted)

theorem applyUser_allGrounded (u : UserAction) : AllGrounded (n.applyUser u) := by
  cases u with
  | addNode key q =>
    show AllGrounded (n.addNode key q)
    unfold addNode
    split
    · exact allGrounded_noting (by decide : EventKind.actionIgnored ≠ .accepted)
    · exact allGrounded_noting (by decide : EventKind.nodeAdded ≠ .accepted)
  | removeNode key =>
    show AllGrounded (n.removeNode key)
    unfold removeNode
    split
    · exact allGrounded_noting (by decide : EventKind.nodeRemoved ≠ .accepted)
    · exact allGrounded_noting (by decide : EventKind.actionIgnored ≠ .accepted)
  | updateQuorumSet key q =>
    exact atNode_allGrounded fun st =>
      VotingState.retrust_grounded q (by decide : EventKind.quorumSetUpdated ≠ .accepted)
  | vote key s => exact atNode_allGrounded (VotingState.vote_grounded key _ s)
  | connect a b => exact changeLink_allGrounded a b _ (by decide)
  | disconnect a b => exact changeLink_allGrounded a b _ (by decide)
  | forge m => exact allGrounded_of_quiet (quiet_single (by decide : EventKind.messageForged ≠ .accepted))

theorem applyProtocol_allGrounded (a : ProtocolAction) : AllGrounded (n.applyProtocol a) := by
  rcases n.applyProtocol_outcome a with ⟨e, kind, lost⟩ | ⟨_, _, sent⟩ | ⟨_, received⟩
  · rw [lost]
    exact allGrounded_noting (by rcases kind with kind | kind <;> rw [kind] <;> decide)
  · rw [sent]
    exact allGrounded_of_quiet (quiet_single (by decide : EventKind.messageSent ≠ .accepted))
  · rw [received]
    exact atNode_allGrounded fun st => VotingState.Grounded.after
      (quiet_single (by decide : EventKind.messageReceived ≠ .accepted)) (VotingState.receive_grounded _ _ _ _ _)

theorem grounded_of_step {o : Outcome Network} (step : Step n o) : AllGrounded o := by
  cases step with
  | order u => exact applyUser_allGrounded u
  | deliver a => exact applyProtocol_allGrounded a

end Network

/-! ## Main result -/

open Network VotingState

/-- **Nobody is blocked by strangers.** Whatever action is carried out in a network, whoever accepts a statement thereby as
blocked had come to know, before its own acceptance, that a validator of its quorum set accepted the statement, provided
that the quorum set has a slice. In general, a set that has none of the validators of a quorum set blocks it just if the
quorum set has members but no slice. -/
theorem blocked_by_trusted :
    (∀ {n : Network} {o : Outcome Network}, Step n o → ∀ {key s}, acceptance key s .blocking ∈ o.events →
      ∃ st st', o.state.roster.get? key = some st' ∧ AcceptedOn key s .blocking st st' ∧
        (st.quorumSet.slices ≠ [] → ∃ v ∈ st.quorumSet.validatorSet, v ∈ st.acceptersOf s)) ∧
    ∀ (q : QuorumSet) (t : NodeSet), (∀ v ∈ q.validatorSet, v ∉ t) →
      (q.isBlocking t = true ↔ 0 < q.memberCount ∧ q.slices = []) := by
  refine ⟨fun step key s announced => ?_, fun q t apart => QuorumSet.isBlocking_iff_of_apart apart⟩
  obtain ⟨st, st', there, accepted⟩ := grounded_of_step step key s .blocking announced
  exact ⟨st, st', there, accepted, accepted.trusted⟩

/-- two of three members: "P", the quorum set of "Q" alone, and a quorum set without members -/
def wary : QuorumSet := ⟨⟨2, ["P"], [⟨1, ["Q"], []⟩, ⟨1, [], []⟩]⟩, by decide⟩

/-- a node that needs both of the others, as one of its members cannot be satisfied -/
def waryAndTwo : List Node := [⟨"N", wary⟩, ⟨"P", .flat 1 ["P"] (by decide)⟩, ⟨"Q", .flat 1 ["Q"] (by decide)⟩]

/-- "P" lets the node know that it accepted a statement -/
def waryHears : Outcome Network :=
  (Network.ofNodes waryAndTwo (.bare true false)).applyProtocol (.receive ⟨"P", "N", ⟨"x", "P", true⟩⟩)

def waryState : VotingState :=
  ⟨wary, .accepted, some "x", some "x", none, [⟨"x", "P", true⟩, ⟨"x", "N", true⟩], []⟩

/-- without "P" the node would have no slice, so it is blocked, by a node that it trusts; a stranger could not block it -/
theorem wary_blocked_by_mentor :
    Step (.ofNodes waryAndTwo (.bare true false)) waryHears ∧ acceptance "N" "x" .blocking ∈ waryHears.events ∧
    wary.slices = [.ofList ["P", "Q"]] ∧
    (∃ st, AcceptedOn "N" "x" .blocking st waryState ∧ ∃ v ∈ st.quorumSet.validatorSet, v ∈ st.acceptersOf "x") ∧
    (∀ v ∈ wary.validatorSet, v ∉ Sorting.SortedSet.ofList ["N"]) ∧ wary.isBlocking (.ofList ["N"]) = false := by
  have step : Step (.ofNodes waryAndTwo (.bare true false)) waryHears := .deliver _
  have announced : acceptance "N" "x" .blocking ∈ waryHears.events := by
    have events : waryHears.events =
      [.make .messageReceived "N" [("message", "From: P, To: N, P accept(x)")], acceptance "N" "x" .blocking] := by rfl
    rw [events]
    exact List.mem_cons_of_mem _ List.mem_cons_self
  have slices : wary.slices = [.ofList ["P", "Q"]] := by decide +kernel
  have here : waryHears.state.roster.get? "N" = some waryState := by decide +kernel
  have apart : ∀ v ∈ wary.validatorSet, v ∉ Sorting.SortedSet.ofList ["N"] := by decide
  obtain ⟨st, st', there, accepted, trusted⟩ := blocked_by_trusted.1 step announced
  cases here.symm.trans there
  have same : st.quorumSet = wary := accepted.trust.symm
  have slice : st.quorumSet.slices ≠ [] := by
    rw [same, slices]
    exact List.cons_ne_nil _ _
  have strangers := blocked_by_trusted.2 wary (.ofList ["N"]) apart
  refine ⟨step, announced, slices, ⟨st, accepted, trusted slice⟩, apart, ?_⟩
  rw [← Bool.not_eq_true, strangers, slices]
  exact fun blocked => absurd blocked.2 (List.cons_ne_nil _ _)

/-- both of two members, the second of which is a quorum set without members -/
def hopeless : QuorumSet := ⟨⟨2, ["T"], [⟨1, [], []⟩]⟩, by decide⟩

def hopelessAndIdol : List Node := [⟨"H", hopeless⟩, ⟨"T", .flat 1 ["T"] (by decide)⟩]

def hopelessEngine : Engine := .ofSetup ⟨hopelessAndIdol, .bare true false⟩

/-- the node without a slice is asked to vote -/
def hopelessVotes : Outcome Network := hopelessEngine.network.applyUser (.vote "H" "x")

/-- **Blocked by nobody.** A node that no set can satisfy is blocked by the empty set, so that it accepts whatever it votes
for, while no node that it trusts has accepted anything, nor any other node. -/
theorem hopeless_blocked_by_nobody :
    Reachable hopelessEngine.network ∧ Step hopelessEngine.network hopelessVotes ∧
    acceptance "H" "x" .blocking ∈ hopelessVotes.events ∧
    (∃ st', hopelessVotes.state.roster.get? "H" = some st' ∧ st'.acceptersOf "x" = .ofList ["H"] ∧
      st'.quorumSet.validatorSet = .ofList ["T"] ∧ ∀ v ∈ st'.quorumSet.validatorSet, v ∉ st'.acceptersOf "x") ∧
    (∀ v ∈ hopeless.validatorSet, v ∉ (∅ : NodeSet)) ∧ hopeless.isBlocking ∅ = true := by
  have load : (Engine.bare true false).load hopelessAndIdol [] = .ok hopelessEngine := by rfl
  have announced : acceptance "H" "x" .blocking ∈ hopelessVotes.events := by
    have events : hopelessVotes.events =
      [.make .voted "H" [("statement", "x")], acceptance "H" "x" .blocking] := by rfl
    rw [events]
    exact List.mem_cons_of_mem _ List.mem_cons_self
  have here : hopelessVotes.state.roster.get? "H" = some
      ⟨hopeless, .accepted, some "x", some "x", none, [⟨"x", "H", false⟩, ⟨"x", "H", true⟩], []⟩ := by decide +kernel
  refine ⟨.load load, .order _, announced, ⟨_, here, ?_, ?_, ?_⟩, fun v _ => Sorting.SortedSet.not_mem_empty v, ?_⟩
  all_goals decide +kernel

end FederatedAgreement
