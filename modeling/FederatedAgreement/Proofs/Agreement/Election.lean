/-
Elections: some nodes vote for one statement, and nothing else is ordered. In which order the nodes hear of what differs
from run to run, but what comes of it does not. Nobody accepts without a ground that the votes and the acceptances so far
give, so that those who accept are in every set of nodes which is closed under acceptance. When nothing is left to do,
everyone knows all votes, so that those who accepted are closed under acceptance themselves.

Results:
- `electing_invariant`: whoever accepts is in every closed set.
- `Concluded.closed`, `Concluded.least`: at the end, those who accepted are the least closed set.
- `Concluded.confirmed_iff`: those who confirmed are those to whom the acceptances are a slice.
- `election_settled`: **the outcome of an election**.
-/
import FederatedAgreement.Proofs.Agreement.QuorumIntersection
import FederatedAgreement.Proofs.Network.Dissemination
import FederatedAgreement.Proofs.Simulation.Settling

namespace FederatedAgreement

open Sorting (SortedSet)

/-! ## Closed sets -/

/-- with the nodes of `w` voting, the set has every node that it would make accept: by a slice of voters and nodes of the
set, or by nodes of the set that block it -/
def ClosedUnderAcceptance (nodes : List Node) (w c : NodeSet) : Prop :=
  ∀ u ∈ nodes, u.quorumSet.isSlice (w ∪ c) = true ∨ u.quorumSet.isBlocking c = true → u.key ∈ c

instance (nodes : List Node) (w c : NodeSet) : Decidable (ClosedUnderAcceptance nodes w c) :=
  inferInstanceAs (Decidable (∀ u ∈ nodes, _ ∨ _ → u.key ∈ c))

/-- the least set that is closed under acceptance -/
structure LeastUnderAcceptance (nodes : List Node) (w a : NodeSet) : Prop where
  closed : ClosedUnderAcceptance nodes w a
  least : ∀ c, ClosedUnderAcceptance nodes w c → a ⊆ c

/-! ## What may come of an election -/

/-- the operators only order nodes of `w` to vote for the statement -/
def Called (w : NodeSet) (s : Statement) (a : UserAction) : Prop := ∃ v ∈ w, a = .vote v s

theorem Called.calm {w : NodeSet} {s : Statement} {a : UserAction} (h : Called w s a) : Network.Calm a := by
  obtain ⟨v, _, rfl⟩ := h
  exact Or.inl rfl

theorem settled_called (w : NodeSet) (s : Statement) : Network.Settled (Called w s) := by
  refine ⟨?_, ?_, ?_⟩
  · rintro key q ⟨v, _, other⟩
    cases other
  · rintro key ⟨v, _, other⟩
    cases other
  · rintro key q ⟨v, _, other⟩
    cases other

/-- a vote for the statement by a node of `w`, or an acceptance of it by a node of the set -/
structure Expected (w c : NodeSet) (s : Statement) (v : Vote) : Prop where
  statement : v.statement = s
  voter : v.voter ∈ if v.isAccept then c else w

namespace Network

variable {given : Message → Prop} {n n' : Network} {nodes : List Node} {w c : NodeSet} {s : Statement}

/-- what holds throughout an election: votes are authentic, trust is as given, and nobody goes beyond the set -/
structure Electing (nodes : List Node) (w c : NodeSet) (s : Statement) (n : Network) : Prop where
  deliberate : Deliberate nodes n
  expected : ∀ {key st v}, n.roster.get? key = some st → st.Holds v → Expected w c s v
  spoken : ∀ {key st}, n.roster.get? key = some st → st.Spoken key

/-- what speaks for a statement in the eyes of a node puts the node into the set -/
theorem Electing.mem_of_ground (h : Electing nodes w c s n) (closed : ClosedUnderAcceptance nodes w c) {key : NodeId}
    {st : VotingState} (here : n.roster.get? key = some st) {t : Statement} {g : Ground}
    (ground : st.ground? t = some g) : key ∈ c := by
  have backers : ∀ {v}, v ∈ st.processed → v.voter ∈ if v.isAccept then c else w :=
    fun hv => (h.expected here (Or.inl hv)).voter
  have voters : st.votersFor t ⊆ w ∪ c := by
    intro z hz
    obtain ⟨v, hv, _, rfl⟩ := VotingState.mem_votersFor.1 hz
    have expected := backers hv
    rw [SortedSet.mem_union]
    split at expected
    · exact Or.inr expected
    · exact Or.inl expected
  have accepters : st.acceptersOf t ⊆ c := by
    intro z hz
    obtain ⟨v, hv, _, accept, rfl⟩ := VotingState.mem_acceptersOf.1 hz
    have expected := backers hv
    rwa [if_pos accept] at expected
  apply closed ⟨key, st.quorumSet⟩ (h.deliberate.trusts here)
  exact (VotingState.enough_of_ground ground).imp (st.quorumSet.isSlice_mono voters)
    (st.quorumSet.isBlocking_mono accepters)

/-- **Nobody goes beyond a closed set.** As long as only expected votes are under way, only expected ones are cast. -/
theorem Electing.change (h : Electing nodes w c s n) (closed : ClosedUnderAcceptance nodes w c)
    (change : Change (Called w s) given n n') (carried : ∀ v, Carried given v → Backed ∅ n v ∧ Expected w c s v) :
    Electing nodes w c s n' := by
  refine ⟨h.deliberate.change (settled_called w s) change fun v hv => (carried v hv).1, ?_, ?_⟩
  · intro key st' v there hv
    obtain ⟨st, here, turn⟩ := change.origin_of_settled (settled_called w s) there
    rcases turn.held hv with old | told | cast
    · exact h.expected here old
    · exact (carried v told).2
    · rcases cast.reason with ⟨vote, u, hu, order⟩ | ⟨accept, known, g, ground⟩
      · cases order
        exact ⟨rfl, by rw [vote]; exact cast.voter ▸ hu⟩
      · obtain ⟨u, hu, same⟩ := VotingState.mem_knownStatements.1 known
        refine ⟨same ▸ (h.expected here (Or.inl hu)).statement, ?_⟩
        rw [accept, cast.voter]
        exact h.mem_of_ground closed here ground
  · intro key st' there
    obtain ⟨st, here, turn⟩ := change.origin_of_settled (settled_called w s) there
    cases turn with
    | same => exact h.spoken here
    | move m => exact m.spoken (h.spoken here)
    | retrust ordered => exact absurd ordered ((settled_called w s).updateQuorumSet _ _)

theorem electing_invariant (closed : ClosedUnderAcceptance nodes w c) :
    Invariant (Called w s) (Electing nodes w c s) (fun n m => Backed ∅ n m.vote ∧ Expected w c s m.vote) where
  holds h change := by
    apply h.change closed change
    rintro v ⟨m, hm, rfl⟩
    exact hm
  good h change hm := ⟨hm.1.change h.deliberate.truthful (settled_called w s).removeNode change, hm.2⟩
  sent h here sends := ⟨h.deliberate.truthful.backed here sends.holds, h.expected here sends.holds⟩
  forged := by
    rintro n m _ ⟨v, _, other⟩
    cases other

theorem electing_load {e loaded : Engine} {links : List (NodeId × NodeId)} (load : e.load nodes links = .ok loaded)
    (w c : NodeSet) (s : Statement) : Electing nodes w c s loaded.network := by
  refine ⟨deliberate_load load, fun here hv => ?_, fun here => ?_⟩
  · exact absurd hv (Engine.not_holds_load load here _)
  · obtain ⟨q, _, rfl⟩ := Engine.get?_load load here
    exact VotingState.spoken_fresh _ q

/-! ## Who has voted -/

/-- the node has come past the beginning -/
def Voiced (z : NodeId) (n : Network) : Prop := ∃ st, n.roster.get? z = some st ∧ st.phase ≠ .unknown

theorem Voiced.change {z : NodeId} {allowed : UserAction → Prop} (h : Voiced z n)
    (stays : ∀ key, ¬ allowed (.removeNode key)) (change : Change allowed given n n') : Voiced z n' := by
  obtain ⟨st, here, past⟩ := h
  obtain ⟨st', there, turn⟩ := change.forward (stays z) here
  cases turn with
  | same | retrust _ => exact ⟨_, there, past⟩
  | move m => exact ⟨st', there, m.phase_ne past⟩

theorem voiced_invariant (z : NodeId) : Invariant Sincere (Voiced z) (fun _ _ => True) where
  holds h change := h.change sincere_stays change
  good _ _ _ := trivial
  sent _ _ _ := trivial
  forged _ _ := trivial

/-- whoever is asked to vote, and is there, has come past the beginning thereafter -/
theorem voiced_of_vote {z : NodeId} (member : z ∈ n.keys) (s : Statement) : Voiced z (n.applyUser (.vote z s)).state := by
  obtain ⟨st, here⟩ := Roster.mem_iff_exists_get?.1 member
  refine ⟨(st.vote z (n.peersOf z) s).state, ?_, VotingState.vote_phase_ne z (n.peersOf z) s st⟩
  simp [applyUser, atNode, here, Outcome.map, Roster.get?_put]

/-! ## What has come of it when nothing is left to do -/

/-- the nodes that accepted the statement -/
def acceptersOf (n : Network) (s : Statement) : NodeSet :=
  SortedSet.ofList ((n.roster.entries.filter fun e => e.2.accepted = some s).map Prod.fst)

theorem mem_acceptersOf {z : NodeId} :
    z ∈ n.acceptersOf s ↔ ∃ sz, n.roster.get? z = some sz ∧ sz.accepted = some s := by
  simp [acceptersOf, Roster.get?_eq_some_iff]

/-- the nodes of `w` have voted, all votes have reached everyone, and no node has anything left to do -/
structure Concluded (nodes : List Node) (w : NodeSet) (s : Statement) (n : Network) : Prop where
  electing : ∀ c, ClosedUnderAcceptance nodes w c → Electing nodes w c s n
  keys : n.keys = nodes.map Node.key
  voiced : ∀ z ∈ w, Voiced z n
  heard : ∀ {key p v}, Heard n key v → p ∈ n.keys → Heard n p v
  exhausted : ∀ {key st}, n.roster.get? key = some st → st.Exhausted

namespace Concluded

variable {key : NodeId} {st : VotingState}

/-- the set of all nodes is closed under acceptance -/
theorem electing_all (h : Concluded nodes w s n) : Electing nodes w (SortedSet.ofList (nodes.map Node.key)) s n := by
  apply h.electing
  intro u hu _
  exact SortedSet.mem_ofList.2 (List.mem_map_of_mem hu)

/-- every node is there, and trusts as it was loaded -/
theorem exists_state (h : Concluded nodes w s n) (nodup : (nodes.map Node.key).Nodup) {u : Node} (hu : u ∈ nodes) :
    ∃ st, n.roster.get? u.key = some st ∧ st.quorumSet = u.quorumSet := by
  have member : u.key ∈ n.keys := by
    rw [h.keys]
    exact List.mem_map_of_mem hu
  obtain ⟨st, here⟩ := Roster.mem_iff_exists_get?.1 member
  have loaded := List.inj_on_of_nodup_map nodup (h.electing_all.deliberate.trusts here) hu rfl
  exact ⟨st, here, congrArg Node.quorumSet loaded⟩

/-- nothing but the statement is accepted -/
theorem eq_of_accepted (h : Concluded nodes w s n) (here : n.roster.get? key = some st) {t : Statement}
    (accepted : st.accepted = some t) : t = s := by
  have own := (h.electing_all.deliberate.truthful.coherent here).own t accepted
  exact (h.electing_all.expected here (Or.inl own)).statement

/-- every node knows who accepted the statement -/
theorem acceptersOf_eq (h : Concluded nodes w s n) (here : n.roster.get? key = some st) :
    st.acceptersOf s = n.acceptersOf s := by
  apply SortedSet.ext
  intro z
  constructor
  · intro hz
    exact mem_acceptersOf.2 (h.electing_all.deliberate.allAccepted here s z hz)
  · intro hz
    obtain ⟨sz, there, accepted⟩ := mem_acceptersOf.1 hz
    have own := (h.electing_all.deliberate.truthful.coherent there).own s accepted
    have member : key ∈ n.keys := Roster.mem_of_get? here
    obtain ⟨st', here', known⟩ := h.heard ⟨sz, there, own⟩ member
    cases here.symm.trans here'
    exact VotingState.mem_acceptersOf.2 ⟨_, known, rfl, rfl, rfl⟩

/-- every node knows the nodes of `w` and those who accepted as the backers of the statement -/
theorem votersFor_eq (h : Concluded nodes w s n) (here : n.roster.get? key = some st) :
    st.votersFor s = w ∪ n.acceptersOf s := by
  apply SortedSet.ext
  intro z
  rw [SortedSet.mem_union, ← h.acceptersOf_eq here]
  constructor
  · intro hz
    obtain ⟨v, hv, rfl, rfl⟩ := VotingState.mem_votersFor.1 hz
    cases accept : v.isAccept with
    | true => exact Or.inr (VotingState.mem_acceptersOf.2 ⟨v, hv, rfl, accept, rfl⟩)
    | false =>
      have voter := (h.electing_all.expected here (Or.inl hv)).voter
      rw [accept] at voter
      exact Or.inl voter
  · rintro (hz | hz)
    · obtain ⟨sz, there, past⟩ := h.voiced z hz
      obtain ⟨v, hv, rfl⟩ := h.electing_all.spoken there past
      have statement := (h.electing_all.expected there (Or.inl hv)).statement
      have member : key ∈ n.keys := Roster.mem_of_get? here
      obtain ⟨st', here', known⟩ := h.heard ⟨sz, there, hv⟩ member
      cases here.symm.trans here'
      exact VotingState.mem_votersFor.2 ⟨v, known, statement, rfl⟩
    · obtain ⟨v, hv, same, _, voter⟩ := VotingState.mem_acceptersOf.1 hz
      exact VotingState.mem_votersFor.2 ⟨v, hv, same, voter⟩

/-- **No acceptance is missed.** Those who accepted are closed under acceptance, since nobody has anything left to do. -/
theorem closed (h : Concluded nodes w s n) (nodup : (nodes.map Node.key).Nodup) (votes : ∃ z, z ∈ w) :
    ClosedUnderAcceptance nodes w (n.acceptersOf s) := by
  intro u hu reason
  obtain ⟨st, here, trust⟩ := h.exists_state nodup hu
  rw [← trust, ← h.votersFor_eq here, ← h.acceptersOf_eq here] at reason
  have known : s ∈ st.knownStatements := by
    obtain ⟨z, hz⟩ := votes
    have voter : z ∈ st.votersFor s := by
      rw [h.votersFor_eq here, SortedSet.mem_union]
      exact Or.inl hz
    obtain ⟨v, hv, same, _⟩ := VotingState.mem_votersFor.1 voter
    exact VotingState.mem_knownStatements.2 ⟨v, hv, same⟩
  have reached : ¬ st.phase < .accepted := by
    intro below
    have groundless := (h.exhausted here).accept below s known
    obtain ⟨few, unblocked⟩ := VotingState.ground?_eq_none_iff.1 groundless
    rw [few, unblocked] at reason
    exact absurd reason (by decide)
  have coherent := h.electing_all.deliberate.truthful.coherent here
  cases accepted : st.accepted with
  | none => exact absurd (coherent.accepted_none.1 accepted) reached
  | some t =>
    cases h.eq_of_accepted here accepted
    exact mem_acceptersOf.2 ⟨st, here, accepted⟩

/-- **No acceptance is without reason.** Those who accepted are in every set that is closed under acceptance. -/
theorem least (h : Concluded nodes w s n) (closed : ClosedUnderAcceptance nodes w c) : n.acceptersOf s ⊆ c := by
  intro z hz
  obtain ⟨sz, here, accepted⟩ := mem_acceptersOf.1 hz
  have electing := h.electing c closed
  have own := (electing.deliberate.truthful.coherent here).own s accepted
  exact (electing.expected here (Or.inl own)).voter

/-- **No confirmation is missed, and none is without reason.** Those who confirmed the statement are those who accepted it
and to whom the acceptances are a slice. -/
theorem confirmed_iff (h : Concluded nodes w s n) (nodup : (nodes.map Node.key).Nodup) {u : Node} (hu : u ∈ nodes) :
    u.key ∈ n.confirmersOf s ↔ u.key ∈ n.acceptersOf s ∧ u.quorumSet.isSlice (n.acceptersOf s) = true := by
  obtain ⟨st, here, trust⟩ := h.exists_state nodup hu
  have coherent := h.electing_all.deliberate.truthful.coherent here
  rw [← trust, ← h.acceptersOf_eq here]
  constructor
  · intro confirmer
    obtain ⟨st', here', confirmed⟩ := mem_confirmersOf.1 confirmer
    cases here.symm.trans here'
    have accepted := coherent.confirmed_accepted s confirmed
    refine ⟨?_, h.electing_all.deliberate.founded here s confirmed⟩
    rw [h.acceptersOf_eq here]
    exact mem_acceptersOf.2 ⟨st, here, accepted⟩
  · rintro ⟨accepter, enough⟩
    rw [h.acceptersOf_eq here] at accepter
    obtain ⟨st', here', accepted⟩ := mem_acceptersOf.1 accepter
    cases here.symm.trans here'
    refine mem_confirmersOf.2 ⟨st, here, coherent.confirmed_of_accepted accepted ?_⟩
    intro phase
    rw [(h.exhausted here).confirm phase s accepted] at enough
    exact absurd enough (by decide)

end Concluded

end Network

/-! ## Calling an election -/

namespace Simulation

variable {sim : Simulation} {w : NodeSet} {s : Statement}

/-- of a node only one vote for the statement can be pending -/
theorem eq_of_rivals {a b : UserAction} (called : Called w s a) (called' : Called w s b) (rival : rivals a b = true) :
    a = b := by
  obtain ⟨v, _, rfl⟩ := called
  obtain ⟨v', _, rfl⟩ := called'
  simp only [rivals, Bool.and_eq_true, decide_eq_true_eq] at rival
  exact congrArg (UserAction.vote · s) rival.2

/-- a vote that is queued joins the others, or takes the place of the same vote -/
theorem mem_enqueue_called {queue : List Submission} {new : Submission} (called : Called w s new.action)
    (others : ∀ old ∈ queue, Called w s old.action) (a : UserAction) :
    a ∈ (enqueue new queue).map Submission.action ↔ a = new.action ∨ a ∈ queue.map Submission.action := by
  rcases enqueue_cases new queue with ⟨before, old, behind, rfl, rival, result⟩ | ⟨_, result⟩
  · have there : old ∈ before ++ old :: behind := List.mem_append_right _ List.mem_cons_self
    have same := eq_of_rivals called (others old there) rival
    rw [result, List.map_append, List.map_append, List.map_cons, List.map_cons, same]
    refine (or_iff_right_of_imp ?_).symm
    rintro rfl
    exact List.mem_append_right _ List.mem_cons_self
  · obtain ⟨v, _, vote⟩ := called
    have waits : new.action.isImmediate = false := by rw [vote, UserAction.isImmediate]
    rw [result]
    simp [waits, or_comm]

/-- a new simulation in the first step of which some actions were queued, one after the other -/
def prepared (engine : Engine) (submissions : List Submission) : Simulation :=
  .after engine [] (submissions.map fun new => .edit (.submit new))

/-- **Any order.** Votes for the statement may be queued in any order, and again: what is pending is these votes. -/
theorem pendingUser_submit {submissions : List Submission} (called : ∀ new ∈ submissions, Called w s new.action)
    (before : ∀ old ∈ sim.current.userActions, Called w s old.action) (a : UserAction) :
    a ∈ (sim.performAll (submissions.map fun new => .edit (.submit new))).current.pendingUser ↔
      a ∈ submissions.map Submission.action ∨ a ∈ sim.current.pendingUser := by
  induction submissions generalizing sim with
  | nil => simp [performAll]
  | cons new rest ih =>
    have added := mem_enqueue_called (called new List.mem_cons_self) before
    have later : ∀ old ∈ (sim.submit new).current.userActions, Called w s old.action := by
      intro old hold
      rcases (added old.action).1 (List.mem_map_of_mem hold) with first | first
      · rw [first]
        exact called new List.mem_cons_self
      · obtain ⟨known, hknown, same⟩ := List.mem_map.1 first
        exact same ▸ before known hknown
    have first : a ∈ (sim.submit new).current.pendingUser ↔ a = new.action ∨ a ∈ sim.current.pendingUser := added a
    have rest := ih (fun other hother => called other (List.mem_cons_of_mem new hother)) later
    rw [first] at rest
    rw [List.map_cons, List.map_cons, List.mem_cons, or_assoc, or_left_comm]
    exact rest

/-- to queue actions changes nothing else -/
theorem performAll_submit (sim : Simulation) (submissions : List Submission) :
    (sim.performAll (submissions.map fun new => .edit (.submit new))).engine = sim.engine ∧
    (sim.performAll (submissions.map fun new => .edit (.submit new))).future = sim.future ∧
    (sim.performAll (submissions.map fun new => .edit (.submit new))).current.protocolActions =
      sim.current.protocolActions := by
  induction submissions generalizing sim with
  | nil => exact ⟨rfl, rfl, rfl⟩
  | cons new rest ih => exact ih (sim.submit new)

/-- after a walk that came to an end, every node of `w` has come past the beginning: it was asked to vote in the first
batch -/
theorem voiced_of_run {z : NodeId} (ahead : sim.future = []) (pending : ∀ a, a ∈ sim.current.pendingUser ↔ Called w s a)
    (hz : z ∈ w) (member : z ∈ sim.engine.network.keys) {limit : Nat} (done : (sim.run limit).1.hasNext = false) :
    Network.Voiced z (sim.run limit).1.engine.network := by
  have order : UserAction.vote z s ∈ sim.current.pendingUser := (pending _).2 ⟨z, hz, rfl⟩
  have more : sim.hasNext = true := by
    obtain ⟨new, queued, _⟩ := List.mem_map.1 order
    have waiting : sim.current.userActions.isEmpty = false := List.isEmpty_eq_false_iff.2 (List.ne_nil_of_mem queued)
    simp [hasNext, Step.hasPending, waiting]
  have voicing := (Network.voiced_invariant z).queued.mono fun _ (called : Called w s _) => called.calm.sincere
  obtain ⟨future, users, protocol, network⟩ := advance_of_future_nil ahead
  have first : Network.Voiced z sim.advance.engine.network ∧ ∀ a ∈ sim.advance.current.protocolActions, True := by
    rw [network, protocol]
    have steady := (Network.steady_queued sim.engine.network.keys sim.engine.network.overlay).mono
      fun _ (called : Called w s _) => called.calm
    refine steady.execute_of_mem voicing (fun a ha => (pending a).1 ha) order ?_ ⟨rfl, rfl⟩
    intro n queue same
    exact ⟨Network.voiced_of_vote (same.1 ▸ member) s, fun _ _ => trivial⟩
  cases limit with
  | zero =>
    rw [Simulation.run, more] at done
    exact absurd done (by decide)
  | succ limit =>
    rw [Simulation.run, if_pos more]
    refine (run_of_queued voicing future ?_ first limit).1
    rw [LiveStep.pendingUser, users]
    exact fun _ hu => absurd hu List.not_mem_nil

/-- what an election has come to once nothing is left to do -/
theorem concluded_of_run {e loaded : Engine} {nodes : List Node} {links : List (NodeId × NodeId)}
    (load : e.load nodes links = .ok loaded) (connected : loaded.network.Connected)
    (members : ∀ z ∈ w, z ∈ nodes.map Node.key) (engine : sim.engine = loaded) (ahead : sim.future = [])
    (silent : sim.current.protocolActions = []) (pending : ∀ a, a ∈ sim.current.pendingUser ↔ Called w s a)
    {limit : Nat} (done : (sim.run limit).1.hasNext = false) :
    Network.Concluded nodes w s (sim.run limit).1.engine.network := by
  -- what single actions keep up, and holds after loading, holds in the end
  have along : ∀ {P : Network → List ProtocolAction → Prop}, Network.QueueInvariant (Called w s) P →
      P loaded.network [] → P (sim.run limit).1.engine.network (sim.run limit).1.current.protocolActions := by
    intro P I start
    apply run_of_queued I ahead fun a ha => (pending a).1 ha
    rw [engine, silent]
    exact start
  have steady := along ((Network.steady_queued _ _).mono fun _ => Called.calm) ⟨rfl, rfl⟩
  have quiet : (sim.run limit).1.current.protocolActions = [] := by
    simp only [hasNext, Step.hasPending, Bool.or_eq_false_iff, Bool.not_eq_false', List.isEmpty_iff] at done
    exact done.2.2
  refine ⟨?_, ?_, ?_, ?_, ?_⟩
  · intro c closed
    have start := Network.electing_load load w c s
    exact (along (Network.electing_invariant closed).queued ⟨start, fun _ ha => absurd ha List.not_mem_nil⟩).1
  · exact steady.1.trans (Engine.keys_load load)
  · intro z hz
    refine voiced_of_run ahead pending hz ?_ done
    rw [engine, Engine.keys_load load]
    exact members z hz
  · intro key p v heard member
    have spread := along ((Network.Disseminating.queued _).mono fun _ => Called.calm) (Network.disseminating_load load)
    rw [quiet] at spread
    exact spread.heard_by_all (connected.steady steady) heard member
  · intro key st here
    have fresh : Network.Every (fun _ => VotingState.Exhausted) loaded.network := by
      intro key st here
      obtain ⟨q, _, rfl⟩ := Engine.get?_load load here
      exact VotingState.exhausted_fresh q
    exact (along ((Network.exhausted_invariant _).queued.mono fun _ _ => trivial) ⟨rfl, fresh⟩).2 key st here

end Simulation

/-! ## Main result -/

/-- **The outcome of an election.** Let a network be loaded that is a full mesh, or in which there is gossip and all nodes
are joined by links. Let votes for one statement be queued for the nodes of `w` and nobody else, in any order, and let the
simulation be walked forwards. It comes to an end. There, those who accepted the statement are the least set that is
closed under acceptance, those who confirmed it are the ones among them to whom that set is a slice, and nothing else was
accepted or confirmed. -/
theorem election_settled {e loaded : Engine} {nodes : List Node} {links : List (NodeId × NodeId)}
    (load : e.load nodes links = .ok loaded) (connected : loaded.network.Connected) {w : NodeSet} (votes : ∃ z, z ∈ w)
    (members : ∀ z ∈ w, z ∈ nodes.map Node.key) {s : Statement} {submissions : List Submission}
    (queued : ∀ a, a ∈ submissions.map Submission.action ↔ ∃ z ∈ w, a = .vote z s) :
    (Simulation.prepared loaded submissions).Settles ∧
    ∀ limit, ((Simulation.prepared loaded submissions).run limit).1.hasNext = false →
      let n := ((Simulation.prepared loaded submissions).run limit).1.engine.network
      n.keys = nodes.map Node.key ∧ LeastUnderAcceptance nodes w (n.acceptersOf s) ∧
      (∀ u ∈ nodes, u.key ∈ n.confirmersOf s ↔
        u.key ∈ n.acceptersOf s ∧ u.quorumSet.isSlice (n.acceptersOf s) = true) ∧
      ∀ key st t, n.roster.get? key = some st → st.accepted = some t ∨ st.confirmed = some t → t = s := by
  refine ⟨Simulation.settles _, fun limit done => ?_⟩
  intro n
  have called : ∀ new ∈ submissions, Called w s new.action := fun new hnew => (queued _).1 (List.mem_map_of_mem hnew)
  have nothing : ∀ old ∈ (Simulation.start loaded []).current.userActions, Called w s old.action :=
    fun _ hold => absurd hold List.not_mem_nil
  obtain ⟨engine, ahead, silent⟩ := Simulation.performAll_submit (.start loaded []) submissions
  have pending : ∀ a, a ∈ (Simulation.prepared loaded submissions).current.pendingUser ↔ Called w s a := by
    intro a
    rw [Called, ← queued a]
    exact (Simulation.pendingUser_submit called nothing a).trans (or_iff_left List.not_mem_nil)
  have concluded : Network.Concluded nodes w s n :=
    Simulation.concluded_of_run load connected members engine ahead silent pending done
  have nodup := Engine.keys_nodup_of_load load
  refine ⟨concluded.keys, ⟨concluded.closed nodup votes, fun c closed => concluded.least closed⟩, ?_, ?_⟩
  · intro u hu
    exact concluded.confirmed_iff nodup hu
  · intro key st t here said
    apply concluded.eq_of_accepted here
    rcases said with accepted | confirmed
    · exact accepted
    · exact (concluded.electing_all.deliberate.truthful.coherent here).confirmed_accepted t confirmed

/-- three nodes in a row: the first and the last trust themselves, the one in the middle trusts both -/
def torn : List Node :=
  [⟨"I", .flat 1 ["I"] (by decide)⟩, ⟨"J", .flat 2 ["I", "K"] (by decide)⟩, ⟨"K", .flat 1 ["K"] (by decide)⟩]

def tornEngine : Engine := .ofSetup ⟨torn, ⟨false, true, .ofList [.between "I" "J", .between "J" "K"]⟩⟩

/-- the first two nodes are to vote -/
def tornVotes : List Submission := [⟨.vote "J" "x", some 0⟩, ⟨.vote "I" "x", some 1⟩]

def tornElection : Simulation := .prepared tornEngine tornVotes

/-- the node in the middle is between all others -/
theorem tornEngine_connected : tornEngine.network.Connected := by
  have toMiddle : ∀ a ∈ tornEngine.network.keys, Relation.ReflTransGen tornEngine.network.Neighbours a "J" ∧
      Relation.ReflTransGen tornEngine.network.Neighbours "J" a := by
    have linked : ∀ a ∈ tornEngine.network.keys, a = "J" ∨
        (tornEngine.network.overlay.isConnected a "J" tornEngine.network.keys = true ∧
          tornEngine.network.overlay.isConnected "J" a tornEngine.network.keys = true) := by decide +kernel
    intro a ha
    rcases linked a ha with rfl | ⟨there, back⟩
    · exact ⟨.refl, .refl⟩
    · exact ⟨.single there, .single back⟩
  refine Or.inr ⟨rfl, fun a ha b hb => ?_⟩
  exact (toMiddle a ha).1.trans (toMiddle b hb).2

/-- the node in the middle is blocked by the first one and accepts as well, but only the first one confirms, since the
last one is not moved by the others -/
theorem tornElection_settled :
    (Engine.bare false true).load torn [("I", "J"), ("J", "K")] = .ok tornEngine ∧ tornElection.Settles ∧
    (tornElection.run 8).1.hasNext = false ∧
    (tornElection.run 8).1.engine.network.acceptersOf "x" = .ofList ["I", "J"] ∧
    (tornElection.run 8).1.engine.network.confirmersOf "x" = .ofList ["I"] ∧
    LeastUnderAcceptance torn (.ofList ["I", "J"]) (.ofList ["I", "J"]) ∧
    ∀ u ∈ torn, u.key ∈ SortedSet.ofList ["I"] ↔
      u.key ∈ SortedSet.ofList ["I", "J"] ∧ u.quorumSet.isSlice (.ofList ["I", "J"]) = true := by
  have load : (Engine.bare false true).load torn [("I", "J"), ("J", "K")] = .ok tornEngine := by rfl
  have votes : ∃ z, z ∈ SortedSet.ofList ["I", "J"] := ⟨"I", by decide⟩
  have members : ∀ z ∈ SortedSet.ofList ["I", "J"], z ∈ torn.map Node.key := by decide +kernel
  have queued : ∀ a, a ∈ tornVotes.map Submission.action ↔ ∃ z ∈ SortedSet.ofList ["I", "J"], a = .vote z "x" := by
    intro a
    simp [tornVotes, or_comm]
  have done : (tornElection.run 8).1.hasNext = false := by decide +kernel
  have accepters : (tornElection.run 8).1.engine.network.acceptersOf "x" = .ofList ["I", "J"] := by decide +kernel
  have confirmers : (tornElection.run 8).1.engine.network.confirmersOf "x" = .ofList ["I"] := by decide +kernel
  obtain ⟨settles, outcome⟩ := election_settled load tornEngine_connected votes members queued
  have ended := outcome 8 done
  rw [show Simulation.prepared tornEngine tornVotes = tornElection from rfl] at ended
  dsimp only at ended
  rw [accepters, confirmers] at ended
  obtain ⟨_, least, confirmed, _⟩ := ended
  exact ⟨load, settles, done, accepters, confirmers, least, confirmed⟩

end FederatedAgreement
