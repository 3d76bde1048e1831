/-
Reachable networks: all that comes about from a loaded network by single actions. Operators may order anything, so nodes
come and go, trust others and have messages forged in their name; and any protocol action may be carried out, also a
disrupted one, or one that nothing called for.

Results:
- `Reachable.execute`: batches of any actions lead to reachable networks.
- `Reachable.every`: what each rule of voting keeps up at a node holds at all nodes of reachable networks.
- `nothing_taken_back`: **phases say what is set**, and no action makes a node take anything back.
- `nothing_left_undone`: **no transition is missed**; the rules have always been applied as far as they go.
-/
import FederatedAgreement.Proofs.Network.Quiescence

namespace FederatedAgreement

namespace Network

variable {n : Network}

/-- what comes about from a loaded network by any actions -/
inductive Reachable : Network → Prop
  | load {e loaded : Engine} {nodes : List Node} {links : List (NodeId × NodeId)}
      (h : e.load nodes links = .ok loaded) : Reachable loaded.network
  | order {n : Network} (u : UserAction) (h : Reachable n) : Reachable (n.applyUser u).state
  | deliver {n : Network} (a : ProtocolAction) (h : Reachable n) : Reachable (n.applyProtocol a).state

theorem reachable_queued : QueueInvariant (fun _ => True) fun n _ => Reachable n where
  ordered _ h _ := .order _ h
  delivered _ h := .deliver _ h

/-- whole batches lead from reachable networks to reachable ones, whatever is in them -/
theorem Reachable.execute (h : Reachable n) (users : List UserAction) (protocol : List ProtocolAction) :
    Reachable (n.execute users protocol).state :=
  reachable_queued.execute (fun _ _ => trivial) h

/-- **Everywhere.** What each rule of voting keeps up at a node, with gossip or without, holds at every node of a
reachable network. -/
theorem Reachable.every {L : NodeId → VotingState → Prop} (I : ∀ gossip, NodeInvariant gossip L) (h : Reachable n) :
    Every L n := by
  induction h with
  | load loaded =>
    intro key st here
    obtain ⟨q, _, rfl⟩ := Engine.get?_load loaded here
    exact (I true).fresh key q
  | order u _ ih => exact ih.applyUser (I true) u
  | @deliver n a _ ih => exact ih.applyProtocol (I n.overlay.gossip) a

/-! ## What a node says and does -/

theorem coherent_invariant (gossip : Bool) : NodeInvariant gossip VotingState.Coherent where
  fresh key q := VotingState.coherent_fresh key q
  retrust {key _} peers q h :=
    (VotingState.evaluate_acts (fun _ => False) (fun _ => False) key peers _).moves.coherent (h.retrust q)
  vote {key st} peers s h := by
    have acts : VotingState.Acts (fun _ => False) (· = s) key st (st.vote key peers s) := VotingState.vote_acts rfl
    exact acts.moves.coherent h
  receive {key st} peers m h := by
    have acts : VotingState.Acts (· = m.vote) (fun _ => False) key st (st.receive key peers gossip m) :=
      VotingState.receive_acts rfl
    exact acts.moves.coherent h

theorem Reachable.coherent (h : Reachable n) {key : NodeId} {st : VotingState} (here : n.roster.get? key = some st) :
    st.Coherent key :=
  h.every coherent_invariant key st here

theorem Reachable.exhausted (h : Reachable n) {key : NodeId} {st : VotingState} (here : n.roster.get? key = some st) :
    st.Exhausted :=
  h.every exhausted_invariant key st here

/-- an outcome of changes that leave a node in the network only makes it go on -/
theorem Proceeds.advances {allowed : UserAction → Prop} {given : Message → Prop} {o : Outcome Network}
    (p : Proceeds allowed given n o) {key : NodeId} {st : VotingState} (stays : ¬ allowed (.removeNode key))
    (here : n.roster.get? key = some st) (h : st.Coherent key) :
    ∃ st', o.state.roster.get? key = some st' ∧ st.Advances st' := by
  obtain ⟨st', there, _, advanced⟩ := p.changes.forward stays here h
  exact ⟨st', there, advanced⟩

end Network

/-! ## Main results -/

open Network

/-- **Nothing is taken back.** The phase of a node in a reachable network says which of its statements are set. Whoever
accepted a statement has voted and took its own acceptance into account, and only what was accepted is confirmed. No action
but the removal of the node lowers its phase, changes what it voted for, accepted or confirmed, or makes it forget a vote
that it took into account. -/
theorem nothing_taken_back {n : Network} (h : Reachable n) {key : NodeId} {st : VotingState}
    (here : n.roster.get? key = some st) :
    (st.phase = .unknown ↔ st.voted = none ∧ st.accepted = none ∧ st.confirmed = none) ∧
    (st.phase = .voted ↔ st.voted ≠ none ∧ st.accepted = none) ∧
    (st.phase = .accepted ↔ st.accepted ≠ none ∧ st.confirmed = none) ∧
    (st.phase = .confirmed ↔ st.confirmed ≠ none) ∧
    (∀ s, st.accepted = some s → st.voted ≠ none ∧ ⟨s, key, true⟩ ∈ st.processed) ∧
    (∀ s, st.confirmed = some s → st.accepted = some s) ∧
    (∀ u, u ≠ .removeNode key → ∃ st', (n.applyUser u).state.roster.get? key = some st' ∧ st.Advances st') ∧
    ∀ a, ∃ st', (n.applyProtocol a).state.roster.get? key = some st' ∧ st.Advances st' := by
  have coherent := h.coherent here
  refine ⟨coherent.phase_eq_unknown_iff, coherent.phase_eq_voted_iff, coherent.phase_eq_accepted_iff,
    coherent.phase_eq_confirmed_iff, fun s accepted => ⟨?_, coherent.own s accepted⟩, coherent.confirmed_accepted, ?_, ?_⟩
  · apply coherent.voted_ne_none
    rw [accepted]
    exact Option.some_ne_none s
  · intro u other
    have proceeds : Proceeds (· = u) (fun _ => True) n (n.applyUser u) := applyUser_proceeds rfl fun _ _ => trivial
    exact proceeds.advances (Ne.symm other) here coherent
  · intro a
    have proceeds : Proceeds (fun _ => False) (fun _ => True) n (n.applyProtocol a) := applyProtocol_proceeds trivial
    exact proceeds.advances id here coherent

/-- two nodes: the first needs both to agree, the second is content with itself -/
def newcomerAndMentor : List Node := [⟨"N", .flat 2 ["N", "M"] (by decide)⟩, ⟨"M", .flat 1 ["M"] (by decide)⟩]

def mentored : Engine := .ofSetup ⟨newcomerAndMentor, .bare true false⟩

/-- the newcomer has been asked to vote -/
def expectant : Network := (mentored.network.applyUser (.vote "N" "x")).state

theorem expectant_reachable : Reachable expectant := by
  have load : (Engine.bare true false).load newcomerAndMentor [] = .ok mentored := by rfl
  exact .order _ (.load load)

def expectantState : VotingState :=
  ⟨.flat 2 ["N", "M"] (by decide), .voted, some "x", none, none, [⟨"x", "N", false⟩], []⟩

/-- an acceptance that the mentor never cast, from a sender that is not there, takes the newcomer to the end at once -/
theorem expectant_advances :
    Reachable expectant ∧ expectant.roster.get? "N" = some expectantState ∧
    (expectantState.phase = .voted ↔ expectantState.voted ≠ none ∧ expectantState.accepted = none) ∧
    ∃ st', (expectant.applyProtocol (.receive ⟨"Z", "N", ⟨"x", "M", true⟩⟩)).state.roster.get? "N" = some st' ∧
      expectantState.Advances st' ∧ st'.phase = .confirmed := by
  have here : expectant.roster.get? "N" = some expectantState := by decide +kernel
  obtain ⟨_, voted, _, _, _, _, _, deliver⟩ := nothing_taken_back expectant_reachable here
  obtain ⟨st', there, advances⟩ := deliver (.receive ⟨"Z", "N", ⟨"x", "M", true⟩⟩)
  have confirmed : ((expectant.applyProtocol (.receive ⟨"Z", "N", ⟨"x", "M", true⟩⟩)).state.roster.get? "N").map
      VotingState.phase = some .confirmed := by decide +kernel
  rw [there] at confirmed
  exact ⟨expectant_reachable, here, voted, st', there, advances, Option.some.inj confirmed⟩

/-- **Nothing is left undone.** A node in a reachable network that has accepted nothing has heard of no statement that it
could accept: its backers are no slice to the node as it trusts others now, and those who accepted it do not block the
node. A node that waits to confirm what it accepted knows too few others who did. So to apply the rules once more changes
nothing, and nothing is seen or sent. -/
theorem nothing_left_undone {n : Network} (h : Reachable n) {key : NodeId} {st : VotingState}
    (here : n.roster.get? key = some st) :
    (st.phase < .accepted → ∀ s ∈ st.knownStatements,
      st.quorumSet.isSlice (st.votersFor s) = false ∧ st.quorumSet.isBlocking (st.acceptersOf s) = false) ∧
    (st.phase = .accepted → ∃ s, st.accepted = some s ∧ st.quorumSet.isSlice (st.acceptersOf s) = false) ∧
    ∀ peers, st.evaluate key peers = .still st := by
  have exhausted := h.exhausted here
  refine ⟨fun below s known => ?_, fun phase => ?_, exhausted.evaluate_eq_still key⟩
  · exact VotingState.ground?_eq_none_iff.1 (exhausted.accept below s known)
  · obtain ⟨set, _⟩ := (h.coherent here).phase_eq_accepted_iff.1 phase
    obtain ⟨s, accepted⟩ := Option.ne_none_iff_exists'.1 set
    exact ⟨s, accepted, exhausted.confirm phase s accepted⟩

/-- a vote that the mentor never cast makes the newcomer accept, and then it comes to trust the mentor and a stranger -/
def halfway : Network :=
  ((expectant.applyProtocol (.receive ⟨"Z", "N", ⟨"x", "M", false⟩⟩)).state.applyUser
    (.updateQuorumSet "N" (.flat 2 ["M", "W"] (by decide)))).state

def halfwayState : VotingState :=
  ⟨.flat 2 ["M", "W"] (by decide), .accepted, some "x", some "x", none,
    [⟨"x", "N", false⟩, ⟨"x", "M", false⟩, ⟨"x", "N", true⟩], []⟩

/-- nobody that the newcomer trusts now has accepted the statement, so it waits, and would go on waiting -/
theorem halfway_waits :
    Reachable halfway ∧ halfway.roster.get? "N" = some halfwayState ∧ halfwayState.phase = .accepted ∧
    (∃ s, halfwayState.accepted = some s ∧ halfwayState.quorumSet.isSlice (halfwayState.acceptersOf s) = false) ∧
    halfwayState.evaluate "N" (halfway.peersOf "N") = .still halfwayState := by
  have reachable : Reachable halfway := .order _ (.deliver _ expectant_reachable)
  have here : halfway.roster.get? "N" = some halfwayState := by decide +kernel
  obtain ⟨_, waiting, done⟩ := nothing_left_undone reachable here
  exact ⟨reachable, here, rfl, waiting rfl, done _⟩

end FederatedAgreement
