/-
Byzantine agreement: nodes outside a set of bad nodes never accept different statements, whatever is said in the name of
bad nodes, however messages are lost and links are made and dropped. The bad nodes must not block any other node, and
every two other nodes must trust through common nodes that are not bad.

The first node outside the bad ones that accepts a statement cannot do so because of acceptances, since those are all by
bad nodes, which do not block it. It therefore has a slice of which everyone who is not bad voted for the statement. Two
such slices share a node that voted for both statements.

Results:
- `voted_slice_of_first`: why a statement can be accepted first.
- `Rooted.change`: that reason stays.
- `agreement_despite_bad`: **no disagreement** on accepted or confirmed statements.
-/
import FederatedAgreement.Proofs.Network.Authenticity
import FederatedAgreement.Proofs.QuorumSet.Slices

namespace FederatedAgreement

/-! ## What is demanded -/

/-- the bad nodes block no other node, and the slices of every two other nodes have a node in common that is not bad -/
structure Robust (bad : NodeSet) (nodes : List Node) : Prop where
  unblocked : ∀ u ∈ nodes, u.key ∉ bad → u.quorumSet.isBlocking bad = false
  common : ∀ u ∈ nodes, ∀ w ∈ nodes, u.key ∉ bad → w.key ∉ bad → u.key ≠ w.key →
    ∀ s ∈ u.quorumSet.slices, ∀ t ∈ w.quorumSet.slices, ∃ z, z ∈ s ∧ z ∈ t ∧ z ∉ bad

/-- orders that operators may give: to vote, to make and drop links, and to forge messages in the name of bad nodes -/
def Tolerable (bad : NodeSet) : UserAction → Prop
  | .vote .. | .connect .. | .disconnect .. => True
  | .forge m => m.vote.voter ∈ bad
  | .addNode .. | .removeNode .. | .updateQuorumSet .. => False

instance (bad : NodeSet) : (a : UserAction) → Decidable (Tolerable bad a)
  | .vote .. | .connect .. | .disconnect .. => isTrue trivial
  | .forge m => inferInstanceAs (Decidable (m.vote.voter ∈ bad))
  | .addNode .. | .removeNode .. | .updateQuorumSet .. => isFalse id

theorem settled_tolerable (bad : NodeSet) : Network.Settled (Tolerable bad) :=
  ⟨fun _ _ h => h, fun _ h => h, fun _ _ h => h⟩

namespace Network

variable {bad : NodeSet} {allowed : UserAction → Prop} {given : Message → Prop} {n n' : Network} {nodes : List Node}
  {s t : Statement}

/-! ## First acceptances -/

/-- everyone in the set who is not bad voted for the statement -/
def AllVoted (bad : NodeSet) (n : Network) (slice : NodeSet) (s : Statement) : Prop :=
  ∀ z ∈ slice, z ∉ bad → ∃ st, n.roster.get? z = some st ∧ st.voted = some s

/-- if no node that is not bad accepted the statement, the acceptances that anyone holds are by bad nodes -/
theorem acceptersOf_subset_bad (h : Truthful bad n) {key : NodeId} {st : VotingState}
    (here : n.roster.get? key = some st)
    (unaccepted : ∀ z sz, z ∉ bad → n.roster.get? z = some sz → sz.accepted ≠ some s) : st.acceptersOf s ⊆ bad := by
  intro z hz
  obtain ⟨v, hv, rfl, accept, rfl⟩ := VotingState.mem_acceptersOf.1 hz
  rcases h.backed here (Or.inl hv) with hbad | ⟨sz, there, stands⟩
  · exact hbad
  · rw [VotingState.Stands, if_pos accept] at stands
    by_cases hbad : v.voter ∈ bad
    · exact hbad
    · exact absurd stands (unaccepted v.voter sz hbad there)

/-- if no node that is not bad accepted the statement, everyone known to back it voted for it or is bad -/
theorem allVoted_votersFor (h : Truthful bad n) {key : NodeId} {st : VotingState}
    (here : n.roster.get? key = some st)
    (unaccepted : ∀ z sz, z ∉ bad → n.roster.get? z = some sz → sz.accepted ≠ some s) :
    AllVoted bad n (st.votersFor s) s := by
  intro z hz hgood
  obtain ⟨v, hv, rfl, rfl⟩ := VotingState.mem_votersFor.1 hz
  rcases h.backed here (Or.inl hv) with hbad | ⟨sz, there, stands⟩
  · exact absurd hbad hgood
  · refine ⟨sz, there, ?_⟩
    unfold VotingState.Stands at stands
    split at stands
    · exact absurd stands (unaccepted v.voter sz hgood there)
    · exact stands

/-- **Why a statement can be accepted first.** As long as no node that is not bad accepted a statement, a node that bad
nodes do not block can only accept it on a slice of which everyone who is not bad voted for it. -/
theorem voted_slice_of_first (h : Truthful bad n) {key : NodeId} {st : VotingState} {g : Ground}
    (here : n.roster.get? key = some st) (unblocked : st.quorumSet.isBlocking bad = false)
    (unaccepted : ∀ z sz, z ∉ bad → n.roster.get? z = some sz → sz.accepted ≠ some s)
    (ground : st.ground? s = some g) : ∃ slice ∈ st.quorumSet.slices, AllVoted bad n slice s := by
  rcases VotingState.enough_of_ground ground with enough | blocked
  · obtain ⟨slice, hslice, within⟩ := st.quorumSet.isSlice_iff_exists_slice.1 enough
    exact ⟨slice, hslice, fun z hz => allVoted_votersFor h here unaccepted z (within z hz)⟩
  · have := st.quorumSet.isBlocking_mono (acceptersOf_subset_bad h here unaccepted) blocked
    rw [unblocked] at this
    exact absurd this (by decide)

/-- some node that is not bad accepted the statement, and has a slice of which everyone who is not bad voted for it -/
def Rooted (bad : NodeSet) (n : Network) (s : Statement) : Prop :=
  ∃ key st, key ∉ bad ∧ n.roster.get? key = some st ∧ st.accepted = some s ∧
    ∃ slice ∈ st.quorumSet.slices, AllVoted bad n slice s

theorem AllVoted.change {slice : NodeSet} (hs : AllVoted bad n slice s) (h : Truthful bad n)
    (fixed : Settled allowed) (c : Change allowed given n n') : AllVoted bad n' slice s := by
  intro z hz hgood
  obtain ⟨st, here, voted⟩ := hs z hz hgood
  obtain ⟨st', there, turn⟩ := c.forward (fixed.removeNode z) here
  exact ⟨st', there, (turn.advances (h.coherent here)).voted s voted⟩

theorem Rooted.change (hs : Rooted bad n s) (h : Truthful bad n) (fixed : Settled allowed)
    (c : Change allowed given n n') : Rooted bad n' s := by
  obtain ⟨key, st, hgood, here, accepted, slice, hslice, all⟩ := hs
  obtain ⟨st', there, turn⟩ := c.forward (fixed.removeNode key) here
  refine ⟨key, st', hgood, there, (turn.advances (h.coherent here)).accepted s accepted, slice, ?_,
    all.change h fixed c⟩
  rw [turn.quorumSet fixed]
  exact hslice

/-! ## The invariant -/

/-- what holds throughout: votes are authentic, trust is as given, and what nodes accepted is rooted -/
structure Sound (bad : NodeSet) (nodes : List Node) (n : Network) : Prop where
  truthful : Truthful bad n
  trusts : Trusts nodes n
  rooted : ∀ {key st s}, key ∉ bad → n.roster.get? key = some st → st.accepted = some s → Rooted bad n s

/-- a node that newly accepts a statement either follows one that did so before, or is the first to do so -/
theorem Sound.rooted_of_accept (h : Sound bad nodes n) (robust : Robust bad nodes) (fixed : Settled allowed)
    (c : Change allowed given n n') {key : NodeId} {st : VotingState} {g : Ground} (hgood : key ∉ bad)
    (here : n.roster.get? key = some st) (ground : st.ground? s = some g)
    (accepted : ∃ st', n'.roster.get? key = some st' ∧ st'.accepted = some s ∧ st'.quorumSet = st.quorumSet) :
    Rooted bad n' s := by
  by_cases before : ∃ z sz, z ∉ bad ∧ n.roster.get? z = some sz ∧ sz.accepted = some s
  · obtain ⟨z, sz, hz, there, hs⟩ := before
    exact (h.rooted hz there hs).change h.truthful fixed c
  · have unaccepted : ∀ z sz, z ∉ bad → n.roster.get? z = some sz → sz.accepted ≠ some s := by
      intro z sz hz there hs
      exact before ⟨z, sz, hz, there, hs⟩
    have unblocked := robust.unblocked _ (h.trusts here) hgood
    obtain ⟨slice, hslice, all⟩ := voted_slice_of_first h.truthful here unblocked unaccepted ground
    obtain ⟨st', there, hs, trust⟩ := accepted
    exact ⟨key, st', hgood, there, hs, slice, trust ▸ hslice, all.change h.truthful fixed c⟩

theorem Sound.change (h : Sound bad nodes n) (robust : Robust bad nodes) (fixed : Settled allowed)
    (c : Change allowed given n n') (carried : ∀ v, Carried given v → Backed bad n v) : Sound bad nodes n' := by
  refine ⟨h.truthful.change fixed.removeNode c carried, Trusts.change h.trusts fixed c, ?_⟩
  intro key st' s hgood there accepted
  obtain ⟨st, here, turn⟩ := c.origin_of_settled fixed there
  have trust := turn.quorumSet fixed
  have stays : st.accepted = some s → Rooted bad n' s := fun hs =>
    (h.rooted hgood here hs).change h.truthful fixed c
  cases turn with
  | same => exact stays accepted
  | retrust _ => exact stays accepted
  | move m =>
    cases m with
    | accept _ _ ground =>
      cases accepted
      exact h.rooted_of_accept robust fixed c hgood here ground ⟨_, there, rfl, trust⟩
    | _ => exact stays accepted

theorem sound_load {e loaded : Engine} {links : List (NodeId × NodeId)} (h : e.load nodes links = .ok loaded) :
    Sound bad nodes loaded.network := by
  refine ⟨truthful_load h, trusts_load h, ?_⟩
  intro key st s _ here accepted
  obtain ⟨q, _, rfl⟩ := Engine.get?_load h here
  simp [VotingState.fresh] at accepted

theorem sound_invariant (robust : Robust bad nodes) :
    Invariant (Tolerable bad) (Sound bad nodes) (fun n m => Backed bad n m.vote) :=
  invariant_of_truthful (settled_tolerable bad).removeNode (fun _ ordered => ordered) Sound.truthful
    fun h c carried => h.change robust (settled_tolerable bad) c carried

/-- two statements with roots are one: either the roots are one node, or their slices have a voter in common -/
theorem Sound.eq_of_rooted (h : Sound bad nodes n) (robust : Robust bad nodes) (hs : Rooted bad n s)
    (ht : Rooted bad n t) : s = t := by
  obtain ⟨u, su, hu, here, accepted, slice, hslice, all⟩ := hs
  obtain ⟨w, sw, hw, there, accepted', slice', hslice', all'⟩ := ht
  by_cases same : u = w
  · subst same
    cases here.symm.trans there
    exact Option.some.inj (accepted.symm.trans accepted')
  · obtain ⟨z, hz, hz', hgood⟩ :=
      robust.common _ (h.trusts here) _ (h.trusts there) hu hw same slice hslice slice' hslice'
    obtain ⟨sz, hsz, voted⟩ := all z hz hgood
    obtain ⟨sz', hsz', voted'⟩ := all' z hz' hgood
    cases hsz.symm.trans hsz'
    exact Option.some.inj (voted.symm.trans voted')

end Network

/-! ## Main result -/

/-- **Agreement in spite of bad nodes.** In a network whose nodes were loaded, whose bad nodes block no other node, and
where every two other nodes trust through common nodes that are not bad, no two nodes that are not bad ever accept
different statements, or confirm them. Any messages may be disrupted, anyone may vote, links may come and go, and
messages may be forged in the name of bad nodes. -/
theorem agreement_despite_bad {e loaded : Engine} {nodes : List Node} {links : List (NodeId × NodeId)} {bad : NodeSet}
    (load : e.load nodes links = .ok loaded) (robust : Robust bad nodes) {rounds : List Round}
    (orders : ∀ r ∈ rounds, ∀ a ∈ r.orders, Tolerable bad a) {u w : NodeId} {su sw : VotingState}
    (hu : u ∉ bad) (hw : w ∉ bad) (here : ((Session.start loaded).run rounds).state? u = some su)
    (there : ((Session.start loaded).run rounds).state? w = some sw) :
    (∀ s t, su.accepted = some s → sw.accepted = some t → s = t) ∧
      ∀ s t, su.confirmed = some s → sw.confirmed = some t → s = t := by
  have sound := (Network.sound_invariant robust).run_start orders (Network.sound_load load)
  have accepted : ∀ s t, su.accepted = some s → sw.accepted = some t → s = t := by
    intro s t hs ht
    exact sound.eq_of_rooted robust (sound.rooted hu here hs) (sound.rooted hw there ht)
  refine ⟨accepted, fun s t hs ht => accepted s t ?_ ?_⟩
  · exact (sound.truthful.coherent here).confirmed_accepted s hs
  · exact (sound.truthful.coherent there).confirmed_accepted t ht

/-- four nodes, each of which trusts any three of the four -/
def threeOfFour : List Node :=
  let trust : QuorumSet := .flat 3 ["A", "B", "C", "D"] (by decide)
  [⟨"A", trust⟩, ⟨"B", trust⟩, ⟨"C", trust⟩, ⟨"D", trust⟩]

/-- three of the nodes vote for one statement, another is forged in the name of the fourth, and a message is lost -/
def forgedRounds : List Round :=
  [⟨[.vote "A" "x", .vote "B" "x", .vote "C" "x", .forge ⟨"D", "A", ⟨"y", "D", true⟩⟩], []⟩, ⟨[], [0]⟩, ⟨[], []⟩,
    ⟨[], []⟩, ⟨[], []⟩, ⟨[], []⟩, ⟨[], []⟩]

def forgedSession : Session := (Session.start (.ofSetup ⟨threeOfFour, .bare true false⟩)).run forgedRounds

/-- the fourth node alone blocks none of the others, and any two slices have two more nodes in common -/
theorem robust_threeOfFour : Robust (.singleton "D") threeOfFour where
  unblocked := by decide +kernel
  common := by decide +kernel

/-- three of the four nodes accept and confirm a statement, in spite of what is said in the name of the fourth -/
theorem threeOfFour_agree : ∃ su sw, forgedSession.state? "A" = some su ∧ forgedSession.state? "B" = some sw ∧
    su.confirmed = some "x" ∧ (∀ s t, su.accepted = some s → sw.accepted = some t → s = t) ∧
    ∀ s t, su.confirmed = some s → sw.confirmed = some t → s = t := by
  have load : (Engine.bare true false).load threeOfFour [] = .ok (.ofSetup ⟨threeOfFour, .bare true false⟩) := by rfl
  have first : (forgedSession.state? "A").map VotingState.confirmed = some (some "x") := by decide +kernel
  have second : (forgedSession.state? "B").map VotingState.confirmed = some (some "x") := by decide +kernel
  obtain ⟨su, here, confirmed⟩ := Option.map_eq_some_iff.1 first
  obtain ⟨sw, there, _⟩ := Option.map_eq_some_iff.1 second
  have orders : ∀ r ∈ forgedRounds, ∀ a ∈ r.orders, Tolerable (.singleton "D") a := by decide
  have agree := agreement_despite_bad load robust_threeOfFour orders (by decide) (by decide) here there
  exact ⟨su, sw, here, there, confirmed, agree⟩

end FederatedAgreement
