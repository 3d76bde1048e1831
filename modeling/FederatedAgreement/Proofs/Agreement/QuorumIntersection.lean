/-
What the intersection of quorums is worth. A node confirms a statement on a single slice of its own, and a slice need not
hold a quorum. So networks can split although every two of their quorums share a node; but they cannot split between
nodes whose slices hold quorums, nor once everyone who accepted a statement has also confirmed it.

Results:
- `eq_of_allAccepted`: two statements that were each accepted by a quorum are one.
- `Deliberate.quorum_of_anchored`, `Deliberate.quorum_of_completed`: two ways in which a confirmation involves a quorum.
- `no_split_of_intersection`: **no split** for such nodes, and at such times.
- `ring_splits`: a network that splits although its only quorum is the network itself.
-/
import FederatedAgreement.Proofs.Analysis.Quorums
import FederatedAgreement.Proofs.Network.Authenticity
import FederatedAgreement.Proofs.Network.Consensus
import Mathlib.Data.List.Nodup

namespace FederatedAgreement

open Sorting (SortedSet)

/-! ## What is demanded -/

/-- every slice of the node holds a quorum, the node itself counted in -/
def Anchored (a : Analysis) (u : Node) : Prop := ∀ s ∈ u.quorumSet.slices, ∃ q ∈ a.quorums, q ⊆ s ∪ {u.key}

instance (a : Analysis) (u : Node) : Decidable (Anchored a u) :=
  inferInstanceAs (Decidable (∀ s ∈ u.quorumSet.slices, ∃ q ∈ a.quorums, q ⊆ s ∪ {u.key}))

/-- operators only order votes -/
def VotesOnly (a : UserAction) : Prop := a.kind = .vote

instance (a : UserAction) : Decidable (VotesOnly a) := inferInstanceAs (Decidable (a.kind = .vote))

theorem settled_votesOnly : Network.Settled VotesOnly := ⟨fun _ _ => nofun, fun _ => nofun, fun _ _ => nofun⟩

namespace Network

variable {allowed : UserAction → Prop} {given : Message → Prop} {n n' : Network} {nodes : List Node} {a : Analysis}
  {s t : Statement}

/-! ## The invariant -/

/-- what holds throughout: all votes are authentic, trust is as given, and nodes confirm what one of their slices has
accepted -/
structure Deliberate (nodes : List Node) (n : Network) : Prop where
  truthful : Truthful ∅ n
  trusts : Trusts nodes n
  founded : ∀ {key st}, n.roster.get? key = some st → st.Founded

theorem Deliberate.change (h : Deliberate nodes n) (fixed : Settled allowed) (c : Change allowed given n n')
    (carried : ∀ v, Carried given v → Backed ∅ n v) : Deliberate nodes n' := by
  refine ⟨h.truthful.change fixed.removeNode c carried, Trusts.change h.trusts fixed c, ?_⟩
  intro key st' there
  obtain ⟨st, here, turn⟩ := c.origin_of_settled fixed there
  cases turn with
  | same => exact h.founded here
  | retrust ordered => exact absurd ordered (fixed.updateQuorumSet _ _)
  | move m => exact m.founded (h.founded here)

theorem deliberate_load {e loaded : Engine} {links : List (NodeId × NodeId)} (h : e.load nodes links = .ok loaded) :
    Deliberate nodes loaded.network := by
  refine ⟨truthful_load h, trusts_load h, fun here => ?_⟩
  obtain ⟨q, _, rfl⟩ := Engine.get?_load h here
  exact VotingState.founded_fresh q

theorem deliberate_invariant (nodes : List Node) :
    Invariant VotesOnly (Deliberate nodes) (fun n m => Backed ∅ n m.vote) :=
  invariant_of_truthful settled_votesOnly.removeNode (fun _ => nofun) Deliberate.truthful
    fun h c carried => h.change settled_votesOnly c carried

/-! ## Quorums behind confirmations -/

/-- every node of the set accepted the statement -/
def AllAccepted (n : Network) (q : NodeSet) (s : Statement) : Prop :=
  ∀ z ∈ q, ∃ sz, n.roster.get? z = some sz ∧ sz.accepted = some s

/-- two statements that were each accepted by a quorum are one: the quorums have a node in common -/
theorem eq_of_allAccepted {limit : Int} (analysis : Analysis.ofNodes nodes limit = .ok a)
    (meet : a.hasIntersection = true) {q r : NodeSet} (hq : q ∈ a.quorums) (hr : r ∈ a.quorums)
    (hs : AllAccepted n q s) (ht : AllAccepted n r t) : s = t := by
  obtain ⟨z, hz, hz'⟩ := Analysis.quorums_meet analysis meet hq hr
  obtain ⟨sz, here, accepted⟩ := hs z hz
  obtain ⟨sz', there, accepted'⟩ := ht z hz'
  cases here.symm.trans there
  exact Option.some.inj (accepted.symm.trans accepted')

/-- whoever is known to have accepted a statement has accepted it -/
theorem Deliberate.allAccepted (h : Deliberate nodes n) {key : NodeId} {st : VotingState}
    (here : n.roster.get? key = some st) (s : Statement) : AllAccepted n (st.acceptersOf s) s := by
  intro z hz
  obtain ⟨v, hv, rfl, accept, rfl⟩ := VotingState.mem_acceptersOf.1 hz
  rcases h.truthful.backed here (Or.inl hv) with hbad | ⟨sz, there, stands⟩
  · exact absurd hbad (SortedSet.not_mem_empty _)
  · rw [VotingState.Stands, if_pos accept] at stands
    exact ⟨sz, there, stands⟩

/-- what a node confirms whose slices hold quorums, a quorum has accepted -/
theorem Deliberate.quorum_of_anchored (h : Deliberate nodes n) {u : Node} {st : VotingState}
    (here : n.roster.get? u.key = some st) (trust : st.quorumSet = u.quorumSet) (anchored : Anchored a u)
    (confirmed : st.confirmed = some s) : ∃ q ∈ a.quorums, AllAccepted n q s := by
  have enough := h.founded here s confirmed
  rw [trust] at enough
  obtain ⟨slice, hslice, within⟩ := u.quorumSet.isSlice_iff_exists_slice.1 enough
  obtain ⟨q, hq, inside⟩ := anchored slice hslice
  refine ⟨q, hq, fun z hz => ?_⟩
  rcases SortedSet.mem_union.1 (inside z hz) with hz | hz
  · exact h.allAccepted here s z (within z hz)
  · rw [SortedSet.mem_singleton.1 hz]
    exact ⟨st, here, (h.truthful.coherent here).confirmed_accepted s confirmed⟩

/-- the nodes that confirmed the statement -/
def confirmersOf (n : Network) (s : Statement) : NodeSet :=
  SortedSet.ofList ((n.roster.entries.filter fun e => e.2.confirmed = some s).map Prod.fst)

theorem mem_confirmersOf {z : NodeId} :
    z ∈ n.confirmersOf s ↔ ∃ sz, n.roster.get? z = some sz ∧ sz.confirmed = some s := by
  simp [confirmersOf, Roster.get?_eq_some_iff]

/-- once everyone who accepted has confirmed, those who confirmed a statement are a quorum -/
theorem Deliberate.quorum_of_completed (h : Deliberate nodes n) {limit : Int}
    (analysis : Analysis.ofNodes nodes limit = .ok a) (nodup : (nodes.map Node.key).Nodup)
    (completed : ∀ st ∈ n.roster.values, st.phase ≠ .accepted) {key : NodeId} {st : VotingState}
    (here : n.roster.get? key = some st) (confirmed : st.confirmed = some s) :
    ∃ q ∈ a.quorums, AllAccepted n q s := by
  have accepters : ∀ {u su}, n.roster.get? u = some su → su.acceptersOf s ⊆ n.confirmersOf s := by
    intro u su there z hz
    obtain ⟨sz, hsz, accepted⟩ := h.allAccepted there s z hz
    have settled := completed sz (Roster.mem_values.2 ⟨z, hsz⟩)
    exact mem_confirmersOf.2 ⟨sz, hsz, (h.truthful.coherent hsz).confirmed_of_accepted accepted settled⟩
  refine ⟨n.confirmersOf s, (Analysis.mem_quorums analysis nodup).2 ⟨⟨key, ?_⟩, fun z hz => ?_⟩, fun z hz => ?_⟩
  · exact mem_confirmersOf.2 ⟨st, here, confirmed⟩
  · obtain ⟨sz, hsz, hc⟩ := mem_confirmersOf.1 hz
    exact ⟨_, h.trusts hsz, rfl, sz.quorumSet.isSlice_mono (accepters hsz) (h.founded hsz s hc)⟩
  · obtain ⟨sz, hsz, hc⟩ := mem_confirmersOf.1 hz
    exact ⟨sz, hsz, (h.truthful.coherent hsz).confirmed_accepted s hc⟩

theorem Deliberate.eq_of_anchored (h : Deliberate nodes n) {limit : Int}
    (analysis : Analysis.ofNodes nodes limit = .ok a) (meet : a.hasIntersection = true)
    (nodup : (nodes.map Node.key).Nodup) {u w : Node} (hu : u ∈ nodes) (hw : w ∈ nodes) (anchored_u : Anchored a u)
    (anchored_w : Anchored a w) {su sw : VotingState} (here : n.roster.get? u.key = some su)
    (there : n.roster.get? w.key = some sw) (hs : su.confirmed = some s) (ht : sw.confirmed = some t) : s = t := by
  have trust_u := List.inj_on_of_nodup_map nodup (h.trusts here) hu rfl
  have trust_w := List.inj_on_of_nodup_map nodup (h.trusts there) hw rfl
  obtain ⟨q, hq, all⟩ := h.quorum_of_anchored here (congrArg Node.quorumSet trust_u) anchored_u hs
  obtain ⟨r, hr, all'⟩ := h.quorum_of_anchored there (congrArg Node.quorumSet trust_w) anchored_w ht
  exact eq_of_allAccepted analysis meet hq hr all all'

theorem Deliberate.eq_of_completed (h : Deliberate nodes n) {limit : Int}
    (analysis : Analysis.ofNodes nodes limit = .ok a) (meet : a.hasIntersection = true)
    (nodup : (nodes.map Node.key).Nodup) (completed : ∀ st ∈ n.roster.values, st.phase ≠ .accepted) {u w : NodeId}
    {su sw : VotingState} (here : n.roster.get? u = some su) (there : n.roster.get? w = some sw)
    (hs : su.confirmed = some s) (ht : sw.confirmed = some t) : s = t := by
  obtain ⟨q, hq, all⟩ := h.quorum_of_completed analysis nodup completed here hs
  obtain ⟨r, hr, all'⟩ := h.quorum_of_completed analysis nodup completed there ht
  exact eq_of_allAccepted analysis meet hq hr all all'

end Network

/-! ## Main result -/

/-- **No split where quorums decide.** Let a network be loaded in which every two quorums share a node, and let operators
only order votes, while any messages may be disrupted. Nodes all of whose slices hold quorums never confirm different
statements, so the network never splits if all nodes are such; and whatever the slices hold, the network is not split
whenever everyone who accepted a statement has also confirmed it. -/
theorem no_split_of_intersection {e loaded : Engine} {nodes : List Node} {links : List (NodeId × NodeId)} {limit : Int}
    {a : Analysis} (load : e.load nodes links = .ok loaded) (analysis : Analysis.ofNodes nodes limit = .ok a)
    (meet : a.hasIntersection = true) {rounds : List Round} (orders : ∀ r ∈ rounds, ∀ o ∈ r.orders, VotesOnly o) :
    (∀ u ∈ nodes, ∀ w ∈ nodes, Anchored a u → Anchored a w → ∀ su sw s t,
      ((Session.start loaded).run rounds).state? u.key = some su →
      ((Session.start loaded).run rounds).state? w.key = some sw →
      su.confirmed = some s → sw.confirmed = some t → s = t) ∧
    ((∀ u ∈ nodes, Anchored a u) → ∀ hasNext,
      (((Session.start loaded).run rounds).network.consensus hasNext).isSplit = false) ∧
    ((∀ st ∈ ((Session.start loaded).run rounds).network.roster.values, st.phase ≠ .accepted) → ∀ hasNext,
      (((Session.start loaded).run rounds).network.consensus hasNext).isSplit = false) := by
  have nodup := Engine.keys_nodup_of_load load
  have deliberate := (Network.deliberate_invariant nodes).run_start orders (Network.deliberate_load load)
  refine ⟨?_, ?_, ?_⟩
  · intro u hu w hw anchored_u anchored_w su sw s t here there hs ht
    exact deliberate.eq_of_anchored analysis meet nodup hu hw anchored_u anchored_w here there hs ht
  · intro every hasNext
    refine Network.isSplit_eq_false hasNext fun {u w su sw s t} here there hs ht => ?_
    have hu := deliberate.trusts here
    have hw := deliberate.trusts there
    exact deliberate.eq_of_anchored analysis meet nodup hu hw (every _ hu) (every _ hw) here there hs ht
  · intro completed hasNext
    exact Network.isSplit_eq_false hasNext (deliberate.eq_of_completed analysis meet nodup completed)

/-- three nodes, each of which trusts any two of the three -/
def twoOfThree : List Node :=
  let trust : QuorumSet := .flat 2 ["P", "Q", "R"] (by decide)
  [⟨"P", trust⟩, ⟨"Q", trust⟩, ⟨"R", trust⟩]

/-- one of them votes against the two others, and a message is lost -/
def contestedRounds : List Round :=
  [⟨[.vote "P" "x", .vote "Q" "x", .vote "R" "y"], []⟩, ⟨[], [1]⟩, ⟨[], []⟩, ⟨[], []⟩, ⟨[], []⟩, ⟨[], []⟩]

def contestedSession : Session := (Session.start (.ofSetup ⟨twoOfThree, .bare true false⟩)).run contestedRounds

/-- all slices of the three nodes hold quorums, all of them come to confirm a statement, and the network is not split -/
theorem twoOfThree_united : ∃ a, Analysis.ofNodes twoOfThree 12 = .ok a ∧ a.hasIntersection = true ∧
    (∀ u ∈ twoOfThree, Anchored a u) ∧
    (∀ st ∈ contestedSession.network.roster.values, st.phase = .confirmed) ∧
    (contestedSession.network.consensus false).isSplit = false := by
  have load : (Engine.bare true false).load twoOfThree [] = .ok (.ofSetup ⟨twoOfThree, .bare true false⟩) := by rfl
  have orders : ∀ r ∈ contestedRounds, ∀ o ∈ r.orders, VotesOnly o := by decide
  have confirmed : ∀ st ∈ contestedSession.network.roster.values, st.phase = .confirmed := by decide +kernel
  have found : (Analysis.ofNodes twoOfThree 12).toOption.any (fun a =>
      a.hasIntersection && decide (∀ u ∈ twoOfThree, Anchored a u)) = true := by decide +kernel
  cases analysis : Analysis.ofNodes twoOfThree 12 with
  | error m => simp [analysis, Except.toOption] at found
  | ok a =>
    simp only [analysis, Except.toOption, Option.any_some, Bool.and_eq_true, decide_eq_true_eq] at found
    obtain ⟨meet, anchored⟩ := found
    have united := (no_split_of_intersection load analysis meet orders).2.1 anchored false
    exact ⟨a, rfl, meet, anchored, confirmed, united⟩

/-! ## Slices without quorums -/

/-- four nodes in a ring, each of which trusts the next one alone -/
def trustRing : List Node :=
  [⟨"A", .flat 1 ["C"] (by decide)⟩, ⟨"B", .flat 1 ["D"] (by decide)⟩, ⟨"C", .flat 1 ["B"] (by decide)⟩,
    ⟨"D", .flat 1 ["A"] (by decide)⟩]

/-- two opposite nodes vote for different statements -/
def ringRounds : List Round :=
  [⟨[.vote "A" "y", .vote "B" "x"], []⟩, ⟨[], []⟩, ⟨[], []⟩, ⟨[], []⟩, ⟨[], []⟩, ⟨[], []⟩, ⟨[], []⟩]

def ringSession : Session := (Session.start (.ofSetup ⟨trustRing, .bare true false⟩)).run ringRounds

/-- **Split in spite of intersection.** The ring has one quorum only, all of its nodes, and yet two nodes come to confirm
different statements: each confirms what the node that it trusts has accepted. -/
theorem ring_splits :
    (Engine.bare true false).load trustRing [] = .ok (.ofSetup ⟨trustRing, .bare true false⟩) ∧
    (∃ a, Analysis.ofNodes trustRing 12 = .ok a ∧ a.hasIntersection = true) ∧
    (∀ r ∈ ringRounds, ∀ o ∈ r.orders, VotesOnly o) ∧ (ringSession.network.consensus false).isSplit = true := by
  refine ⟨by rfl, ?_, by decide, by decide +kernel⟩
  have found : (Analysis.ofNodes trustRing 12).toOption.any Analysis.hasIntersection = true := by decide +kernel
  cases analysis : Analysis.ofNodes trustRing 12 with
  | error m => simp [analysis, Except.toOption] at found
  | ok a =>
    simp only [analysis, Except.toOption, Option.any_some] at found
    exact ⟨a, rfl, found⟩

end FederatedAgreement
