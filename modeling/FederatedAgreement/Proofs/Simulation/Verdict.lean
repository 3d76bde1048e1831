/-
Verdicts: what is said of a simulation as a whole, that there is consensus or that the network is split. Whatever operators
did to the simulation, its network is one that comes about from a loaded one by single actions, so at each node the phase
says whether a statement is confirmed, and the counts agree with each other. A confirmation is never taken back. So as long
as no node comes or leaves, no count of confirmations goes down, and a verdict stays.

Results:
- `Network.Reachable.continues`: a batch that leaves the members as they are only makes each of them go on.
- `Network.Reachable.exact`: what the counts and verdicts of a reachable network say.
- `Network.Continues.endures`: as nodes go on, no count goes down and no verdict is taken back.
- `Simulation.reachable_afterAny`: the network of a simulation is reachable, whatever operators did.
- `Simulation.verdicts_exact_and_permanent`: **verdicts are exact and permanent**.
-/
import FederatedAgreement.Proofs.Network.Consensus
import FederatedAgreement.Proofs.Network.Reachable
import FederatedAgreement.Proofs.Scenario.OtherOverlay

namespace FederatedAgreement

/-! ## Members that go on -/

namespace Network

variable {n n' : Network}

/-- no node comes or leaves by the order -/
def KeepsMembers (u : UserAction) : Prop := u.kind ≠ .addNode ∧ u.kind ≠ .removeNode

instance (u : UserAction) : Decidable (KeepsMembers u) := inferInstanceAs (Decidable (_ ∧ _))

/-- the same nodes are there, and no node took anything back -/
structure Continues (n n' : Network) : Prop where
  keys : n'.keys = n.keys
  advances : ∀ key st, n.roster.get? key = some st →
    ∃ st', n'.roster.get? key = some st' ∧ st'.Coherent key ∧ st.Advances st'

theorem Change.keys {allowed : UserAction → Prop} {given : Message → Prop} (c : Change allowed given n n')
    (members : ∀ u, allowed u → KeepsMembers u) : n'.keys = n.keys := by
  cases c with
  | act here _ => exact Roster.keys_put_of_get? here _
  | link _ _ _ | unlink _ _ _ => rfl
  | join ordered _ => exact absurd rfl (members _ ordered).1
  | leave ordered _ => exact absurd rfl (members _ ordered).2
  | retrust _ here => exact Roster.keys_put_of_get? here _

/-- whatever messages are under way, changes without coming and leaving only make nodes go on -/
theorem continues_invariant (n : Network) : Invariant KeepsMembers (Continues n) fun _ _ => True where
  holds := by
    intro n' n'' h c
    refine ⟨(c.keys fun _ members => members).trans h.keys, fun key st here => ?_⟩
    obtain ⟨mid, there, coherent, advanced⟩ := h.advances key st here
    obtain ⟨st', there', turn⟩ := c.forward (fun leaves => leaves.2 rfl) there
    exact ⟨st', there', turn.coherent coherent, advanced.trans (turn.advances coherent)⟩
  good _ _ _ := trivial
  sent _ _ _ := trivial
  forged _ _ := trivial

/-- **Going on.** A batch in which no node is added or removed leaves the same nodes, none of which took anything back,
whatever is forged, disrupted, linked, unlinked or trusted in it. -/
theorem Reachable.continues (h : Reachable n) {users : List UserAction} (members : ∀ u ∈ users, KeepsMembers u)
    (protocol : List ProtocolAction) : Continues n (n.execute users protocol).state := by
  have begun : Continues n n := ⟨rfl, fun key st here => ⟨st, here, h.coherent here, .refl st⟩⟩
  exact ((continues_invariant n).queued.execute members ⟨begun, fun _ _ => trivial⟩).1

end Network

/-! ## Exact verdicts -/

namespace Consensus

/-- the counts agree with each other, and the verdicts say of the nodes what they should -/
structure Exact (c : Consensus) (n : Network) : Prop where
  nodes : c.nodeCount = n.keys.length
  phases : (c.phaseCounts.map Prod.snd).foldr (· + ·) 0 = c.nodeCount
  confirmed : c.phaseCounts.lookup .confirmed = some c.confirmedCount
  reached : c.isReached = true ↔
    n.keys ≠ [] ∧ ∃ s, ∀ key st, n.roster.get? key = some st → st.confirmed = some s
  split : c.isSplit = true ↔ ∃ u w su sw, n.roster.get? u = some su ∧ n.roster.get? w = some sw ∧
    ∃ s t, su.confirmed = some s ∧ sw.confirmed = some t ∧ s ≠ t

/-- no count of confirmations goes down, and the verdicts stay -/
structure Endures (c c' : Consensus) : Prop where
  counts : ∀ s k, c.confirmedCounts.lookup s = some k → ∃ k', k ≤ k' ∧ c'.confirmedCounts.lookup s = some k'
  reached : c.isReached = true → c'.isReached = true
  split : c.isSplit = true → c'.isSplit = true

end Consensus

namespace Network

variable {n n' : Network}

/-- where the phases of nodes say what is confirmed, the nodes in the last phase are those that confirmed -/
theorem lookup_phaseCounts (hasNext : Bool) (coherent : ∀ key st, n.roster.get? key = some st → st.Coherent key) :
    (n.consensus hasNext).phaseCounts.lookup .confirmed = some (n.consensus hasNext).confirmedCount := by
  have noted : (n.consensus hasNext).phaseCounts.lookup .confirmed =
      some ((n.consensus hasNext).standings.countP (·.phase = .confirmed)) := rfl
  rw [noted, Consensus.confirmedCount_eq, Consensus.confirmations, List.length_filterMap_eq_countP]
  refine congrArg some (List.countP_congr fun x hx => ?_)
  obtain ⟨st, hst, rfl⟩ := List.mem_map.1 hx
  obtain ⟨key, here⟩ := Roster.mem_values.1 hst
  rw [decide_eq_true_eq, Option.isSome_iff_ne_none]
  exact (coherent key st here).phase_eq_confirmed_iff

theorem Reachable.exact (h : Reachable n) (hasNext : Bool) : (n.consensus hasNext).Exact n where
  nodes := by simp [Consensus.nodeCount, consensus, keys, Roster.keys, Roster.values]
  phases := Consensus.sum_phaseCounts _
  confirmed := lookup_phaseCounts hasNext fun _ _ here => h.coherent here
  reached := isReached_iff
  split := isSplit_iff

/-! ## Permanent verdicts -/

theorem Continues.confirmed (h : Continues n n') {key : NodeId} {st : VotingState} {s : Statement}
    (here : n.roster.get? key = some st) (confirmed : st.confirmed = some s) :
    ∃ st', n'.roster.get? key = some st' ∧ st'.confirmed = some s := by
  obtain ⟨st', there, _, advanced⟩ := h.advances key st here
  exact ⟨st', there, advanced.confirmed s confirmed⟩

/-- of nodes that go on, no fewer have confirmed a statement -/
theorem Continues.count_le (h : Continues n n') (hasNext hasNext' : Bool) (s : Statement) :
    (n.consensus hasNext).confirmations.count s ≤ (n'.consensus hasNext').confirmations.count s := by
  rw [count_confirmations, count_confirmations, h.keys]
  refine List.countP_mono_left fun key _ counted => ?_
  obtain ⟨st, here, confirmed⟩ := (Option.any_eq_true _ _).1 counted
  obtain ⟨st', there, confirmed'⟩ := h.confirmed here (of_decide_eq_true confirmed)
  rw [there]
  exact decide_eq_true confirmed'

theorem Continues.endures (h : Continues n n') (hasNext hasNext' : Bool) :
    (n.consensus hasNext).Endures (n'.consensus hasNext') where
  counts s k noted := by
    obtain ⟨rfl, positive⟩ := Consensus.lookup_confirmedCounts.1 noted
    have more := h.count_le hasNext hasNext' s
    exact ⟨_, more, Consensus.lookup_confirmedCounts.2 ⟨rfl, Nat.lt_of_lt_of_le positive more⟩⟩
  reached reached := by
    obtain ⟨some_node, s, confirmed⟩ := isReached_iff.1 reached
    refine isReached_iff.2 ⟨h.keys ▸ some_node, s, fun key st' there => ?_⟩
    have member : key ∈ n.roster := by
      have later : key ∈ n'.keys := Roster.mem_of_get? there
      rw [h.keys] at later
      exact later
    obtain ⟨st, here⟩ := Roster.mem_iff_exists_get?.1 member
    obtain ⟨st'', there', confirmed'⟩ := h.confirmed here (confirmed key st here)
    cases there.symm.trans there'
    exact confirmed'
  split split := by
    obtain ⟨u, w, su, sw, here, there, s, t, hs, ht, ne⟩ := isSplit_iff.1 split
    obtain ⟨su', here', hs'⟩ := h.confirmed here hs
    obtain ⟨sw', there', ht'⟩ := h.confirmed there ht
    exact isSplit_iff.2 ⟨u, w, su', sw', here', there', s, t, hs', ht', ne⟩

end Network

/-! ## Networks of simulations -/

theorem Setup.Made.reachable {s : Setup} (made : s.Made) : Network.Reachable s.network := by
  obtain ⟨fullMesh, gossip, nodes, links, made⟩ := made
  have loaded : (Engine.bare fullMesh gossip).load nodes links = .ok (.ofSetup s) :=
    Engine.load_eq_ok_iff.2 ⟨s, made, rfl⟩
  exact .load loaded

theorem Engine.reachable_start {fullMesh gossip : Bool} {nodes : List Node} {links : List (NodeId × NodeId)}
    {engine : Engine} (built : Engine.start fullMesh gossip nodes links = .ok engine) : engine.network.Reachable := by
  have made := Engine.made_start built
  rcases Engine.start_eq_ok_iff.1 built with ⟨_, rfl⟩ | ⟨_, setup, _, rfl⟩ <;> exact made.reachable

theorem Network.Reachable.replay {n : Network} (h : n.Reachable) (history : List LiveStep) :
    Network.Reachable (FederatedAgreement.replay n history) := by
  induction history generalizing n with
  | nil => exact h
  | cons s history ih => exact ih (h.execute s.pendingUser s.protocolActions)

namespace Simulation

/-- operations lead from reachable networks to reachable ones -/
theorem lasting_reachable : Lasting fun sim => sim.engine.setup.Made ∧ sim.engine.network.Reachable where
  edit sim e h := by
    rw [edit_eq]
    exact h
  advance sim h := by
    rw [engine_advance]
    exact ⟨h.1, h.2.execute _ _⟩
  back sim h := by
    rcases sim.past_cases with none | ⟨past, previous, behind⟩
    · rw [back_of_nil none]
      exact h
    · rw [back_of_past behind]
      exact ⟨h.1, h.1.reachable.replay past⟩
  rewind sim h := by
    have begun : (restoreEngine sim.engine []).setup.Made ∧ (restoreEngine sim.engine []).network.Reachable :=
      ⟨h.1, h.1.reachable⟩
    unfold Simulation.rewind
    cases sim.steps <;> exact begun
  load := by
    intro sim sim' nodes links h loaded
    have made := lasting_made.load h.1 loaded
    obtain ⟨e, taken, rfl⟩ := load_eq_ok_iff.1 loaded
    exact ⟨made, .load taken⟩

/-- **Reachable networks.** The network of a simulation is reachable, whatever was recorded and whatever operators did. -/
theorem reachable_afterAny {engine : Engine} (made : engine.setup.Made) (begun : engine.network.Reachable)
    (recorded : List LiveStep) (ops : List Operation) : (afterAny engine recorded ops).engine.network.Reachable := by
  refine (lasting_reachable.afterAny ?_ ops).2
  cases recorded <;> exact ⟨made, begun⟩

/-- **Verdicts are exact and permanent.** Take any simulation of an engine that could be built, after any operations on any
recording. The nodes in the four phases add up to all nodes, and those in the last phase are as many as confirmed. There is
consensus exactly when there are nodes and all of them confirmed the same statement, and the network is split exactly when
two nodes confirmed different ones. If no node is added or removed by what is pending, then carrying it out lowers no count
of confirmations, and consensus and split stay if they were there. -/
theorem verdicts_exact_and_permanent {fullMesh gossip : Bool} {nodes : List Node} {links : List (NodeId × NodeId)}
    {engine : Engine} (built : Engine.start fullMesh gossip nodes links = .ok engine) (recorded : List LiveStep)
    (ops : List Operation) :
    ∃ sim, sim = afterAny engine recorded ops ∧ sim.consensus.Exact sim.engine.network ∧
      ((∀ u ∈ sim.current.pendingUser, Network.KeepsMembers u) → sim.consensus.Endures sim.advance.consensus) := by
  have reachable := reachable_afterAny (Engine.made_start built) (Engine.reachable_start built) recorded ops
  refine ⟨_, rfl, reachable.exact _, fun members => ?_⟩
  rw [Simulation.consensus, Simulation.consensus, engine_advance]
  exact (reachable.continues members _).endures _ _

/-- two nodes that are each content with themselves -/
def strangers : List Node := [⟨"G1", .flat 1 ["G1"] (by decide)⟩, ⟨"G2", .flat 1 ["G2"] (by decide)⟩]

/-- each votes for a statement of its own; then the first comes to trust the second, which forges an acceptance of the
first -/
def falseFriend : List Operation :=
  [.command (.edit (.submit ⟨.vote "G1" "x", some 0⟩)), .command (.edit (.submit ⟨.vote "G2" "y", some 1⟩)),
    .command .advance, .command (.edit (.submit ⟨.updateQuorumSet "G1" (.flat 1 ["G2"] (by decide)), some 2⟩)),
    .command (.edit (.submit ⟨.forge ⟨"G2", "G1", ⟨"y", "G1", true⟩⟩, some 3⟩))]

/-- the network was split before the new trust and the forgery, and it stays so -/
theorem falseFriend_split :
    Engine.start true false strangers [] = .ok (.ofSetup ⟨strangers, .bare true false⟩) ∧
    ∃ sim, sim = afterAny (.ofSetup ⟨strangers, .bare true false⟩) [] falseFriend ∧
      sim.current.pendingUser.length = 2 ∧ (∀ u ∈ sim.current.pendingUser, Network.KeepsMembers u) ∧
      sim.consensus.confirmedCounts = [("x", 1), ("y", 1)] ∧
      (sim.consensus.phaseCounts.map Prod.snd).foldr (· + ·) 0 = sim.consensus.nodeCount ∧
      sim.consensus.isSplit = true ∧ sim.advance.consensus.isSplit = true ∧
      ∃ k, 1 ≤ k ∧ sim.advance.consensus.confirmedCounts.lookup "x" = some k := by
  have built : Engine.start true false strangers [] = .ok (.ofSetup ⟨strangers, .bare true false⟩) := by rfl
  obtain ⟨_, rfl, exact, endures⟩ := verdicts_exact_and_permanent built [] falseFriend
  have members : ∀ u ∈ (afterAny (.ofSetup ⟨strangers, .bare true false⟩) [] falseFriend).current.pendingUser,
      Network.KeepsMembers u := by decide +kernel
  have split : (afterAny (.ofSetup ⟨strangers, .bare true false⟩) [] falseFriend).consensus.isSplit = true := by
    decide +kernel
  exact ⟨built, _, rfl, by decide +kernel, members, by decide +kernel, exact.phases, split, (endures members).split split,
    (endures members).counts "x" 1 (by decide +kernel)⟩

end Simulation

end FederatedAgreement
