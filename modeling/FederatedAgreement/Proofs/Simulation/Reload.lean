/-
Loading other nodes into a simulation that has a history. The network starts over with the new nodes and links, while the
history stays as it is, and so does the place in it. So if there are steps behind the present one, the network is not the
one that these steps lead to from the new start; going back and forward again is what takes it there.

Results:
- `retrace_of_load`: with nothing behind, the network is where the history leads.
- `reload_starts_over`: **loading starts the network over**, wherever the simulation is.
- `reload_forgets`: a vote that was carried out is still behind, but the nodes do not know of it.
-/
import FederatedAgreement.Proofs.Simulation.Rewind

namespace FederatedAgreement.Simulation

variable {sim sim' : Simulation} {nodes : List Node} {links : List (NodeId × NodeId)}

/-! ## Engines and histories -/

/-- an engine that was started over and taken through a history is where the history leads from its setup -/
theorem restoreEngine_eq_retrace (e : Engine) (history : List LiveStep) :
    restoreEngine e history = { e with network := (e.reset.retrace history).network, buffer := [] } := by
  rw [Engine.retrace_network]
  rfl

/-- a step back and a step forward take the network through the steps behind, from the start of the setup -/
theorem back_advance_eq (linked : Linked sim) (hasPast : sim.cursor ≠ 0) :
    sim.performAll [.back, .advance] =
      { sim with
        engine := { sim.engine with
          network := (sim.engine.reset.retrace (sim.steps.take sim.cursor)).network
          buffer := [] }
        reused := sim.reused + 1 } := by
  rw [take_cursor_steps, ← restoreEngine_eq_retrace]
  exact advance_back_of_linked linked hasPast

/-- the links between steps are not what loading changes -/
theorem linked_afterAny (engine : Engine) (recorded : List LiveStep) (ops : List Operation) :
    Linked (afterAny engine recorded ops) :=
  stable_linked.afterAny (fun _ _ h => h) (linked_start engine recorded) ops

/-- with nothing behind, the start of the new setup is where the history leads -/
theorem retrace_of_load (loaded : sim.load nodes links = .ok sim') (first : sim'.cursor = 0) :
    sim'.engine.network = (sim'.engine.reset.retrace (sim'.steps.take sim'.cursor)).network := by
  obtain ⟨e, made, rfl⟩ := load_eq_ok_iff.1 loaded
  obtain ⟨setup, _, rfl⟩ := Engine.load_eq_ok_iff.1 made
  rw [first]
  rfl

/-! ## Main result -/

/-- **Loading starts the network over.** Let any operations be carried out on a simulation, and let other nodes and links be
loaded then. The history stays, and the present step in it. The setup is the one that the nodes and links make, and the
network is at the start of it. This is where the history leads if there are no steps behind; otherwise a step back and a
step forward takes the network through the steps behind, from the start of the new setup, and changes nothing else. -/
theorem reload_starts_over {engine : Engine} {recorded : List LiveStep} {ops : List Operation}
    (loaded : (afterAny engine recorded ops).load nodes links = .ok sim') :
    sim' = { afterAny engine recorded ops with engine := sim'.engine } ∧
    Setup.make (afterAny engine recorded ops).engine.setup.overlay.fullMesh
      (afterAny engine recorded ops).engine.setup.overlay.gossip nodes links = .ok sim'.engine.setup ∧
    sim'.engine.network = sim'.engine.setup.network ∧
    (sim'.cursor = 0 → sim'.engine.network = (sim'.engine.reset.retrace (sim'.steps.take sim'.cursor)).network) ∧
    (sim'.cursor ≠ 0 → sim'.performAll [.back, .advance] =
      { sim' with
        engine := { sim'.engine with
          network := (sim'.engine.reset.retrace (sim'.steps.take sim'.cursor)).network
          buffer := [] }
        reused := sim'.reused + 1 }) := by
  have atStart := retrace_of_load loaded
  obtain ⟨e, made, rfl⟩ := load_eq_ok_iff.1 loaded
  obtain ⟨setup, ofNodes, rfl⟩ := Engine.load_eq_ok_iff.1 made
  exact ⟨rfl, ofNodes, rfl, atStart, back_advance_eq (linked_afterAny engine recorded ops)⟩

def leaderEngine : Engine := .ofSetup ⟨leaderAndFollower, .bare true false⟩

/-- the leader votes, and accepts and confirms at once -/
def leaderVotes : List Operation := [.command (.edit (.submit ⟨.vote "L" "x", some 0⟩)), .command .advance]

/-- the simulation in which the leader has voted, with an engine of other nodes -/
def leaderVoted (nodes : List Node) : Simulation :=
  { afterAny leaderEngine [] leaderVotes with engine := .ofSetup ⟨nodes, .bare true false⟩ }

/-- neither accepts anything without the other -/
def waryPair : List Node := [⟨"L", .flat 2 ["L", "F"] (by decide)⟩, ⟨"F", .flat 2 ["L", "F"] (by decide)⟩]

/-- after loading nodes that are wary, nobody knows of the vote; a step back and a step forward make the leader vote again,
but it does not accept now -/
theorem waryPair_reloaded :
    (afterAny leaderEngine [] leaderVotes).load waryPair [] = .ok (leaderVoted waryPair) ∧
    (leaderVoted waryPair).cursor = 1 ∧ (leaderVoted waryPair).engine.network = .ofNodes waryPair (.bare true false) ∧
    ∃ st, ((leaderVoted waryPair).performAll [.back, .advance]).engine.network.roster.get? "L" = some st ∧
      st.voted = some "x" ∧ st.accepted = none := by
  have loaded : (afterAny leaderEngine [] leaderVotes).load waryPair [] = .ok (leaderVoted waryPair) :=
    load_eq_ok_iff.2 ⟨_, by rfl, rfl⟩
  have behind : (leaderVoted waryPair).cursor = 1 := by rfl
  obtain ⟨_, _, network, _, again⟩ := reload_starts_over loaded
  have there : ((leaderVoted waryPair).performAll [.back, .advance]).engine.network.roster.get? "L" =
      some ⟨.flat 2 ["L", "F"] (by decide), .voted, some "x", none, none, [⟨"x", "L", false⟩], []⟩ := by
    rw [again (by rw [behind]; exact Nat.one_ne_zero)]
    decide +kernel
  exact ⟨loaded, behind, network, _, there, rfl, rfl⟩

/-- **What was carried out is forgotten.** The same nodes are loaded again after a vote was carried out. The step with the
vote is still behind the present one, but the network is not where it leads, and a step back and a step forward change the
network. -/
theorem reload_forgets :
    (afterAny leaderEngine [] leaderVotes).load leaderAndFollower [] = .ok (leaderVoted leaderAndFollower) ∧
    (leaderVoted leaderAndFollower).cursor = 1 ∧
    (leaderVoted leaderAndFollower).engine.network ≠ ((leaderVoted leaderAndFollower).engine.reset.retrace
      ((leaderVoted leaderAndFollower).steps.take (leaderVoted leaderAndFollower).cursor)).network ∧
    ((leaderVoted leaderAndFollower).performAll [.back, .advance]).engine.network ≠
      (leaderVoted leaderAndFollower).engine.network := by
  have loaded : (afterAny leaderEngine [] leaderVotes).load leaderAndFollower [] = .ok (leaderVoted leaderAndFollower) :=
    load_eq_ok_iff.2 ⟨_, by rfl, rfl⟩
  have apart : (leaderVoted leaderAndFollower).engine.network ≠ ((leaderVoted leaderAndFollower).engine.reset.retrace
      ((leaderVoted leaderAndFollower).steps.take (leaderVoted leaderAndFollower).cursor)).network := by decide +kernel
  have linked : Linked (leaderVoted leaderAndFollower) := linked_afterAny leaderEngine [] leaderVotes
  refine ⟨loaded, rfl, apart, fun same => apart ?_⟩
  rw [back_advance_eq linked Nat.one_ne_zero] at same
  exact same.symm

end FederatedAgreement.Simulation
