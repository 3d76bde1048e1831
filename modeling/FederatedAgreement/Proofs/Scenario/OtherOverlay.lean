/-
A recording under another overlay. What is loaded starts over with the same nodes and links under the overlay that was asked
for, so the network goes where the steps lead there. But whether a recorded step is met is settled by hashes of actions, in
which the overlay does not occur. So the recording is met as far as it is an unbroken chain of hashes, whatever overlay it
is loaded under, and what is pending then is what the recording says. Only behind the end of the chain is it what carrying
out a step calls for.

Results:
- `Engine.start_otherMode`: of the nodes and links of any setup, an engine can be built in any mode.
- `Chained.walk`, `misses_of_not_chained`: as far as hashes follow each other, the steps ahead are met, and then no more.
- `met_under_any_overlay`: **a recording is met under any overlay**, and behind its end the steps are true again.
- `separated_still_sends`: so messages can be pending that nobody called for.
-/
import FederatedAgreement.Proofs.Scenario.Export
import FederatedAgreement.Proofs.Simulation.Reload
import FederatedAgreement.Proofs.Simulation.Reuse

namespace FederatedAgreement

/-! ## Other modes -/

/-- the setup is one of nodes and links -/
def Setup.Made (s : Setup) : Prop := ∃ fullMesh gossip nodes links, Setup.make fullMesh gossip nodes links = .ok s

theorem Setup.made_bare (fullMesh gossip : Bool) : Setup.Made ⟨[], .bare fullMesh gossip⟩ :=
  ⟨fullMesh, gossip, [], [], rfl⟩

theorem Engine.made_start {fullMesh gossip : Bool} {nodes : List Node} {links : List (NodeId × NodeId)} {engine : Engine}
    (built : Engine.start fullMesh gossip nodes links = .ok engine) : engine.setup.Made := by
  rcases Engine.start_eq_ok_iff.1 built with ⟨_, rfl⟩ | ⟨_, setup, made, rfl⟩
  · exact Setup.made_bare fullMesh gossip
  · exact ⟨fullMesh, gossip, nodes, links, made⟩

/-- **Other modes.** An engine can be built of the nodes and links of any setup in any mode. -/
theorem Engine.start_otherMode {s : Setup} (made : s.Made) (fullMesh gossip : Bool) :
    ∃ setup : Setup, Engine.start fullMesh gossip s.nodes (s.overlay.links.toList.map Link.ends) = .ok (.ofSetup setup) ∧
      setup.nodes = s.nodes ∧ setup.overlay.SameMode (.bare fullMesh gossip) := by
  obtain ⟨_, _, nodes, links, made⟩ := made
  obtain ⟨distinct, trust, known, rfl⟩ := Setup.make_eq_ok_iff.1 made
  cases nodes with
  | nil => exact ⟨_, Engine.start_eq_ok_iff.2 (Or.inl ⟨rfl, rfl⟩), rfl, rfl, rfl⟩
  | cons node nodes =>
    refine ⟨⟨node :: nodes, (Overlay.bare fullMesh gossip).connectAll _⟩, Engine.start_eq_ok_iff.2 (Or.inr
      ⟨List.cons_ne_nil _ _, _, Setup.make_eq_ok_iff.2 ⟨distinct, trust, fun p given => ?_, rfl⟩, rfl⟩), rfl,
      Overlay.sameMode_connectAll _ _⟩
    obtain ⟨l, there, rfl⟩ := List.mem_map.1 given
    exact Overlay.ends_of_mem_connectAll known there

namespace Simulation

variable {sim : Simulation}

/-- walking and editing do not change the setup -/
theorem stable_setup (setup : Setup) : Stable fun sim => sim.engine.setup = setup where
  edit sim e h := by
    rw [edit_eq]
    exact h
  advance sim h := by
    rw [engine_advance]
    exact h
  back sim h := by
    rcases sim.past_cases with none | ⟨past, previous, behind⟩
    · rw [back_of_nil none]
      exact h
    · rw [back_of_past behind]
      exact h
  rewind sim h := by
    unfold Simulation.rewind
    cases sim.steps <;> exact h

/-- no operation leaves a setup that cannot be made -/
theorem lasting_made : Lasting fun sim => sim.engine.setup.Made where
  edit sim e made := by
    rw [(stable_setup sim.engine.setup).edit sim e rfl]
    exact made
  advance sim made := by
    rw [(stable_setup sim.engine.setup).advance sim rfl]
    exact made
  back sim made := by
    rw [(stable_setup sim.engine.setup).back sim rfl]
    exact made
  rewind sim made := by
    rw [(stable_setup sim.engine.setup).rewind sim rfl]
    exact made
  load := by
    intro sim sim' nodes links _ loaded
    obtain ⟨e, taken, rfl⟩ := load_eq_ok_iff.1 loaded
    obtain ⟨setup, again, rfl⟩ := Engine.load_eq_ok_iff.1 taken
    exact ⟨_, _, nodes, links, again⟩

theorem made_afterAny {engine : Engine} (made : engine.setup.Made) (recorded : List LiveStep) (ops : List Operation) :
    (afterAny engine recorded ops).engine.setup.Made := by
  refine lasting_made.afterAny ?_ ops
  cases recorded <;> exact made

/-! ## Walking along a chain -/

/-- there are so many steps ahead, and up to there each of them carries the hash of the one before -/
def Chained (sim : Simulation) (k : Nat) : Prop :=
  k ≤ sim.future.length ∧ ((sim.current :: sim.future).take (k + 1)).IsChain Follows

theorem chained_zero (sim : Simulation) : Chained sim 0 := ⟨Nat.zero_le _, List.isChain_singleton _⟩

/-- a chain is met step by step -/
theorem chained_succ_iff {k : Nat} : Chained sim (k + 1) ↔ sim.meetsNext = true ∧ Chained sim.advance k := by
  constructor
  · rintro ⟨inside, chain⟩
    cases future : sim.future with
    | nil =>
      rw [future] at inside
      exact absurd inside (Nat.not_succ_le_zero k)
    | cons next rest =>
      rw [future] at inside chain
      obtain ⟨follows, further⟩ := List.isChain_cons_cons.1 chain
      have meets : sim.meetsNext = true := by simpa [meetsNext, future, Follows] using follows
      obtain ⟨_, _, split, _, current, left, _⟩ := advance_of_meets meets
      cases future.symm.trans split
      rw [Chained, current, left]
      exact ⟨meets, Nat.le_of_succ_le_succ inside, further⟩
  · rintro ⟨meets, inside, chain⟩
    obtain ⟨next, rest, future, follows, current, left, _⟩ := advance_of_meets meets
    rw [current, left] at chain
    rw [left] at inside
    rw [Chained, future]
    exact ⟨Nat.succ_le_succ inside, List.isChain_cons_cons.2 ⟨follows, chain⟩⟩

/-- **Along the chain.** As far as hashes follow each other, the steps ahead are met. -/
theorem Chained.walk {k : Nat} (h : Chained sim k) :
    (sim.performAll (.replicate k .advance)).past = sim.past ++ (sim.current :: sim.future).take k ∧
    (sim.performAll (.replicate k .advance)).current :: (sim.performAll (.replicate k .advance)).future =
      (sim.current :: sim.future).drop k ∧
    (sim.performAll (.replicate k .advance)).reused = sim.reused + k := by
  induction k generalizing sim with
  | zero => exact ⟨(List.append_nil _).symm, rfl, rfl⟩
  | succ k ih =>
    obtain ⟨meets, further⟩ := chained_succ_iff.1 h
    obtain ⟨next, rest, future, _, current, left, counted⟩ := advance_of_meets meets
    obtain ⟨past, ahead, reused⟩ := ih further
    rw [performAll_replicate_succ]
    refine ⟨past.trans ?_, ahead.trans ?_, reused.trans ?_⟩
    · rw [past_advance, current, left, future, List.append_assoc]
      rfl
    · rw [current, left, future]
      rfl
    · rw [counted, Nat.add_assoc, Nat.add_comm 1]

theorem cursor_walk (sim : Simulation) (k : Nat) : (sim.performAll (.replicate k .advance)).cursor = sim.cursor + k := by
  induction k generalizing sim with
  | zero => rfl
  | succ k ih =>
    have further : sim.advance.cursor = sim.cursor + 1 := by
      rw [cursor, past_advance, List.length_append]
      rfl
    rw [performAll_replicate_succ, ih, perform, further, Nat.add_assoc, Nat.add_comm 1]

theorem steps_walk {k : Nat} (h : Chained sim k) : (sim.performAll (.replicate k .advance)).steps = sim.steps := by
  obtain ⟨past, ahead, _⟩ := h.walk
  rw [steps, past, ahead, List.append_assoc, List.take_append_drop]
  rfl

/-- where nothing is ahead, nothing is met, however far one goes -/
theorem misses_of_nil (last : sim.future = []) (k : Nat) : (sim.performAll (.replicate k .advance)).meetsNext = false := by
  induction k generalizing sim with
  | zero =>
    show sim.meetsNext = false
    simp [meetsNext, last]
  | succ k ih =>
    have misses : sim.meetsNext = false := by simp [meetsNext, last]
    exact ih (advance_of_misses misses).1

/-- **Behind the chain.** Where the chain ends, nothing is met. -/
theorem misses_of_not_chained {k : Nat} (broken : ¬ Chained sim (k + 1)) :
    (sim.performAll (.replicate k .advance)).meetsNext = false := by
  induction k generalizing sim with
  | zero =>
    refine Bool.eq_false_iff.2 fun meets => broken ?_
    exact chained_succ_iff.2 ⟨meets, chained_zero sim.advance⟩
  | succ k ih =>
    rw [performAll_replicate_succ]
    cases meets : sim.meetsNext with
    | true => exact ih fun chained => broken (chained_succ_iff.2 ⟨meets, chained⟩)
    | false => exact misses_of_nil (advance_of_misses meets).1 k

/-- where no step is met, the new step records what carrying out the present one leads to -/
theorem records_of_misses {setup : Setup} (faithful : Faithful setup sim) (misses : sim.meetsNext = false) :
    Records sim.engine.network sim.current sim.advance.current := by
  rcases advance_cases faithful with ⟨next, rest, future, follows, _⟩ | ⟨records, _⟩
  · have meets : sim.meetsNext = true := by simpa [meetsNext, future, Follows] using follows
    rw [misses] at meets
    exact absurd meets Bool.false_ne_true
  · rw [faithful.network]
    exact records

end Simulation

namespace Scenario

open Simulation

/-- up to the step at the index, each step but the first carries the hash of what the one before holds -/
def Unbroken (s : Scenario) (k : Nat) : Prop :=
  k < s.steps.length ∧
    (s.steps.take (k + 1)).IsChain fun a b => b.previousHash = actionsHash a.userActions a.protocolActions

instance (s : Scenario) (k : Nat) : Decidable (s.Unbroken k) := by
  unfold Unbroken
  infer_instance

/-- the steps as they are loaded -/
def live (s : Scenario) : List LiveStep := s.steps.map (Step.map fun a => ⟨a, none⟩)

theorem action_live (s : Scenario) : s.live.map (Step.map Submission.action) = s.steps := by
  have back : ∀ step : Step UserAction, (step.map fun a => (⟨a, none⟩ : Submission)).map Submission.action = step := by
    rintro ⟨users, protocol, events, hash⟩
    simp [Step.map, Function.comp_def]
  simp [live, Function.comp_def, back]

/-- what is loaded is at the first of the steps of the recording -/
theorem start_live {s : Scenario} (first : s.steps ≠ []) (engine : Engine) :
    (start engine s.live).engine = engine ∧ (start engine s.live).cursor = 0 ∧ (start engine s.live).reused = 0 ∧
      (start engine s.live).contents = s.steps := by
  rw [contents]
  have action := s.action_live
  cases h : s.live with
  | nil => exact absurd (List.map_eq_nil_iff.1 h) first
  | cons step rest =>
    rw [h] at action
    exact ⟨rfl, rfl, rfl, action⟩

/-- what is loaded has the chain of the recording ahead, whatever its engine is -/
theorem chained_start_iff {s : Scenario} (first : s.steps ≠ []) (engine : Engine) (k : Nat) :
    Chained (start engine s.live) k ↔ s.Unbroken k := by
  have hash : ∀ step : Step UserAction, LiveStep.hash (step.map fun a => (⟨a, none⟩ : Submission)) =
      actionsHash step.userActions step.protocolActions := by
    intro step
    simp [LiveStep.hash, LiveStep.pendingUser, Step.map, Function.comp_def]
  have chain : (s.live.take (k + 1)).IsChain Follows ↔
      (s.steps.take (k + 1)).IsChain fun a b => b.previousHash = actionsHash a.userActions a.protocolActions := by
    rw [live, ← List.map_take, List.isChain_map]
    simp only [Follows, hash]
    rfl
  have length : s.live.length = s.steps.length := List.length_map _
  rw [Unbroken, ← chain, ← length]
  cases h : s.live with
  | nil => exact absurd (List.map_eq_nil_iff.1 h) first
  | cons step rest => exact and_congr_left' Nat.lt_succ_iff.symm

theorem load_withOverlay (s : Scenario) (fullMesh gossip : Option Bool) {engine : Engine}
    (built : Engine.start (fullMesh.getD s.fullMesh) (gossip.getD s.gossip) s.nodes s.links = .ok engine) :
    (s.withOverlay fullMesh gossip).load = .ok (start engine s.live) := by
  show (Engine.start (fullMesh.getD s.fullMesh) (gossip.getD s.gossip) s.nodes s.links).bind _ = _
  rw [built]
  rfl

/-- a recording is an unbroken chain up to the step at which it was taken -/
theorem unbroken_ofSimulation {sim : Simulation} (linked : Linked sim) (id name description : Document) {k : Nat}
    (behind : k ≤ sim.cursor) : (ofSimulation sim id name description).Unbroken k := by
  have place : sim.steps.take (k + 1) = (sim.past ++ [sim.current]).take (k + 1) := by
    have split : sim.steps = (sim.past ++ [sim.current]) ++ sim.future := by simp [Simulation.steps]
    rw [split, List.take_append_of_le_length]
    rw [List.length_append, List.length_singleton]
    exact Nat.succ_le_succ behind
  refine ⟨?_, ?_⟩
  · show k < (sim.steps.map _).length
    rw [List.length_map]
    exact Nat.lt_of_le_of_lt behind sim.cursor_lt_length
  · show ((sim.steps.map _).take (k + 1)).IsChain _
    rw [← List.map_take, place, List.isChain_map]
    exact linked.take (k + 1)

/-- as far as the recording is unbroken, its steps are met, and behind that nothing is met; the network is where the steps
behind lead in any case -/
theorem walk_live {s : Scenario} (first : s.steps ≠ []) {fullMesh gossip : Bool} {nodes : List Node}
    {links : List (NodeId × NodeId)} {setup : Setup}
    (built : Engine.start fullMesh gossip nodes links = .ok (.ofSetup setup)) (k : Nat) :
    ∃ now, now = (start (.ofSetup setup) s.live).performAll (.replicate k .advance) ∧ now.cursor = k ∧
      now.engine.network = ((Engine.ofSetup setup).retrace (now.steps.take k)).network ∧
      (s.Unbroken k → now.contents = s.steps ∧ now.reused = k) ∧
      (¬ s.Unbroken (k + 1) →
        Records now.engine.network now.current now.advance.current ∧ now.advance.future = []) := by
  obtain ⟨_, cursor, reused, contents⟩ := start_live first (.ofSetup setup)
  have chained := chained_start_iff first (.ofSetup setup)
  have walked := (stable_faithful setup).performAll (faithful_start built s.live) (.replicate k .advance)
  have there : ((start (.ofSetup setup) s.live).performAll (.replicate k .advance)).cursor = k := by
    rw [cursor_walk, cursor, Nat.zero_add]
  refine ⟨_, rfl, there, ?_, fun unbroken => ⟨?_, ?_⟩, fun broken => ?_⟩
  · have behind := take_cursor_steps ((start (.ofSetup setup) s.live).performAll (.replicate k .advance))
    rw [there] at behind
    rw [behind, Engine.retrace_network]
    exact walked.network
  · rw [Simulation.contents, steps_walk ((chained k).2 unbroken)]
    exact contents
  · rw [((chained k).2 unbroken).walk.2.2, reused, Nat.zero_add]
  · have misses := misses_of_not_chained fun h => broken ((chained (k + 1)).1 h)
    exact ⟨records_of_misses walked misses, (advance_of_misses misses).1⟩

/-! ## Main result -/

/-- **A recording is met under any overlay.** Let a simulation of a newly built engine be started from a recording, or
without one, let any operations be carried out, and let the history be recorded. The recording loads under any overlay
flags. The network starts over then with the flags that were asked for, and after any number of steps forward it is where
the steps behind lead from there. But the steps that are met do not depend on the flags: as far as each step of the
recording carries the hash of the one before, which is so up to the step at which it was taken at least, all steps are
kept, and what is pending and what was seen is what the recording holds. Where the recording breaks off or ends, each step
forward records what carrying out the present step calls for and shows. -/
theorem met_under_any_overlay {fullMesh gossip : Bool} {nodes : List Node} {links : List (NodeId × NodeId)}
    {engine : Engine} (built : Engine.start fullMesh gossip nodes links = .ok engine) (recorded : List LiveStep)
    (ops : List Operation) (id name description : Document) (otherMesh otherGossip : Option Bool) :
    ∃ s loaded, s = ofSimulation (afterAny engine recorded ops) id name description ∧
      (s.withOverlay otherMesh otherGossip).load = .ok loaded ∧ loaded.cursor = 0 ∧ loaded.contents = s.steps ∧
      loaded.engine.network.overlay.SameMode (.bare (otherMesh.getD s.fullMesh) (otherGossip.getD s.gossip)) ∧
      (∀ k ≤ (afterAny engine recorded ops).cursor, s.Unbroken k) ∧
      ∀ k, ∃ now, now = loaded.performAll (.replicate k .advance) ∧ now.cursor = k ∧
        now.engine.network = (loaded.engine.retrace (now.steps.take k)).network ∧
        (s.Unbroken k → now.contents = s.steps ∧ now.reused = k) ∧
        (¬ s.Unbroken (k + 1) →
          Records now.engine.network now.current now.advance.current ∧ now.advance.future = []) := by
  have made := made_afterAny (Engine.made_start built) recorded ops
  have linked := linked_afterAny engine recorded ops
  generalize afterAny engine recorded ops = sim at made linked ⊢
  obtain ⟨setup, again, _, mode⟩ := Engine.start_otherMode made (otherMesh.getD sim.engine.network.overlay.fullMesh)
    (otherGossip.getD sim.engine.network.overlay.gossip)
  have first := ofSimulation_steps_ne_nil sim id name description
  have loaded := load_withOverlay (ofSimulation sim id name description) otherMesh otherGossip again
  obtain ⟨engine, cursor, _, contents⟩ := start_live first (.ofSetup setup)
  refine ⟨_, _, rfl, loaded, cursor, contents, ?_, fun k => unbroken_ofSimulation linked _ _ _, fun k => ?_⟩
  · rw [engine]
    exact mode
  · rw [engine]
    exact walk_live first again k

/-- the leader voted in a full mesh -/
def votedScenario : Scenario :=
  ofSimulation (afterAny leaderEngine [] leaderVotes) (.text "v") (.text "vote") (.text "")

/-- without links, the recorded messages are met in a step forward, and the next step records how they are dropped -/
theorem votedScenario_met :
    Engine.start true false leaderAndFollower [] = .ok leaderEngine ∧
    ∃ loaded, (votedScenario.withOverlay (some false) none).load = .ok loaded ∧
      loaded.advance.contents = votedScenario.steps ∧ loaded.advance.reused = 1 ∧
      loaded.advance.engine.network = (loaded.engine.retrace (loaded.advance.steps.take 1)).network ∧
      Records loaded.advance.engine.network loaded.advance.current loaded.advance.advance.current := by
  have built : Engine.start true false leaderAndFollower [] = .ok leaderEngine := by rfl
  obtain ⟨_, loaded, rfl, started, _, _, _, unbroken, walk⟩ :=
    met_under_any_overlay built [] leaderVotes (.text "v") (.text "vote") (.text "") (some false) none
  obtain ⟨_, rfl, _, network, met, broken⟩ := walk 1
  have ended : ¬ votedScenario.Unbroken 2 := fun h => absurd h.1 (by decide +kernel)
  obtain ⟨contents, reused⟩ := met (unbroken 1 (by decide +kernel))
  exact ⟨built, loaded, started, contents, reused, network, (broken ended).1⟩

/-- what is loaded if the nodes are to have no links -/
def separated : Simulation := start (.ofSetup ⟨leaderAndFollower, .bare false false⟩) votedScenario.live

/-- **Messages to nobody.** Without links the leader calls for no messages, but a step forward leaves those pending that it
called for in the full mesh. -/
theorem separated_still_sends :
    (votedScenario.withOverlay (some false) none).load = .ok separated ∧
    (separated.current.executeOn separated.engine.network).actions = [] ∧
    separated.advance.current.protocolActions.length = 2 ∧
    ¬ Records separated.engine.network separated.current separated.advance.current := by
  have nothing : (separated.current.executeOn separated.engine.network).actions = [] := by decide +kernel
  have pending : separated.advance.current.protocolActions.length = 2 := by decide +kernel
  refine ⟨load_withOverlay votedScenario (some false) none (by rfl), nothing, pending, fun records => ?_⟩
  have same := congrArg List.length records.actions
  rw [nothing, List.length_map, pending] at same
  exact absurd same (by decide)

end Scenario

end FederatedAgreement
