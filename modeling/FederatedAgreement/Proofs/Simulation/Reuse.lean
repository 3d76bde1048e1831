/-
When a recorded step is met again. With each step after the first goes the batch by whose execution it was made: its
origin. A step forward meets the recorded step ahead if the hash of what is pending is that of the origin, and gives up
everything ahead otherwise. If hashes tell texts apart, what decides is the text of the batch. Where names are words,
the text is that of alike batches only. Where names have blanks in them, two orders can have the same text, and what is
met is then a step that other actions led to.

Results:
- `Derived.advance`: the hashes that steps carry stay those of their origins.
- `reuse_same_text`: **a recorded step is met again if its origin has the text of what is pending**, and otherwise
  everything ahead is given up.
- `blank_confused`: a vote of "A" is taken for a vote of "A votes on x".
-/
import FederatedAgreement.Proofs.Action.Texts
import FederatedAgreement.Proofs.Simulation.History

namespace FederatedAgreement

/-! ## Texts of batches -/

namespace Batch

variable {b b' : Batch}

def text (b : Batch) : String := actionsText b.1 b.2

/-- batches of a list that have the same hash have the same text -/
def TextsToldApart (bs : List Batch) : Prop := ∀ b ∈ bs, ∀ b' ∈ bs, b.hash = b'.hash → b.text = b'.text

instance (bs : List Batch) : Decidable (TextsToldApart bs) :=
  inferInstanceAs (Decidable (∀ b ∈ bs, ∀ b' ∈ bs, b.hash = b'.hash → b.text = b'.text))

/-- all names in the actions are words -/
def Worded (b : Batch) : Prop := (∀ u ∈ b.1, u.Worded) ∧ ∀ a ∈ b.2, a.message.Worded

instance (b : Batch) : Decidable b.Worded := inferInstanceAs (Decidable (_ ∧ _))

/-- the same actions in the same order, up to the order of members in quorum sets -/
def Alike (b b' : Batch) : Prop := List.Forall₂ UserAction.Alike b.1 b'.1 ∧ b.2 = b'.2

theorem text_eq_iff (hb : b.Worded) (hb' : b'.Worded) : b.text = b'.text ↔ b.Alike b' :=
  actionsText_eq_iff hb.1 hb'.1 hb.2 hb'.2

end Batch

namespace Simulation

variable {sim : Simulation} {origins batches : List Batch}

/-! ## Origins -/

/-- the step ahead was recorded after what has the hash of what is pending -/
def meetsNext (sim : Simulation) : Bool := sim.future.head?.any (·.previousHash = sim.current.hash)

/-- the origins of the steps after a step forward: if no recorded step is met, what is pending is the origin of a new
one -/
def originsOfAdvance (sim : Simulation) (origins : List Batch) : List Batch :=
  if sim.meetsNext then origins else origins.take sim.cursor ++ [sim.current.batch]

def originsOfRun (sim : Simulation) (origins : List Batch) : Nat → List Batch
  | 0 => origins
  | limit + 1 => if sim.hasNext then originsOfRun sim.advance (sim.originsOfAdvance origins) limit else origins

/-- the origins of the steps after a command -/
def originsOf (sim : Simulation) (origins : List Batch) : Command → List Batch
  | .advance => sim.originsOfAdvance origins
  | .run limit => sim.originsOfRun origins limit
  | .edit _ | .back | .rewind => origins

/-- the origins of the steps after some commands -/
def originsOfAll (sim : Simulation) (origins : List Batch) : List Command → List Batch
  | [] => origins
  | c :: cs => originsOfAll (sim.perform c) (sim.originsOf origins c) cs

/-! ## Single moves -/

theorem advance_of_meets (meets : sim.meetsNext = true) :
    ∃ next rest, sim.future = next :: rest ∧ Follows sim.current next ∧ sim.advance.current = next ∧
      sim.advance.future = rest ∧ sim.advance.reused = sim.reused + 1 := by
  unfold meetsNext at meets
  cases future : sim.future with
  | nil => simp [future] at meets
  | cons next rest =>
    have follows : next.previousHash = sim.current.hash := by simpa [future] using meets
    refine ⟨next, rest, rfl, follows, ?_⟩
    unfold Simulation.advance
    simp [future, follows]

theorem advance_of_misses (misses : sim.meetsNext = false) :
    sim.advance.future = [] ∧ sim.advance.reused = sim.reused := by
  unfold meetsNext at misses
  unfold Simulation.advance
  cases future : sim.future with
  | nil => simp
  | cons next rest =>
    have other : ¬ next.previousHash = sim.current.hash := by simpa [future] using misses
    simp [other]

/-- each step after the first carries the hash of its origin, which was carried out -/
structure Derived (batches origins : List Batch) (sim : Simulation) : Prop where
  hashes : (sim.steps.map Step.previousHash).tail = origins.map Batch.hash
  carried_out : ∀ b ∈ origins, b ∈ batches

/-- the origins are those of the steps up to the present one, and those of the steps ahead -/
theorem derived_iff (sim : Simulation) (origins : List Batch) :
    (sim.steps.map Step.previousHash).tail = origins.map Batch.hash ↔
      ((sim.past ++ [sim.current]).map Step.previousHash).tail = (origins.take sim.cursor).map Batch.hash ∧
        sim.future.map Step.previousHash = (origins.drop sim.cursor).map Batch.hash := by
  have split : sim.steps = (sim.past ++ [sim.current]) ++ sim.future := by simp [steps]
  have parts : origins.map Batch.hash =
      (origins.take sim.cursor).map Batch.hash ++ (origins.drop sim.cursor).map Batch.hash := by
    rw [← List.map_append, List.take_append_drop]
  have whole : (sim.steps.map Step.previousHash).tail =
      ((sim.past ++ [sim.current]).map Step.previousHash).tail ++ sim.future.map Step.previousHash := by
    rw [split, List.map_append, List.tail_append_of_ne_nil (by simp)]
  have length : ((sim.past ++ [sim.current]).map Step.previousHash).tail.length = sim.cursor := by simp [cursor]
  rw [whole, parts]
  refine ⟨fun same => ?_, fun same => by rw [same.1, same.2]⟩
  have total := congrArg List.length same
  simp only [List.length_append, List.length_map, List.length_take, List.length_drop, length] at total
  refine List.append_inj same ?_
  rw [length, List.length_map, List.length_take]
  omega

theorem Derived.congr {sim' : Simulation} (h : Derived batches origins sim)
    (same : sim'.steps.map Step.previousHash = sim.steps.map Step.previousHash) : Derived batches origins sim' :=
  ⟨same ▸ h.hashes, h.carried_out⟩

theorem Derived.edit (h : Derived batches origins sim) (e : Edit) : Derived batches origins (sim.edit e) := by
  refine h.congr ?_
  rw [edit_eq]
  simp only [steps, List.map_append, List.map_cons, (Edit.applyTo_recorded sim.current e).1]

theorem Derived.advance (h : Derived batches origins sim) (pending : sim.current.batch ∈ batches) :
    Derived batches (sim.originsOfAdvance origins) sim.advance := by
  unfold originsOfAdvance
  cases meets : sim.meetsNext with
  | true =>
    obtain ⟨next, rest, future, _, current, left, _⟩ := advance_of_meets meets
    refine h.congr ?_
    rw [steps, steps, past_advance, current, left, future, List.append_assoc]
    rfl
  | false =>
    obtain ⟨left, _⟩ := advance_of_misses meets
    have behind := ((derived_iff sim origins).1 h.hashes).1
    have recorded : sim.advance.steps.map Step.previousHash =
        (sim.past ++ [sim.current]).map Step.previousHash ++ [sim.current.hash] := by
      rw [steps, past_advance, left, List.map_append, List.map_cons, previousHash_advance]
      rfl
    refine ⟨?_, ?_⟩
    · rw [recorded, List.tail_append_of_ne_nil (by simp), behind]
      show _ = (origins.take sim.cursor ++ [sim.current.batch]).map Batch.hash
      rw [List.map_append]
      rfl
    · intro b hb
      rcases List.mem_append.1 hb with old | new
      · exact h.carried_out b (List.mem_of_mem_take old)
      · rw [List.mem_singleton.1 new]
        exact pending

theorem Derived.back (h : Derived batches origins sim) : Derived batches origins sim.back :=
  h.congr (congrArg _ (steps_back sim))

theorem Derived.rewind (h : Derived batches origins sim) : Derived batches origins sim.rewind :=
  h.congr (congrArg _ (steps_rewind sim))

/-! ## Many moves -/

theorem Derived.run (h : Derived batches origins sim) {limit : Nat}
    (carried_out : ∀ b ∈ sim.batchesOfRun limit, b ∈ batches) :
    Derived batches (sim.originsOfRun origins limit) (sim.run limit).1 := by
  induction limit generalizing sim origins with
  | zero => exact h
  | succ limit ih =>
    rw [batchesOfRun] at carried_out
    rw [originsOfRun, Simulation.run]
    split
    · next more =>
      rw [if_pos more, List.forall_mem_cons] at carried_out
      exact ih (h.advance carried_out.1) carried_out.2
    · exact h

theorem Derived.perform (h : Derived batches origins sim) {c : Command}
    (carried_out : ∀ b ∈ sim.batchesOf c, b ∈ batches) : Derived batches (sim.originsOf origins c) (sim.perform c) := by
  cases c with
  | edit e => exact h.edit e
  | advance => exact h.advance (carried_out _ List.mem_cons_self)
  | run limit => exact h.run carried_out
  | back => exact h.back
  | rewind => exact h.rewind

theorem Derived.performAll (h : Derived batches origins sim) {cs : List Command}
    (carried_out : ∀ b ∈ sim.batchesOfAll cs, b ∈ batches) :
    Derived batches (sim.originsOfAll origins cs) (sim.performAll cs) := by
  induction cs generalizing sim origins with
  | nil => exact h
  | cons c cs ih =>
    rw [batchesOfAll, List.forall_mem_append] at carried_out
    exact ih (h.perform carried_out.1) carried_out.2

theorem batchesOfAll_snoc (sim : Simulation) (cs : List Command) (c : Command) :
    sim.batchesOfAll (cs ++ [c]) = sim.batchesOfAll cs ++ (sim.performAll cs).batchesOf c := by
  induction cs generalizing sim with
  | nil => exact List.append_nil _
  | cons c' cs ih => rw [List.cons_append, batchesOfAll, batchesOfAll, ih, List.append_assoc, performAll_cons]

/-! ## Main result -/

/-- **When a step is met again.** Let a simulation be started without a recording, and let any commands be given, with
any names in them. Let batches that were carried out, or are pending now, have the same hash only if they have the same
text. Each step but the first has an origin. If no step lies ahead, a step forward meets none. If there is one, and its
origin has the text of what is pending, it becomes the present step, the steps behind it stay ahead, and it counts as
met. If its origin has another text, all steps ahead are given up and none is met. Where all names in the origin and in
what is pending are words, they have the same text exactly when they are the same actions, disrupted or not, up to the
order of members in quorum sets. -/
theorem reuse_same_text (engine : Engine) (commands : List Command)
    (apart : Batch.TextsToldApart ((start engine []).batchesOfAll (commands ++ [.advance]))) :
    ∃ sim origins, sim = after engine [] commands ∧ origins = (start engine []).originsOfAll [] commands ∧
      origins.length + 1 = sim.steps.length ∧
      (sim.future = [] → sim.advance.future = [] ∧ sim.advance.reused = sim.reused) ∧
      ∀ next rest, sim.future = next :: rest →
        ∃ b, origins[sim.cursor]? = some b ∧
          (b.text = sim.current.batch.text →
            sim.advance.current = next ∧ sim.advance.future = rest ∧ sim.advance.reused = sim.reused + 1) ∧
          (b.text ≠ sim.current.batch.text → sim.advance.future = [] ∧ sim.advance.reused = sim.reused) ∧
          (b.Worded → sim.current.batch.Worded → (b.text = sim.current.batch.text ↔ b.Alike sim.current.batch)) := by
  rw [batchesOfAll_snoc] at apart
  have begun : Derived ((start engine []).batchesOfAll commands) [] (start engine []) := ⟨rfl, nofun⟩
  have derived : Derived _ _ (after engine [] commands) := begun.performAll fun _ hb => hb
  change Batch.TextsToldApart (_ ++ [(after engine [] commands).current.batch]) at apart
  generalize after engine [] commands = sim at derived apart ⊢
  generalize (start engine []).originsOfAll [] commands = origins at derived ⊢
  refine ⟨sim, origins, rfl, rfl, ?_, ?_, ?_⟩
  · have lengths := congrArg List.length derived.hashes
    rw [List.length_tail, List.length_map, List.length_map] at lengths
    have := sim.cursor_lt_length
    omega
  · intro none
    exact advance_of_misses (by simp [meetsNext, none])
  · intro next rest future
    have ahead := ((derived_iff sim origins).1 derived.hashes).2
    cases origin : origins.drop sim.cursor with
    | nil =>
      rw [origin, future] at ahead
      cases ahead
    | cons b others =>
      rw [origin, future] at ahead
      have hash : next.previousHash = b.hash := (List.cons.inj ahead).1
      have place : origins[sim.cursor]? = some b := by
        rw [← List.head?_drop, origin]
        rfl
      have told : b.hash = sim.current.batch.hash → b.text = sim.current.batch.text :=
        apart b (List.mem_append_left _ (derived.carried_out b (List.mem_of_getElem? place))) sim.current.batch
          (List.mem_append_right _ List.mem_cons_self)
      refine ⟨b, place, fun same => ?_, fun other => ?_, Batch.text_eq_iff⟩
      · have meets : sim.meetsNext = true := by
          have follows : next.previousHash = sim.current.hash := hash.trans (actionsHash_congr same)
          simp [meetsNext, future, follows]
        obtain ⟨next', rest', future', _, current, left, reused⟩ := advance_of_meets meets
        cases future.symm.trans future'
        exact ⟨current, left, reused⟩
      · refine advance_of_misses ?_
        have differs : ¬ next.previousHash = sim.current.hash := fun same => other (told (hash.symm.trans same))
        simp [meetsNext, future, differs]

/-- a vote is carried out and its messages are disrupted; after a step back it is still pending -/
def returnToVote : List Command :=
  [.edit (.submit ⟨.vote "L" "x", some 0⟩), .advance, .edit (.disruptFor "L" none), .back]

/-- the step ahead is met again, as the vote is the action that it was made by -/
theorem returnToVote_met :
    Batch.TextsToldApart
      ((start (.ofSetup ⟨leaderAndFollower, .bare true false⟩) []).batchesOfAll (returnToVote ++ [.advance])) ∧
    (start (.ofSetup ⟨leaderAndFollower, .bare true false⟩) []).originsOfAll [] returnToVote =
      [([.vote "L" "x"], [])] ∧
    ∃ sim, sim = after (.ofSetup ⟨leaderAndFollower, .bare true false⟩) [] returnToVote ∧
      Batch.Alike ([.vote "L" "x"], []) sim.current.batch ∧ sim.advance.reused = 1 := by
  have batches : (start (.ofSetup ⟨leaderAndFollower, .bare true false⟩) []).batchesOfAll
      (returnToVote ++ [.advance]) = [([.vote "L" "x"], []), ([.vote "L" "x"], [])] := by decide +kernel
  have apart : Batch.TextsToldApart ((start (.ofSetup ⟨leaderAndFollower, .bare true false⟩) []).batchesOfAll
      (returnToVote ++ [.advance])) := by
    rw [batches]
    decide +kernel
  have origins : (start (.ofSetup ⟨leaderAndFollower, .bare true false⟩) []).originsOfAll [] returnToVote =
      [([.vote "L" "x"], [])] := by decide +kernel
  have present : (after (.ofSetup ⟨leaderAndFollower, .bare true false⟩) [] returnToVote).cursor = 0 ∧
      (after (.ofSetup ⟨leaderAndFollower, .bare true false⟩) [] returnToVote).reused = 0 ∧
      (after (.ofSetup ⟨leaderAndFollower, .bare true false⟩) [] returnToVote).current.batch =
        ([.vote "L" "x"], []) ∧
      (after (.ofSetup ⟨leaderAndFollower, .bare true false⟩) [] returnToVote).future.length = 1 := by
    decide +kernel
  obtain ⟨cursor, reused, pending, ahead⟩ := present
  obtain ⟨next, future⟩ := List.length_eq_one_iff.1 ahead
  obtain ⟨_, _, rfl, rfl, _, _, meeting⟩ :=
    reuse_same_text (.ofSetup ⟨leaderAndFollower, .bare true false⟩) returnToVote apart
  obtain ⟨b, origin, met, _, same⟩ := meeting next [] future
  rw [origins, cursor] at origin
  cases origin
  rw [pending] at met same
  refine ⟨apart, origins, _, rfl, pending ▸ (same (by decide +kernel) (by decide +kernel)).1 rfl, ?_⟩
  rw [(met rfl).2.2, reused]

/-! ## Names with blanks -/

/-- a vote is carried out and taken back, and one of another node for another statement takes its place -/
def otherVote : List Command :=
  [.edit (.submit ⟨.vote "A" "x votes on y", some 0⟩), .advance, .back, .edit (.withdrawAt 0),
    .edit (.submit ⟨.vote "A votes on x" "y", some 1⟩)]

/-- a network of one node, which trusts itself -/
def loner : Setup := ⟨[⟨"A", ⟨⟨1, ["A"], []⟩, by decide +kernel⟩⟩], .bare true false⟩

/-- **A confusion.** Both votes have the same text, so the step that the first one led to is met again, although what is
pending is the second one. -/
theorem blank_confused :
    Engine.start true false loner.nodes [] = .ok (.ofSetup loner) ∧
    (after (.ofSetup loner) [] otherVote).current.batch = ([.vote "A votes on x" "y"], []) ∧
    (start (.ofSetup loner) []).originsOfAll [] otherVote = [([.vote "A" "x votes on y"], [])] ∧
    ¬ Batch.Alike ([.vote "A" "x votes on y"], []) ([.vote "A votes on x" "y"], []) ∧
    (after (.ofSetup loner) [] otherVote).reused = 0 ∧
    (after (.ofSetup loner) [] otherVote).advance.reused = 1 := by
  have different : ¬ Batch.Alike ([.vote "A" "x votes on y"], []) ([.vote "A votes on x" "y"], []) := by
    rintro ⟨users, _⟩
    have itself : ∀ u, UserAction.Alike (.vote "A" "x votes on y") u → u = .vote "A" "x votes on y" := by
      rintro _ ⟨⟩
      rfl
    exact absurd (itself _ (List.forall₂_cons.1 users).1) (by decide)
  refine ⟨rfl, ?_, ?_, different, ?_, ?_⟩
  · decide +kernel
  · decide +kernel
  · decide +kernel
  · decide +kernel

end Simulation

end FederatedAgreement
