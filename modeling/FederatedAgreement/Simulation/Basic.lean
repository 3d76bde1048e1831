/-
Simulations: a history of steps that can be walked forwards and backwards over a live network. Walking forwards carries
out what is pending; a recorded step ahead is kept if the pending actions hash to what it was recorded after, otherwise
everything ahead is given up for a new step. Walking backwards starts the network over and repeats the history.

The history is split at the present step, so there always is one, and the first step is never lost.

Results:
- `cursor_lt_length`: the present step is one of the history.
- `replay_append`: repeating a history is repeating its parts one after the other.
-/
import FederatedAgreement.Consensus
import FederatedAgreement.Engine
import FederatedAgreement.Simulation.Step

namespace FederatedAgreement

/-- a queued user action; the ticket is the mark by which its operator can withdraw it, none for an action that came
with a recording -/
structure Submission where
  action : UserAction
  ticket : Option Nat
deriving DecidableEq, Repr

/-- a step whose user actions can still be withdrawn -/
abbrev LiveStep := Step Submission

/-- the actions that a step has pending -/
def LiveStep.pendingUser (s : LiveStep) : List UserAction := s.userActions.map Submission.action

/-- carry out what a step has pending -/
def LiveStep.executeOn (s : LiveStep) (n : Network) : Outcome Network := n.execute s.pendingUser s.protocolActions

def LiveStep.hash (s : LiveStep) : String := actionsHash s.pendingUser s.protocolActions

/-- the network after a history, each step carried out on what the steps before it left -/
def replay (n : Network) (history : List LiveStep) : Network := history.foldl (fun n s => (s.executeOn n).state) n

theorem replay_append (n : Network) (first second : List LiveStep) :
    replay n (first ++ second) = replay (replay n first) second := List.foldl_append

theorem replay_snoc (n : Network) (history : List LiveStep) (s : LiveStep) :
    replay n (history ++ [s]) = (s.executeOn (replay n history)).state := by rw [replay_append]; rfl

/-- a history split at the present step, the network there, and how many recorded steps were met again -/
structure Simulation where
  engine : Engine
  past : List LiveStep
  current : LiveStep
  future : List LiveStep
  reused : Nat

namespace Simulation

/-- a simulation at the first of its steps, which is a blank one if none are given -/
def start (engine : Engine) : List LiveStep → Simulation
  | [] => ⟨engine, [], .blank, [], 0⟩
  | first :: rest => ⟨engine, [], first, rest, 0⟩

/-! ## Reading -/

/-- the whole history, what lies ahead included -/
def steps (sim : Simulation) : List LiveStep := sim.past ++ sim.current :: sim.future

/-- how many steps lie behind -/
def cursor (sim : Simulation) : Nat := sim.past.length

theorem cursor_lt_length (sim : Simulation) : sim.cursor < sim.steps.length := by
  simp [cursor, steps]

def hasNext (sim : Simulation) : Bool := !sim.future.isEmpty || sim.current.hasPending

def hasPrevious (sim : Simulation) : Bool := !sim.past.isEmpty

/-- the events before each step up to the present one -/
def eventLog (sim : Simulation) : List (List Event) := (sim.past ++ [sim.current]).map Step.precedingEvents

/-- the nodes at which an action up to the present step is disrupted, in order of first appearance -/
def disruptedNodes (sim : Simulation) : List NodeId :=
  (((sim.past ++ [sim.current]).flatMap Step.protocolActions).filter ProtocolAction.disrupted).map
    ProtocolAction.author |>.eraseDups

def consensus (sim : Simulation) : Consensus := sim.engine.network.consensus sim.hasNext

def label (sim : Simulation) : String :=
  "Simulation(step " ++ toString sim.cursor ++ "/" ++ toString (sim.steps.length - 1) ++ ", " ++
    toString sim.current.userActions.length ++ " pending user actions)"

/-! ## Pending actions -/

/-- two actions of which a step keeps only the newer one -/
def rivals (a b : UserAction) : Bool := !a.kind.isRepeatable && a.kind = b.kind && a.author = b.author

/-- queue an action: in the place of its rival if there is one, else in front if it is immediate, else at the end -/
def enqueue (new : Submission) (queue : List Submission) : List Submission :=
  match queue.findIdx? fun old => rivals new.action old.action with
  | some i => queue.set i new
  | none => if new.action.isImmediate then new :: queue else queue ++ [new]

/-- queue an action in the present step -/
def submit (sim : Simulation) (new : Submission) : Simulation :=
  { sim with current := { sim.current with userActions := enqueue new sim.current.userActions } }

/-- take back the first pending action with a ticket -/
def withdraw (sim : Simulation) (ticket : Nat) : Simulation :=
  { sim with current := { sim.current with userActions := sim.current.userActions.eraseP (·.ticket = some ticket) } }

/-- take back the pending action at an index, known by its ticket if it has one -/
def withdrawAt (sim : Simulation) (index : Nat) : Simulation :=
  match sim.current.userActions[index]? with
  | some ⟨_, some ticket⟩ => sim.withdraw ticket
  | some ⟨_, none⟩ =>
    { sim with current := { sim.current with userActions := sim.current.userActions.eraseIdx index } }
  | none => sim

/-- mark the pending protocol action at an index as disrupted or not -/
def setDisrupted (sim : Simulation) (index : Nat) (disrupted : Bool) : Simulation :=
  { sim with current := { sim.current with
      protocolActions := sim.current.protocolActions.modify index ({ · with disrupted }) } }

/-- an action that `disruptFor` concerns -/
def concerns (node : NodeId) (kind : Option ActionKind) (a : ProtocolAction) : Bool :=
  a.author = node && kind.all (· = a.kind)

/-- disrupt every pending protocol action of a node, or those of one kind; the number of them is returned -/
def disruptFor (sim : Simulation) (node : NodeId) (kind : Option ActionKind) : Simulation × Nat :=
  let pending := sim.current.protocolActions
  ({ sim with current := { sim.current with
      protocolActions := pending.map fun a => if concerns node kind a then { a with disrupted := true } else a } },
   pending.countP (concerns node kind))

/-! ## Walking -/

/-- carry out what is pending and go on to the next step -/
def advance (sim : Simulation) : Simulation :=
  let hash := sim.current.hash
  let executed := sim.engine.execute sim.current.pendingUser sim.current.protocolActions
  let drained := executed.1.drain
  let past := sim.past ++ [sim.current]
  let recorded : Simulation := ⟨drained.1, past, ⟨[], executed.2, drained.2, hash⟩, [], sim.reused⟩
  match sim.future with
  | [] => recorded
  | next :: rest =>
    if next.previousHash = hash then ⟨drained.1, past, next, rest, sim.reused + 1⟩ else recorded

/-- go on for as long as there is something to do, but not for more than `limit` steps; their number is returned -/
def run (sim : Simulation) : Nat → Simulation × Nat
  | 0 => (sim, 0)
  | limit + 1 =>
    if sim.hasNext then
      let rest := run sim.advance limit
      (rest.1, rest.2 + 1)
    else (sim, 0)

/-- the network started over and taken through a history again, all events being known already -/
def restoreEngine (e : Engine) (history : List LiveStep) : Engine :=
  { e with network := replay e.setup.network history, buffer := [] }

/-- go back to the step before, if there is one -/
def back (sim : Simulation) : Simulation :=
  match sim.past.getLast? with
  | none => sim
  | some previous =>
    let past := sim.past.dropLast
    { sim with
      engine := restoreEngine sim.engine past
      past
      current := previous
      future := sim.current :: sim.future }

/-- go back to the first step -/
def rewind (sim : Simulation) : Simulation :=
  { start (restoreEngine sim.engine []) sim.steps with reused := sim.reused }

/-- start the network over with other nodes and links; the history stays -/
def load (sim : Simulation) (nodes : List Node) (links : List (NodeId × NodeId)) :
    Except Misconfiguration Simulation := do
  .ok { sim with engine := ← sim.engine.load nodes links }

end Simulation

end FederatedAgreement
