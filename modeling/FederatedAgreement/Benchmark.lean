/-
Benchmarks: analysis and simulation of symmetric networks of growing size. What is measured and what is printed about it
is decided here; the clock is read outside, and the times enter the lines as texts.
-/
import FederatedAgreement.Analysis.Cache
import FederatedAgreement.Scenario.Builtin
import FederatedAgreement.Settings.Basic

namespace FederatedAgreement.Benchmark

/-- the keys of a network of a given size -/
def keys (size : Int) : List NodeId := (List.range size.toNat).map fun i => "N" ++ toString i

/-- nodes that all trust all of them, by majority if no threshold is given -/
def symmetricNetwork (size : Int) (threshold : Option Int) : Except Misconfiguration (List Node) :=
  if (keys size).isEmpty then .ok []
  else do
    let quorumSet ← QuorumSet.make (threshold.getD (size / 2 + 1)) (keys size) []
    .ok (Scenario.symmetricNodes (keys size) quorumSet)

/-! ## Lines -/

/-- a printed line -/
inductive Line where
  | heading (text : String)
  | analyzed (size : Int) (quorums minimal dispensable : Nat)
  | settled (size : Int) (steps confirmed nodes : Nat)
deriving DecidableEq, Repr

/-- a number at the right end of three places -/
def threePlaces (n : Int) : String :=
  let digits := toString n
  String.ofList (List.replicate (3 - digits.length) ' ') ++ digits

/-- a line with the times in milliseconds that belong into it: one for the analysis and one for the cache, or one for
the simulation -/
def Line.text (first second : String) : Line → String
  | .heading text => text
  | .analyzed size quorums minimal dispensable =>
    threePlaces size ++ " nodes | analyze " ++ first ++ " ms | cached " ++ second ++ " ms | " ++ toString quorums ++
      " quorums, " ++ toString minimal ++ " minimal, " ++ toString dispensable ++ " d-sets"
  | .settled size steps confirmed nodes =>
    threePlaces size ++ " nodes | " ++ toString steps ++ " steps in " ++ first ++ " ms | confirmed " ++
      toString confirmed ++ "/" ++ toString nodes

/-! ## Tasks -/

/-- a part of a benchmark that prints one line -/
inductive Task where
  | announceAnalysis
  /-- there is no smallest size to begin with -/
  | refuse
  | analyze (size : Int)
  | announceSettling
  | settle (size : Int)
deriving DecidableEq, Repr

/-- the limits of a benchmark: the smallest and the largest size, how often each analysis runs, and the settings; an
option may stand without its value -/
structure Plan where
  minSize : Option Int
  maxSize : Int
  runs : Option Int
  settings : Settings

/-- the size itself, unless it is beyond the largest one -/
def Plan.size? (p : Plan) (size : Int) : Option Int := if size ≤ p.maxSize then some size else none

/-- the task after a task: all sizes are analysed, then all are settled -/
def Plan.next (p : Plan) : Task → Option Task
  | .announceAnalysis =>
    match p.minSize with
    | some low => some (((p.size? low).map .analyze).getD .announceSettling)
    | none => some .refuse
  | .refuse => none
  | .analyze size => some (((p.size? (size + 1)).map .analyze).getD .announceSettling)
  | .announceSettling => (p.minSize.bind p.size?).map .settle
  | .settle size => (p.size? (size + 1)).map .settle

/-- no benchmark has more tasks: two headings, and two for each size -/
def Plan.length (p : Plan) : Nat := 2 + 2 * (p.maxSize + 1 - p.minSize.getD p.maxSize).toNat

/-- the least whole number that rounds to no float -/
def floatLimit : Nat := (1 <<< 1024) - (1 <<< 970)

/-- analyse one size and ask the cache for it again: the mean over no runs or over too many cannot be taken, and without
any run there is no analysis to report on -/
def analyze (p : Plan) (size : Int) : Except Fault Line := do
  let nodes ← Fault.ofMisconfiguration (symmetricNetwork size none)
  match p.runs with
  | none => .error .noValue
  | some runs =>
    let (_, analysis) ← Fault.ofMisconfiguration ((AnalysisCache.empty p.maxSize).get nodes)
    if runs = 0 then .error .meanOfNothing
    else if floatLimit ≤ runs.natAbs then .error .meanOutOfRange
    else if runs < 0 then .error .nothingAnalyzed
    else .ok (.analyzed size analysis.quorums.length analysis.minimalQuorums.length analysis.dispensable.length)

/-- a network of one size in which every node has voted for the same statement -/
def votedSimulation (p : Plan) (size : Int) : Except Misconfiguration Simulation := do
  let nodes ← symmetricNetwork size none
  let engine ← Engine.start p.settings.fullMesh p.settings.gossip nodes []
  .ok (engine.network.keys.foldl (fun sim k => sim.submit ⟨.vote k "x", none⟩) (.start engine []))

/-- let a network of one size settle -/
def settle (p : Plan) (size : Int) : Except Fault Line := do
  let sim ← Fault.ofMisconfiguration (votedSimulation p size)
  let (settled, steps) := sim.run p.settings.settleLimit
  let consensus := settled.consensus
  .ok (.settled size steps consensus.confirmedCount consensus.nodeCount)

/-- the line that a task prints -/
def Task.line (p : Plan) : Task → Except Fault Line
  | .announceAnalysis => .ok (.heading "Quorum analysis")
  | .refuse => .error .noValue
  | .analyze size => Benchmark.analyze p size
  | .announceSettling => .ok (.heading "Simulation until settled")
  | .settle size => Benchmark.settle p size

/-- the lines from a task on up to the first task that fails, and the failure; `fuel` bounds the number of tasks -/
def linesFrom (p : Plan) : Nat → Task → List Line × Option Fault
  | 0, _ => ([], none)
  | fuel + 1, task =>
    match task.line p with
    | .error fault => ([], some fault)
    | .ok line =>
      match p.next task with
      | none => ([line], none)
      | some task =>
        let rest := linesFrom p fuel task
        (line :: rest.1, rest.2)

/-- the lines of a benchmark up to the first task that fails, and the failure -/
def lines (p : Plan) : List Line × Option Fault := linesFrom p p.length .announceAnalysis

end FederatedAgreement.Benchmark
