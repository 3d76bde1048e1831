/-
The benchmark program: reads its arguments, the environment and the settings file, runs the tasks of the benchmark one
after the other, and prints a line for each with the time that it took.
-/
import FederatedAgreement.CommandLine
import FederatedAgreement.Document.Json

namespace FederatedAgreement.Program

open Benchmark

/-- nanoseconds over a number of runs, as milliseconds with some decimal places, rounded down, in a given width -/
def millis (width places nanos runs : Nat) : String :=
  let scaled := nanos * Nat.pow 10 places / (1000000 * runs)
  let digits := toString scaled
  let filled := String.ofList (List.replicate (places + 1 - digits.length) '0') ++ digits
  let point := filled.length - places
  let text := String.ofList (filled.toList.take point) ++ "." ++ String.ofList (filled.toList.drop point)
  String.ofList (List.replicate (width - text.length) ' ') ++ text

/-- what is met at a path; a file that is no JSON text counts as a plain text -/
def readState (path : String) : IO FileState := do
  try
    let content ← IO.FS.readFile (normalPath path)
    return .holds ((Document.Json.read? content).getD (.text content))
  catch
    | .inappropriateType .. => return .folder
    | .invalidArgument .. => return .unusable
    | _ => return .missing

/-- where the settings come from; an empty text in the environment names no file -/
def findSource (choice : CommandLine.ConfigChoice) : IO SettingsSource := do
  match choice with
  | .path path => return .named path (← readState path)
  | .blank => return .unnamed
  | .unset =>
    match (← IO.getEnv "FEDVOTE_CONFIG").filter (· ≠ "") with
    | some path => return .found path (← readState path)
    | none => return .nowhere

/-- carry out a computation a number of times; its last result and the time that all took -/
def timed {α : Type} (runs : Nat) (act : Unit → α) : IO (α × Nat) := do
  let begun ← IO.monoNanosNow
  let mut result ← IO.lazyPure act
  for _ in [1:runs] do
    result ← IO.lazyPure act
  return (result, (← IO.monoNanosNow) - begun)

/-- the line of a task with its times -/
def perform (p : Plan) (task : Task) : IO (Except Fault String) := do
  match task with
  | .announceAnalysis | .announceSettling | .refuse => return (task.line p).map (Line.text "" "")
  | .analyze size => do
    let runs := (p.runs.getD 0).toNat
    let nodes := (symmetricNetwork size none).toOption.getD []
    let (line, total) ← timed runs fun _ => Benchmark.analyze p size
    let warm := (AnalysisCache.empty p.maxSize).get nodes
    let (_, again) ← timed runs fun _ => warm.toOption.map fun w => (w.1.get nodes).toOption.isSome
    return line.map (Line.text (millis 9 2 total runs) (millis 7 3 again runs))
  | .settle size => do
    let (line, total) ← timed 1 fun _ => Benchmark.settle p size
    return line.map (Line.text (millis 0 1 total 1) "")

/-- perform the tasks from one on, up to the first that fails; `fuel` bounds their number -/
def performFrom (p : Plan) : Nat → Task → IO (Option Fault)
  | 0, _ => return none
  | fuel + 1, task => do
    match ← perform p task with
    | .ok line =>
      IO.println line
      match p.next task with
      | some task => performFrom p fuel task
      | none => return none
    | .error fault => return some fault

/-- report a failure -/
def fail (fault : Fault) : IO UInt32 := do
  IO.eprintln fault.message
  return 1

end FederatedAgreement.Program

open FederatedAgreement FederatedAgreement.Program in
def main (arguments : List String) : IO UInt32 := do
  match CommandLine.parse arguments with
  | .error _ =>
    (CommandLine.usage "benchmark").forM IO.eprintln
    return 2
  | .ok .help =>
    (CommandLine.helpText "benchmark").forM IO.println
    return 0
  | .ok (.run asked) =>
    let env : Environment := ⟨← IO.getEnv "FEDVOTE_LOG_LEVEL", ← IO.getEnv "FEDVOTE_MAX_ANALYSIS_NODES"⟩
    match Settings.load (← findSource asked.config) env with
    | .error fault => fail fault
    | .ok settings =>
      let p := asked.plan settings
      match ← performFrom p p.length .announceAnalysis with
      | some fault => fail fault
      | none => return 0
