/-
The command line of the benchmark: options with one value each, and the wish for help. An option may be shortened as
long as it stays unique, its value may follow behind an equals sign, and of an option given twice the last value counts.
-/
import FederatedAgreement.Benchmark
import FederatedAgreement.Settings.Load

namespace FederatedAgreement.CommandLine

/-- what an option is about -/
inductive Topic where
  | minNodes
  | maxNodes
  | runs
  | config
  | help
deriving DecidableEq, Repr

/-- the options by their written forms -/
def options : List (String × Topic) :=
  [("-h", .help), ("--help", .help), ("--min-nodes", .minNodes), ("--max-nodes", .maxNodes), ("--runs", .runs),
   ("--config", .config)]

/-- which settings file is asked for -/
inductive ConfigChoice where
  | unset
  | path (path : String)
  /-- the option stands without its value -/
  | blank
deriving DecidableEq, Repr

/-- what the arguments ask for; a number is none if its option stands without a value, or if no largest size is given -/
structure Arguments where
  minNodes : Option Int
  maxNodes : Option Int
  runs : Option Int
  config : ConfigChoice
deriving DecidableEq, Repr

def Arguments.default : Arguments := ⟨some 3, none, some 5, .unset⟩

/-- what a command line asks for -/
inductive Request where
  | help
  | run (arguments : Arguments)
deriving DecidableEq, Repr

/-! ## Single arguments -/

/-- how an argument reads by itself -/
inductive Reading where
  /-- an option, with its value if that follows behind an equals sign -/
  | option (topic : Topic) (value : Option String)
  /-- something that can be the value of an option -/
  | value
  /-- the beginning of several options -/
  | ambiguous
  /-- the mark behind which there are no options -/
  | terminator
  /-- none of these -/
  | unknown
deriving DecidableEq, Repr

/-- the part before the first equals sign, and what follows it -/
def splitAtEquals (cs : List Char) : List Char × Option String :=
  match cs.dropWhile (· ≠ '=') with
  | [] => (cs, none)
  | _ :: rest => (cs.takeWhile (· ≠ '='), some (String.ofList rest))

/-- the options that begin with the given characters -/
def beginningWith (start : List Char) : List Topic :=
  (options.filter fun o => start.isPrefixOf o.1.toList).map Prod.snd

/-- at least one digit, and nothing else but a line feed at the end -/
def isDigits (cs : List Char) : Bool :=
  let rest := cs.dropWhile fun c => (Text.digitValue? c).isSome
  rest.length < cs.length && (rest = [] || rest = ['\n'])

/-- a negative number: digits with at most one point, and a digit behind the point -/
def isNegativeNumber : List Char → Bool
  | '-' :: cs =>
    match cs.dropWhile fun c => (Text.digitValue? c).isSome with
    | '.' :: fraction => isDigits fraction
    | _ => isDigits cs
  | _ => false

/-- what follows a single dash and its letter: the same letter again changes nothing, anything else is a value -/
def readCluster (topic : Topic) (letter : Char) (rest : List Char) : Reading :=
  let value := if rest.head? = some '=' then rest.drop 1 else rest
  .option topic (if !value.isEmpty && value.all (· = letter) then none else some (String.ofList value))

/-- how an argument that begins with a dash reads, if it is no whole option -/
def readDashed (cs : List Char) : Reading :=
  let split := splitAtEquals cs
  let candidates := if ['-', '-'].isPrefixOf cs then beginningWith split.1 else beginningWith (cs.take 2)
  match candidates, cs with
  | [topic], '-' :: '-' :: _ => .option topic split.2
  | [topic], _ :: letter :: rest => readCluster topic letter rest
  | [], _ => if isNegativeNumber cs || cs.contains ' ' then .value else .unknown
  | _, _ => .ambiguous

/-- how an argument reads by itself -/
def read (argument : String) : Reading :=
  match argument.toList with
  | '-' :: c :: cs =>
    if c = '-' ∧ cs = [] then .terminator
    else
      match options.find? (·.1 = argument) with
      | some o => .option o.2 none
      | none => readDashed ('-' :: c :: cs)
  | _ => .value

/-! ## Whole command lines -/

/-- the number that a value gives; behind an equals sign the terminator counts as no value -/
def readNumber (value : String) : Option (Option Int) :=
  if value = "--" then some none else (Text.integer? value).map some

/-- the arguments with one more value -/
def assign (a : Arguments) (topic : Topic) (value : String) : Option Arguments :=
  match topic with
  | .minNodes => (readNumber value).map fun n => { a with minNodes := n }
  | .maxNodes => (readNumber value).map fun n => { a with maxNodes := n }
  | .runs => (readNumber value).map fun n => { a with runs := n }
  | .config => some { a with config := if value = "--" then .blank else .path value }
  | .help => none

/-- what the remaining arguments ask for, given what those before have set and whether one of them was stray, which is
refused once all others were met; nothing if they cannot be understood -/
def parseFrom (stray : Bool) (a : Arguments) : List String → Option Request
  | [] => if stray then none else some (.run a)
  | argument :: rest =>
    match read argument, rest with
    | .option .help none, _ => some .help
    | .option topic (some value), rest => (assign a topic value).bind fun a' => parseFrom stray a' rest
    | .option topic none, value :: rest =>
      if read value = .value then (assign a topic value).bind fun a' => parseFrom stray a' rest else none
    | .option _ none, [] => none
    | .terminator, _ => none
    | _, rest => parseFrom true a rest

/-- what a command line asks for; an ambiguous option is refused before anything else is looked at -/
def parse (arguments : List String) : Except Fault Request :=
  if (arguments.takeWhile (· ≠ "--")).any (read · = .ambiguous) then .error .badUsage
  else
    match parseFrom false .default arguments with
    | some request => .ok request
    | none => .error .badUsage

/-! ## Help -/

/-- the lines that show how a program of the given name is called -/
def usage (program : String) : List String :=
  let head := "usage: " ++ program ++ " "
  [head ++ "[-h] [--min-nodes MIN_NODES] [--max-nodes MAX_NODES]",
   String.ofList (List.replicate head.length ' ') ++ "[--runs RUNS] [--config CONFIG]"]

/-- the lines of the help text -/
def helpText (program : String) : List String :=
  usage program ++
  ["", "Benchmark analysis and simulation performance.", "", "options:",
   "  -h, --help            show this help message and exit",
   "  --min-nodes MIN_NODES", "                        Smallest network size",
   "  --max-nodes MAX_NODES", "                        Largest network size. Default: max_analysis_nodes from",
   "                        settings",
   "  --runs RUNS           Analysis runs per size",
   "  --config CONFIG       Path to a fedvote.yaml"]

/-- the benchmark that the arguments ask for under given settings; no largest size, or zero, means the
settings' limit -/
def Arguments.plan (a : Arguments) (settings : Settings) : Benchmark.Plan where
  minSize := a.minNodes
  maxSize := if a.maxNodes.getD 0 = 0 then settings.analysisLimit else a.maxNodes.getD 0
  runs := a.runs
  settings := settings

end FederatedAgreement.CommandLine
