/-
Faults: every way in which a request can be refused, as a cause with its data, and the wording of each cause.

Three families: a document that cannot be read, a configuration that contradicts itself, and the remaining refusals of
the outer operations. A procedure that carries a request out in place can be refused at any point of it.

Results:
- `bind_eq_ok_iff`: when a request in two steps succeeds.
- `Procedure.runOn_check_bind`, `Procedure.runOn_get_bind`: what the first step of a procedure does.
-/
import FederatedAgreement.Document.Literal
import FederatedAgreement.Text.Integer

namespace FederatedAgreement

/-- public key of a node -/
abbrev NodeId := String

/-! ## Documents that cannot be read -/

inductive ReadFault where
  /-- a required field is absent -/
  | missingField (name : String)
  /-- a value of a kind that has no such use -/
  | wrongKind
  /-- an optional field was asked of something that is no record -/
  | notARecord
  /-- a text that writes no whole number -/
  | notAnInteger (text : String)
  /-- a text that writes a whole number with more digits than are read -/
  | tooManyDigits (digits : Nat)
  /-- an infinite number as a whole number -/
  | infinite
  /-- a float that stands for no number, as a whole number -/
  | notANumber
  /-- a value outside a vocabulary -/
  | notAMember (value : Document) (vocabulary : String)
  /-- fewer than the two items of a pair -/
  | pairTooShort (found : Nat)
  /-- more than the two items of a pair -/
  | pairTooLong
  /-- an item of a list of named values that is no pair -/
  | entryLength (index found : Nat)
  /-- a scenario format other than the known one -/
  | unsupportedVersion (found : Document)
  /-- an action that cannot stand in this place -/
  | wrongRole (action role : String)

/-- a text that is not shown beyond 200 characters -/
def clipped (s : String) : String := String.ofList (s.toList.take 200)

def ReadFault.message : ReadFault → String
  | .missingField name => Text.quote name
  | .wrongKind => "value of the wrong kind"
  | .notARecord => "not a record"
  | .notAnInteger text => "invalid literal for int() with base 10: " ++ clipped (Text.quote text)
  | .tooManyDigits digits =>
    let limit := toString Text.digitLimit
    "Exceeds the limit (" ++ limit ++ " digits) for integer string conversion: value has " ++ toString digits ++
      " digits; use sys.set_int_max_str_digits() to increase the limit"
  | .infinite => "cannot convert float infinity to integer"
  | .notANumber => "cannot convert float NaN to integer"
  | .notAMember value vocabulary => value.literal ++ " is not a valid " ++ vocabulary
  | .pairTooShort found => "not enough values to unpack (expected 2, got " ++ toString found ++ ")"
  | .pairTooLong => "too many values to unpack (expected 2)"
  | .entryLength index found =>
    "dictionary update sequence element #" ++ toString index ++ " has length " ++ toString found ++ "; 2 is required"
  | .unsupportedVersion found => "Unsupported scenario format version " ++ found.shown
  | .wrongRole action role => action ++ " is not a " ++ role

/-! ## Configurations that contradict themselves -/

inductive Misconfiguration where
  | thresholdBelowOne (threshold : Int)
  | repeatedValidators (validators : List Scalar)
  | thresholdAboveMembers (threshold : Int) (members : Nat)
  | repeatedNodes (keys : List NodeId)
  | unknownTrust (node : NodeId) (unknown : List NodeId)
  | unknownEndpoint (a b : NodeId)
  | tooManyNodes (count : Nat) (limit : Int)
  | unknownSettings (names : List Scalar)
  | settingKind (name expected : String) (found : Document)
  | analysisLimitOutOfRange (highest : Nat) (found : Int)
  | settleLimitBelowOne (found : Int)
  | unknownLogLevel (found : String)
  | notAMapping (path : String)
  | sectionNotAMapping (path : String)
  | analysisLimitNotAnInteger (text : String)

def Misconfiguration.message : Misconfiguration → String
  | .thresholdBelowOne threshold => "threshold must be >= 1, got " ++ toString threshold
  | .repeatedValidators validators => "duplicate validators in " ++ Scalar.literals validators
  | .thresholdAboveMembers threshold members =>
    "threshold " ++ toString threshold ++ " exceeds the " ++ toString members ++ " available members"
  | .repeatedNodes keys => "duplicate public keys in initial nodes: " ++ Text.quoteList keys
  | .unknownTrust node unknown => "node " ++ node ++ " trusts unknown nodes " ++ Text.quoteList unknown
  | .unknownEndpoint a b => "connection " ++ a ++ "<->" ++ b ++ " names an unknown node"
  | .tooManyNodes count limit =>
    "network of " ++ toString count ++ " nodes exceeds the analysis limit of " ++ toString limit
  | .unknownSettings names => "unknown settings: " ++ Scalar.literals names
  | .settingKind name expected found => name ++ " must be " ++ expected ++ ", got " ++ found.literal
  | .analysisLimitOutOfRange highest found =>
    "max_analysis_nodes must be in [1, " ++ toString highest ++ "], got " ++ toString found
  | .settleLimitBelowOne found => "max_settle_steps must be >= 1, got " ++ toString found
  | .unknownLogLevel found => "unknown log_level " ++ Text.quote found
  | .notAMapping path => path ++ " must hold a mapping at the top level"
  | .sectionNotAMapping path => "simulation section of " ++ path ++ " must be a mapping"
  | .analysisLimitNotAnInteger text => "FEDVOTE_MAX_ANALYSIS_NODES must be an integer, got " ++ Text.quote text

/-! ## All refusals -/

inductive Fault where
  | unreadable (cause : ReadFault)
  | misconfigured (cause : Misconfiguration)
  /-- no built-in scenario has this name -/
  | unknownScenario (name : Scalar)
  /-- an explicitly named settings file does not exist -/
  | missingFile (path : String)
  /-- a folder stands where a settings file is expected -/
  | isFolder (path : String)
  /-- no file can have this path -/
  | unusablePath (path : String)
  /-- an option that needs a value stands without one -/
  | noValue
  /-- a mean over no runs -/
  | meanOfNothing
  /-- a mean over more runs than a float can stand for -/
  | meanOutOfRange
  /-- a report on an analysis that never ran -/
  | nothingAnalyzed
  /-- a command line that cannot be understood; its message is the exit status -/
  | badUsage
  /-- a text that is the value of a logging constant other than a level -/
  | unknownLevel (found : String)

def Fault.message : Fault → String
  | .unreadable cause => cause.message
  | .misconfigured cause => cause.message
  | .unknownScenario name => name.literal
  | .missingFile path => "Missing fedvote config at " ++ path
  | .isFolder path => "Is a directory: " ++ Text.quote path
  | .unusablePath path => "File name too long: " ++ Text.quote path
  | .noValue => "an option stands without its value"
  | .meanOfNothing => "float division by zero"
  | .meanOutOfRange => "int too large to convert to float"
  | .nothingAnalyzed => "no analysis has run"
  | .badUsage => "2"
  | .unknownLevel found => "Unknown level: " ++ Text.quote found

/-- a misconfiguration found while a larger request is served -/
def Fault.ofMisconfiguration {α : Type} : Except Misconfiguration α → Except Fault α :=
  Except.mapError .misconfigured

/-- an unreadable document found while a larger request is served -/
def Fault.ofReadFault {α : Type} : Except ReadFault α → Except Fault α :=
  Except.mapError .unreadable

/-- a request in two steps succeeds if both do -/
theorem bind_eq_ok_iff {ε α β : Type} {x : Except ε α} {f : α → Except ε β} {b : β} :
    x >>= f = .ok b ↔ ∃ a, x = .ok a ∧ f a = .ok b := by
  cases x <;> simp [bind, Except.bind]

@[simp] theorem Fault.ofMisconfiguration_ok {α : Type} (a : α) : Fault.ofMisconfiguration (.ok a) = .ok a := rfl

theorem Fault.ofMisconfiguration_eq_ok_iff {α : Type} {r : Except Misconfiguration α} {a : α} :
    Fault.ofMisconfiguration r = .ok a ↔ r = .ok a := by
  cases r with
  | error m => exact ⟨nofun, nofun⟩
  | ok b => rw [Fault.ofMisconfiguration_ok, Except.ok.injEq, Except.ok.injEq]

@[simp] theorem Fault.ofReadFault_ok {α : Type} (a : α) : Fault.ofReadFault (.ok a) = .ok a := rfl

/-! ## Procedures -/

/-- a procedure that changes a state as it goes; where it fails, what it has changed by then stays -/
abbrev Procedure (σ α : Type) : Type := ExceptT Misconfiguration (StateM σ) α

namespace Procedure

variable {σ α β : Type}

/-- how a procedure ends, and what it leaves -/
def runOn (p : Procedure σ α) (s : σ) : Except Misconfiguration α × σ := (ExceptT.run p).run s

/-- a procedure that changes nothing, but may fail -/
def check (r : Except Misconfiguration α) : Procedure σ α := MonadExcept.ofExcept r

theorem runOn_check_bind (r : Except Misconfiguration α) (f : α → Procedure σ β) (s : σ) :
    (check r >>= f).runOn s = match r with
      | .ok a => (f a).runOn s
      | .error m => (.error m, s) := by
  cases r <;> rfl

theorem runOn_get_bind (f : σ → Procedure σ β) (s : σ) : ((get : Procedure σ σ) >>= f).runOn s = (f s).runOn s := rfl

end Procedure

end FederatedAgreement
