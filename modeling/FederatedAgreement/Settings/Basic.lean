/-
Settings: defaults for building and analysing simulations, with their limits. Values must be of exactly the kind of
their field; the kinds are checked field by field, the limits after them.
-/
import FederatedAgreement.Document.Field
import FederatedAgreement.Logging
import FederatedAgreement.Sorting.Ascending

namespace FederatedAgreement

/-- more nodes cannot be analysed, whatever the settings say -/
def maxAnalysisLimit : Nat := 62

/-! ## Kinds -/

/-- a kind of values, with the name that it has in messages: a document is of the kind if it is what a value is written
as -/
structure SettingKind (α : Type) where
  name : String
  read? : Document → Option α
  write : α → Document
  read?_write : ∀ a, read? (write a) = some a
  write_of_read? : ∀ {d : Document} {a : α}, read? d = some a → write a = d

namespace SettingKind

variable {α : Type} {kind : SettingKind α}

theorem read?_eq_some_iff {d : Document} {a : α} : kind.read? d = some a ↔ d = kind.write a :=
  ⟨fun read => (kind.write_of_read? read).symm, fun same => same ▸ kind.read?_write a⟩

theorem write_inj {a b : α} : kind.write a = kind.write b ↔ a = b := by
  rw [← read?_eq_some_iff, kind.read?_write, Option.some.injEq]

def truth : SettingKind Bool where
  name := "bool"
  read?
    | .bool b => some b
    | _ => none
  write := .bool
  read?_write _ := rfl
  write_of_read? read := by split at read <;> cases read; rfl

def number : SettingKind Int where
  name := "int"
  read?
    | .int n => some n
    | _ => none
  write := .int
  read?_write _ := rfl
  write_of_read? read := by split at read <;> cases read; rfl

def text : SettingKind String where
  name := "str"
  read?
    | .text s => some s
    | _ => none
  write := .text
  read?_write _ := rfl
  write_of_read? read := by split at read <;> cases read; rfl

end SettingKind

/-! ## Settings -/

/-- how simulations are built and analysed -/
structure Settings where
  fullMesh : Bool
  gossip : Bool
  analysisLimit : Nat
  settleLimit : Nat
  logLevel : LogLevel
  analysisLimit_range : 1 ≤ analysisLimit ∧ analysisLimit ≤ maxAnalysisLimit
  settleLimit_pos : 1 ≤ settleLimit
deriving DecidableEq

namespace Settings

def default : Settings := ⟨true, false, 12, 1000, .info, by decide, by decide⟩

instance : Inhabited Settings := ⟨default⟩

/-- the names of the fields, in the order in which they are checked -/
def fieldNames : List String :=
  ["overlay_fully_connected", "overlay_gossip_enabled", "max_analysis_nodes", "max_settle_steps", "log_level"]

/-- the value under a name, which must be of the kind, or the default if there is none -/
def setting {α : Type} (kind : SettingKind α) (fields : List (Scalar × Document)) (name : String) (default : α) :
    Except Misconfiguration α :=
  match Document.get? fields name with
  | none => .ok default
  | some found =>
    match kind.read? found with
    | some a => .ok a
    | none => .error (.settingKind name kind.name found)

/-- settings of values of the right kinds -/
def make (fullMesh gossip : Bool) (analysisLimit settleLimit : Int) (logLevel : String) :
    Except Misconfiguration Settings :=
  if hrange : 1 ≤ analysisLimit ∧ analysisLimit ≤ maxAnalysisLimit then
    if hpos : 1 ≤ settleLimit then
      match LogLevel.ofName? logLevel with
      | none => .error (.unknownLogLevel logLevel)
      | some level => .ok ⟨fullMesh, gossip, analysisLimit.toNat, settleLimit.toNat, level, by omega, by omega⟩
    else .error (.settleLimitBelowOne settleLimit)
  else .error (.analysisLimitOutOfRange maxAnalysisLimit analysisLimit)

/-- the scalar is the name of a field -/
def isFieldName (name : Scalar) : Bool := name.text?.any fieldNames.contains

/-- why there are no settings with names that are unknown; names without an order cannot be shown -/
def unknownFault (names : List Scalar) : Fault :=
  match Scalar.ascending? names with
  | some names => .misconfigured (.unknownSettings names)
  | none => .unreadable .wrongKind

/-- the settings that known fields give, all others being the defaults -/
def ofKnownFields (fields : List (Scalar × Document)) : Except Misconfiguration Settings := do
  let fullMesh ← setting .truth fields "overlay_fully_connected" default.fullMesh
  let gossip ← setting .truth fields "overlay_gossip_enabled" default.gossip
  let analysisLimit ← setting .number fields "max_analysis_nodes" default.analysisLimit
  let settleLimit ← setting .number fields "max_settle_steps" default.settleLimit
  let logLevel ← setting .text fields "log_level" default.logLevel.name
  make fullMesh gossip analysisLimit settleLimit logLevel

/-- the settings that fields give, all others being the defaults -/
def ofFields (fields : List (Scalar × Document)) : Except Fault Settings :=
  match (fields.map Prod.fst).filter (!isFieldName ·) with
  | [] => Fault.ofMisconfiguration (ofKnownFields fields)
  | unknown => .error (unknownFault unknown)

/-- why items that are no fields give no settings: some are unknown names, or all are known but come without values -/
def itemsFault (items : List Document) : Fault :=
  match items.mapM Document.scalar? with
  | some names =>
    match (Scalar.distinct names).filter (!isFieldName ·) with
    | [] => .unreadable .wrongKind
    | unknown => unknownFault unknown
  | none => .unreadable .wrongKind

/-- the settings of a record; anything else gives none, the items that a walk meets counting as names -/
def ofDocument : Document → Except Fault Settings
  | .record fields => ofFields fields
  | d => do .error (itemsFault (← Fault.ofReadFault d.items))

def toDocument (s : Settings) : Document :=
  .record [
    ("overlay_fully_connected", .bool s.fullMesh),
    ("overlay_gossip_enabled", .bool s.gossip),
    ("max_analysis_nodes", .int s.analysisLimit),
    ("max_settle_steps", .int s.settleLimit),
    ("log_level", .text s.logLevel.name)]

end Settings

end FederatedAgreement
