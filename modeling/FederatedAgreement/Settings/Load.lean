/-
Loading settings: out of the `simulation` section of a file, with single values taken from the environment instead.
A file that is named explicitly must exist; without any file the defaults hold.
-/
import FederatedAgreement.Settings.Basic

namespace FederatedAgreement

/-! ## Paths

In the form in which messages show them: parts that name nothing are left out, and so are slashes that separate nothing. -/

/-- the parts of a path between its slashes -/
def splitAtSlashes : List Char → List (List Char)
  | [] => [[]]
  | '/' :: cs => [] :: splitAtSlashes cs
  | c :: cs =>
    match splitAtSlashes cs with
    | part :: parts => (c :: part) :: parts
    | [] => [[c]]

/-- the parts of a path that name something; two dots do -/
def pathParts (cs : List Char) : List (List Char) :=
  (splitAtSlashes cs).filter fun part => !part.isEmpty && part ≠ ['.']

/-- the slashes that a path begins with: two are kept, more count as one -/
def pathRoot : List Char → List Char
  | '/' :: '/' :: '/' :: _ => ['/']
  | '/' :: '/' :: _ => ['/', '/']
  | '/' :: _ => ['/']
  | _ => []

/-- the normal form of a path; one that names nothing is the current folder -/
def normalPath (path : String) : String :=
  let cs := path.toList
  match pathRoot cs ++ List.intercalate ['/'] (pathParts cs) with
  | [] => "."
  | kept => String.ofList kept

example : normalPath "./nope//x/../y.yaml/" = "nope/x/../y.yaml" := by decide

example : normalPath "///nope" = "/nope" := by decide

example : normalPath "" = "." := by decide

/-! ## Files and the environment -/

/-- values that the environment gives; an empty text counts as none -/
structure Environment where
  logLevel : Option String
  analysisLimit : Option String
deriving DecidableEq, Repr

/-- what is met at the path of a file -/
inductive FileState where
  | missing
  | folder
  /-- no file can have this path -/
  | unusable
  | holds (content : Document)

/-- where settings are looked for: a file named explicitly, or else one that was found otherwise, if any -/
inductive SettingsSource where
  | named (path : String) (state : FileState)
  /-- a file is asked for, but not by a path -/
  | unnamed
  | found (path : String) (state : FileState)
  | nowhere

namespace SettingsSource

/-- the document at a path, if there is a file -/
def documentAt (path : String) : FileState → Except Fault (Option Document)
  | .missing => .ok none
  | .folder => .error (.isFolder (normalPath path))
  | .unusable => .error (.unusablePath (normalPath path))
  | .holds content => .ok (some content)

/-- the file to read with its path, if there is one; a file that is named explicitly must exist -/
def file : SettingsSource → Except Fault (Option (String × Document))
  | .named path state => do
    match ← documentAt path state with
    | some content => .ok (some (normalPath path, content))
    | none => .error (.missingFile (normalPath path))
  | .unnamed => .error .noValue
  | .found path state => do .ok ((← documentAt path state).map fun content => (normalPath path, content))
  | .nowhere => .ok none

end SettingsSource

namespace Settings

/-- the fields of a record; what counts as nothing has none -/
def fieldsOr (d : Document) (otherwise : Misconfiguration) : Except Misconfiguration (List (Scalar × Document)) :=
  if d.isTrue then
    match d with
    | .record fields => .ok fields
    | _ => .error otherwise
  else .ok []

/-- the fields of the section of a file -/
def sectionOf (path : String) (content : Document) : Except Misconfiguration (List (Scalar × Document)) := do
  let top ← fieldsOr content (.notAMapping path)
  fieldsOr ((Document.get? top "simulation").getD .null) (.sectionNotAMapping path)

/-- the fields with a log level from the environment in the place of their own -/
def overrideLogLevel (value : Option String) (fields : List (Scalar × Document)) : List (Scalar × Document) :=
  match value.filter (· ≠ "") with
  | some s => Document.put "log_level" (.text s) fields
  | none => fields

/-- the fields with an analysis limit from the environment in the place of their own; it must be a whole number -/
def overrideAnalysisLimit (value : Option String) (fields : List (Scalar × Document)) :
    Except Misconfiguration (List (Scalar × Document)) :=
  match value.filter (· ≠ "") with
  | some s =>
    match Text.integer? s with
    | some n => .ok (Document.put "max_analysis_nodes" (.int n) fields)
    | none => .error (.analysisLimitNotAnInteger s)
  | none => .ok fields

/-- the settings of a file, or of none, in an environment -/
def ofFile (file : Option (String × Document)) (env : Environment) : Except Fault Settings := do
  let fields ←
    match file with
    | some (path, content) => Fault.ofMisconfiguration (sectionOf path content)
    | none => .ok []
  ofFields (← Fault.ofMisconfiguration (overrideAnalysisLimit env.analysisLimit (overrideLogLevel env.logLevel fields)))

/-- the settings that hold, or why there are none -/
def load (source : SettingsSource) (env : Environment) : Except Fault Settings := do
  ofFile (← source.file) env

end Settings

end FederatedAgreement
