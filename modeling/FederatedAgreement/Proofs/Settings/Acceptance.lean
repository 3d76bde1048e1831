/-
Which documents give settings, and which settings they give. The top level and the section are records, or absent; every
name in the section is that of a field; and what each field gets, from the environment before the section before the
defaults, is of exactly its kind and within its limits. Apart from this, a value that counts as nothing is taken for an
absent one, though it be a list, a text, a number or a truth value.

Results:
- `Document.takenFor_iff`: what is taken for a record of fields, and what of it by mistake.
- `Settings.ofKnownFields_eq_ok_iff`, `Settings.ofFields_eq_ok_iff`: which settings values give, and names with values.
- `Settings.override_ok`, `Settings.override_error`: what the environment does to them.
- `Settings.accepted_exactly`: **what is accepted**, and how the rest is refused.
- `Settings.emptyList_accepted`: so there are settings where there should be none.
-/
import FederatedAgreement.Settings.Load

namespace FederatedAgreement

/-! ## Names without an order -/

namespace Scalar

theorem exists_mapM_text? {l : List Scalar} (texts : ∀ a ∈ l, a.text? ≠ none) : ∃ names, l.mapM text? = some names := by
  induction l with
  | nil => exact ⟨[], rfl⟩
  | cons a l ih =>
    obtain ⟨first, others⟩ := List.forall_mem_cons.1 texts
    obtain ⟨name, named⟩ := Option.ne_none_iff_exists'.1 first
    obtain ⟨names, rest⟩ := ih others
    exact ⟨name :: names, by rw [List.mapM_cons, named, rest]; rfl⟩

/-- of scalars without an order, one is no text and one is no number -/
theorem mixed_of_ascending? {l : List Scalar} (unordered : ascending? l = none) :
    (∃ a ∈ l, a.text? = none) ∧ ∃ a ∈ l, a.isNumeric = false := by
  unfold ascending? at unordered
  split at unordered
  · cases unordered
  · cases unordered
  · split at unordered
    · cases unordered
    · next no_names =>
      split at unordered
      · cases unordered
      · next no_numbers =>
        refine ⟨Classical.byContradiction fun texts => ?_, by simpa using no_numbers⟩
        obtain ⟨names, named⟩ := exists_mapM_text? fun a ha none => texts ⟨a, ha, none⟩
        cases no_names.symm.trans named

end Scalar

/-! ## Where fields are expected -/

namespace Document

/-- a record with its fields; an absent value has none -/
inductive Mapping : Document → List (Scalar × Document) → Prop
  | absent : Mapping .null []
  | record (fields : List (Scalar × Document)) : Mapping (.record fields) fields

/-- the fields for which a document is taken: none if it counts as nothing -/
inductive TakenFor : Document → List (Scalar × Document) → Prop
  | nothing {d : Document} (empty : d.isTrue = false) : TakenFor d []
  | record (fields : List (Scalar × Document)) : TakenFor (.record fields) fields

/-- a value that is no mapping counts as nothing -/
def Mistaken (d : Document) : Prop := d.isTrue = false ∧ ¬ ∃ fields, Mapping d fields

variable {d : Document} {fields : List (Scalar × Document)}

theorem takenFor_iff : TakenFor d fields ↔ Mapping d fields ∨ (Mistaken d ∧ fields = []) := by
  constructor
  · rintro (empty | fields)
    · by_cases proper : ∃ fields, Mapping d fields
      · obtain ⟨fields, _ | fields⟩ := proper
        · exact Or.inl .absent
        · have none : fields = [] := by simpa [isTrue] using empty
          subst none
          exact Or.inl (.record [])
      · exact Or.inr ⟨⟨empty, proper⟩, rfl⟩
    · exact Or.inl (.record fields)
  · rintro ((_ | _) | ⟨mistaken, rfl⟩)
    · exact .nothing rfl
    · exact .record _
    · exact .nothing mistaken.1

/-- writing a field does not add a name, or adds the name of this field -/
theorem names_put (name : Scalar) (value : Document) (fields : List (Scalar × Document)) :
    (put name value fields).map Prod.fst = fields.map Prod.fst ∨
      (put name value fields).map Prod.fst = fields.map Prod.fst ++ [name] := by
  induction fields with
  | nil => exact Or.inr rfl
  | cons field fields ih =>
    rw [put]
    split
    · exact Or.inl rfl
    · simpa using ih

end Document

open Document (get? put Mapping TakenFor Mistaken)

namespace Settings

variable {fields : List (Scalar × Document)} {env : Environment} {s : Settings}

theorem fieldsOr_eq_ok_iff {d : Document} {otherwise : Misconfiguration} :
    fieldsOr d otherwise = .ok fields ↔ TakenFor d fields := by
  unfold fieldsOr
  constructor
  · intro taken
    split at taken
    · split at taken
      · cases taken
        exact .record _
      · cases taken
    · next empty =>
      cases taken
      exact .nothing (Bool.eq_false_iff.2 empty)
  · rintro (empty | _)
    · rw [if_neg (Bool.eq_false_iff.1 empty)]
    · split
      · rfl
      · next empty =>
        have none : fields = [] := by simpa [Document.isTrue] using empty
        rw [none]

/-- the fields of the section, where the top level and the section are read as mappings in some way -/
def SectionOf (mapping : Document → List (Scalar × Document) → Prop) (content : Document)
    (fields : List (Scalar × Document)) : Prop :=
  ∃ top, mapping content top ∧ mapping ((get? top "simulation").getD .null) fields

theorem sectionOf_eq_ok_iff {path : String} {content : Document} :
    sectionOf path content = .ok fields ↔ SectionOf TakenFor content fields := by
  unfold sectionOf SectionOf
  cases taken : fieldsOr content (.notAMapping path) with
  | error m =>
    refine ⟨nofun, fun ⟨top, h, _⟩ => ?_⟩
    rw [fieldsOr_eq_ok_iff.2 h] at taken
    cases taken
  | ok top =>
    have content_taken := fieldsOr_eq_ok_iff.1 taken
    constructor
    · exact fun h => ⟨top, content_taken, fieldsOr_eq_ok_iff.1 h⟩
    · rintro ⟨top', h, inside⟩
      cases taken.symm.trans (fieldsOr_eq_ok_iff.2 h)
      exact fieldsOr_eq_ok_iff.2 inside

/-! ## What a field gets -/

/-- the fields of the default settings -/
def defaultFields : List (Scalar × Document) :=
  [("overlay_fully_connected", .bool default.fullMesh), ("overlay_gossip_enabled", .bool default.gossip),
    ("max_analysis_nodes", .int default.analysisLimit), ("max_settle_steps", .int default.settleLimit),
    ("log_level", .text default.logLevel.name)]

example : default.toDocument = .record defaultFields := rfl

/-- the value of a field, or the default -/
def valueIn (fields : List (Scalar × Document)) (name : String) : Document :=
  (get? fields name).getD ((get? defaultFields name).getD .null)

/-- the settings are these values, each of the kind of its field, and the log level in capital letters; that values are
within their limits is part of what settings are -/
structure Says (value : String → Document) (s : Settings) : Prop where
  fullMesh : value "overlay_fully_connected" = .bool s.fullMesh
  gossip : value "overlay_gossip_enabled" = .bool s.gossip
  analysisLimit : value "max_analysis_nodes" = .int s.analysisLimit
  settleLimit : value "max_settle_steps" = .int s.settleLimit
  logLevel : ∃ name, value "log_level" = .text name ∧ Text.capitals name = s.logLevel.name

/-- a field gets a value if this, or the default where there is none, is what the value is written as -/
theorem setting_eq_ok_iff {α : Type} {kind : SettingKind α} {name : String} {default a : α} :
    setting kind fields name default = .ok a ↔ (get? fields name).getD (kind.write default) = kind.write a := by
  unfold setting
  split
  · next none => rw [none, Option.getD_none, SettingKind.write_inj, Except.ok.injEq]
  · next found here =>
    rw [here, Option.getD_some, ← SettingKind.read?_eq_some_iff]
    split
    · next b read => rw [read, Except.ok.injEq, Option.some.injEq]
    · next unread =>
      rw [unread]
      exact ⟨nofun, nofun⟩

/-- a level has one name, in capital letters -/
theorem ofName?_eq_some_iff {name : String} {l : LogLevel} :
    LogLevel.ofName? name = some l ↔ Text.capitals name = l.name := by
  constructor
  · intro found
    have named := List.find?_some found
    exact (of_decide_eq_true named).symm
  · intro same
    rw [LogLevel.ofName?, same]
    cases l <;> decide

theorem make_eq_ok_iff {fullMesh gossip : Bool} {analysisLimit settleLimit : Int} {logLevel : String} :
    make fullMesh gossip analysisLimit settleLimit logLevel = .ok s ↔
      fullMesh = s.fullMesh ∧ gossip = s.gossip ∧ analysisLimit = s.analysisLimit ∧ settleLimit = s.settleLimit ∧
      Text.capitals logLevel = s.logLevel.name := by
  unfold make
  have range := s.analysisLimit_range
  have positive := s.settleLimit_pos
  split
  · split
    · split
      · next unknown =>
        refine ⟨nofun, fun ⟨_, _, _, _, name⟩ => ?_⟩
        cases unknown.symm.trans (ofName?_eq_some_iff.2 name)
      · next level named =>
        rw [Except.ok.injEq]
        constructor
        · rintro rfl
          refine ⟨rfl, rfl, ?_, ?_, ofName?_eq_some_iff.1 named⟩ <;> simp only <;> omega
        · rintro ⟨rfl, rfl, rfl, rfl, name⟩
          cases named.symm.trans (ofName?_eq_some_iff.2 name)
          rfl
    · next low => exact ⟨nofun, fun ⟨_, _, _, settle, _⟩ => absurd (by omega) low⟩
  · next outside => exact ⟨nofun, fun ⟨_, _, analysis, _⟩ => absurd (by omega) outside⟩

/-- **Values.** Known fields give these settings if what each of them gets is of exactly its kind and within its limits. -/
theorem ofKnownFields_eq_ok_iff : ofKnownFields fields = .ok s ↔ Says (valueIn fields) s := by
  simp only [ofKnownFields, bind_eq_ok_iff, setting_eq_ok_iff, make_eq_ok_iff]
  constructor
  · rintro ⟨_, mesh, _, gossip, _, analysis, _, settle, name, level, rfl, rfl, rfl, rfl, same⟩
    exact ⟨mesh, gossip, analysis, settle, name, level, same⟩
  · rintro ⟨mesh, gossip, analysis, settle, name, level, same⟩
    exact ⟨_, mesh, _, gossip, _, analysis, _, settle, name, level, rfl, rfl, rfl, rfl, same⟩

/-! ## Names -/

/-- the names that are those of no field -/
def unknownNames (fields : List (Scalar × Document)) : List Scalar := (fields.map Prod.fst).filter (!isFieldName ·)

theorem unknownNames_eq_nil_iff : unknownNames fields = [] ↔ ∀ field ∈ fields, isFieldName field.1 = true := by
  simp [unknownNames, List.filter_eq_nil_iff]

/-- writing a field does not change which names are unknown -/
theorem unknownNames_put {name : String} (known : isFieldName name = true) (value : Document) :
    unknownNames (put name value fields) = unknownNames fields := by
  unfold unknownNames
  rcases Document.names_put name value fields with same | added
  · rw [same]
  · rw [added, List.filter_append, List.filter_cons_of_neg (by simp [known])]
    exact List.append_nil _

/-- **Names and values.** Fields give these settings if all names are known and the values do. -/
theorem ofFields_eq_ok_iff : ofFields fields = .ok s ↔ unknownNames fields = [] ∧ Says (valueIn fields) s := by
  rw [← ofKnownFields_eq_ok_iff]
  unfold ofFields unknownNames
  split
  · next known =>
    rw [known, and_iff_right rfl, Fault.ofMisconfiguration_eq_ok_iff]
  · next unknown => exact ⟨nofun, fun h => absurd h.1 unknown⟩

/-- fields that give no settings are misconfigured, or there are unknown names without an order -/
theorem ofFields_eq_error {f : Fault} (h : ofFields fields = .error f) :
    (∃ m, f = .misconfigured m) ∨ (f = .unreadable .wrongKind ∧ Scalar.ascending? (unknownNames fields) = none) := by
  unfold ofFields at h
  split at h
  · cases wrong : ofKnownFields fields with
    | ok s =>
      rw [wrong] at h
      cases h
    | error m =>
      rw [wrong] at h
      cases h
      exact Or.inl ⟨m, rfl⟩
  · unfold unknownFault at h
    split at h
    · next names _ =>
      cases h
      exact Or.inl ⟨_, rfl⟩
    · next unordered =>
      cases h
      exact Or.inr ⟨rfl, unordered⟩

/-! ## The environment -/

/-- what the environment gives for a field: texts that are not empty, of which the one for the analysis limit is read as a
whole number, if it is one -/
def given (env : Environment) (name : String) : Option Document :=
  if name = "log_level" then (env.logLevel.filter (· ≠ "")).map .text
  else if name = "max_analysis_nodes" then
    (env.analysisLimit.filter (· ≠ "")).map fun s => ((Text.integer? s).map Document.int).getD (.text s)
  else none

/-- what a field gets: from the environment, else from the section, else from the defaults -/
def resulting (env : Environment) (fields : List (Scalar × Document)) (name : String) : Document :=
  (given env name).getD (valueIn fields name)

theorem valueIn_put (name other : String) (value : Document) :
    valueIn (put name value fields) other = if other = name then value else valueIn fields other := by
  unfold valueIn
  rw [Document.get?_put]
  by_cases same : other = name
  · simp [same]
  · simp [same]

theorem unknownNames_overrideLogLevel (value : Option String) :
    unknownNames (overrideLogLevel value fields) = unknownNames fields := by
  unfold overrideLogLevel
  split
  · exact unknownNames_put (by decide) _
  · rfl

theorem valueIn_overrideLogLevel (value : Option String) (name : String) :
    valueIn (overrideLogLevel value fields) name =
      if name = "log_level" then ((value.filter (· ≠ "")).map .text).getD (valueIn fields name)
      else valueIn fields name := by
  unfold overrideLogLevel
  split
  · next s found => rw [found, valueIn_put, Option.map_some, Option.getD_some]
  · next none =>
    rw [none, Option.map_none, Option.getD_none]
    exact (ite_self _).symm

/-- where the environment can be read, the fields get what it gives, and no other names -/
theorem override_ok {merged : List (Scalar × Document)}
    (h : overrideAnalysisLimit env.analysisLimit (overrideLogLevel env.logLevel fields) = .ok merged) :
    unknownNames merged = unknownNames fields ∧ valueIn merged = resulting env fields := by
  unfold overrideAnalysisLimit at h
  split at h
  · next s limited =>
    split at h
    · next n whole =>
      cases h
      refine ⟨(unknownNames_put (by decide) _).trans (unknownNames_overrideLogLevel _), funext fun name => ?_⟩
      rw [valueIn_put, valueIn_overrideLogLevel, resulting, given, limited, Option.map_some, whole]
      by_cases limit : name = "max_analysis_nodes"
      · simp [limit]
      · by_cases level : name = "log_level" <;> simp [limit, level]
    · cases h
  · next unlimited =>
    cases h
    refine ⟨unknownNames_overrideLogLevel _, funext fun name => ?_⟩
    rw [valueIn_overrideLogLevel, resulting, given, unlimited, Option.map_none, ite_self]
    by_cases level : name = "log_level" <;> simp [level]

/-- where it cannot, no settings have what it gives -/
theorem override_error {m : Misconfiguration}
    (h : overrideAnalysisLimit env.analysisLimit (overrideLogLevel env.logLevel fields) = .error m) :
    ¬ Says (resulting env fields) s := by
  unfold overrideAnalysisLimit at h
  split at h
  · next t limited =>
    split at h
    · cases h
    · next unread =>
      intro fits
      have gets : resulting env fields "max_analysis_nodes" = .text t := by
        rw [resulting, given, if_neg (by decide), if_pos rfl, limited, Option.map_some, unread]
        rfl
      cases gets.symm.trans fits.analysisLimit
  · cases h

/-- the settings that the fields of a section give in an environment -/
def ofSection (fields : List (Scalar × Document)) (env : Environment) : Except Fault Settings := do
  ofFields (← Fault.ofMisconfiguration (overrideAnalysisLimit env.analysisLimit (overrideLogLevel env.logLevel fields)))

theorem ofSection_eq_ok_iff : ofSection fields env = .ok s ↔
    (∀ field ∈ fields, isFieldName field.1 = true) ∧ Says (resulting env fields) s := by
  rw [← unknownNames_eq_nil_iff]
  unfold ofSection
  cases written : overrideAnalysisLimit env.analysisLimit (overrideLogLevel env.logLevel fields) with
  | error m => exact ⟨nofun, fun h => absurd h.2 (override_error written)⟩
  | ok merged =>
    obtain ⟨names, values⟩ := override_ok written
    rw [← names, ← values, ← ofFields_eq_ok_iff]
    rfl

theorem ofSection_eq_error {f : Fault} (h : ofSection fields env = .error f) :
    (∃ m, f = .misconfigured m) ∨ (f = .unreadable .wrongKind ∧ Scalar.ascending? (unknownNames fields) = none) := by
  unfold ofSection at h
  cases written : overrideAnalysisLimit env.analysisLimit (overrideLogLevel env.logLevel fields) with
  | error m =>
    rw [written] at h
    cases h
    exact Or.inl ⟨m, rfl⟩
  | ok merged =>
    rw [written] at h
    rw [← (override_ok written).1]
    exact ofFields_eq_error h

/-! ## Sections that count as nothing -/

/-- the document counts as nothing, or its section does, without being absent or a record -/
def Misread (content : Document) : Prop :=
  Mistaken content ∨ ∃ top, Mapping content top ∧ Mistaken ((get? top "simulation").getD .null)

theorem sectionOf_takenFor_iff {content : Document} :
    SectionOf TakenFor content fields ↔ SectionOf Mapping content fields ∨ (Misread content ∧ fields = []) := by
  constructor
  · rintro ⟨top, taken, inside⟩
    rcases Document.takenFor_iff.1 taken with proper | ⟨mistaken, rfl⟩
    · rcases Document.takenFor_iff.1 inside with proper' | ⟨mistaken, rfl⟩
      · exact Or.inl ⟨top, proper, proper'⟩
      · exact Or.inr ⟨Or.inr ⟨top, proper, mistaken⟩, rfl⟩
    · cases inside with
      | nothing _ => exact Or.inr ⟨Or.inl mistaken, rfl⟩
  · rintro (⟨top, proper, proper'⟩ | ⟨mistaken | ⟨top, proper, mistaken⟩, rfl⟩)
    · exact ⟨top, Document.takenFor_iff.2 (Or.inl proper), Document.takenFor_iff.2 (Or.inl proper')⟩
    · exact ⟨[], .nothing mistaken.1, .nothing rfl⟩
    · exact ⟨top, Document.takenFor_iff.2 (Or.inl proper), .nothing mistaken.1⟩

/-- what settings are read from: a document, or an absent value if there is no file -/
def contentOf (file : Option (String × Document)) : Document := (file.map Prod.snd).getD .null

/-- no file is as good as an absent value -/
theorem ofFile_eq (file : Option (String × Document)) (env : Environment) :
    ∃ path, ofFile file env =
      Fault.ofMisconfiguration (sectionOf path (contentOf file)) >>= fun fields => ofSection fields env := by
  cases file with
  | none => exact ⟨"", rfl⟩
  | some file => exact ⟨file.1, rfl⟩

/-! ## Main result -/

/-- the section has only known names, and what each field gets makes up the settings -/
def Accepts (mapping : Document → List (Scalar × Document) → Prop) (content : Document) (env : Environment)
    (s : Settings) : Prop :=
  ∃ fields, SectionOf mapping content fields ∧ (∀ field ∈ fields, isFieldName field.1 = true) ∧
    Says (resulting env fields) s

theorem ofFile_eq_ok_iff {file : Option (String × Document)} :
    ofFile file env = .ok s ↔ Accepts TakenFor (contentOf file) env s := by
  obtain ⟨path, same⟩ := ofFile_eq file env
  rw [same]
  simp only [bind_eq_ok_iff, Fault.ofMisconfiguration_eq_ok_iff, sectionOf_eq_ok_iff, ofSection_eq_ok_iff]
  rfl

/-- what is accepted apart from what should be: a value that counts as nothing, if the rest makes up the settings -/
theorem accepts_takenFor_iff {content : Document} :
    Accepts TakenFor content env s ↔
      Accepts Mapping content env s ∨ (Misread content ∧ Says (resulting env []) s) := by
  unfold Accepts
  simp only [sectionOf_takenFor_iff, or_and_right, exists_or]
  refine or_congr_right ?_
  constructor
  · rintro ⟨_, ⟨misread, rfl⟩, _, fits⟩
    exact ⟨misread, fits⟩
  · rintro ⟨misread, fits⟩
    exact ⟨[], ⟨misread, rfl⟩, nofun, fits⟩

theorem ofFile_eq_error {file : Option (String × Document)} {f : Fault} (h : ofFile file env = .error f) :
    (∃ m, f = .misconfigured m) ∨
    (f = .unreadable .wrongKind ∧ ∃ fields, SectionOf Mapping (contentOf file) fields ∧
      (∃ name ∈ unknownNames fields, name.text? = none) ∧ ∃ name ∈ unknownNames fields, name.isNumeric = false) := by
  obtain ⟨path, same⟩ := ofFile_eq file env
  rw [same] at h
  cases taken : sectionOf path (contentOf file) with
  | error m =>
    rw [taken] at h
    cases h
    exact Or.inl ⟨m, rfl⟩
  | ok fields =>
    rw [taken] at h
    rcases ofSection_eq_error h with misconfigured | ⟨unreadable, unordered⟩
    · exact Or.inl misconfigured
    · refine Or.inr ⟨unreadable, fields, ?_, Scalar.mixed_of_ascending? unordered⟩
      rcases sectionOf_takenFor_iff.1 (sectionOf_eq_ok_iff.1 taken) with proper | ⟨_, rfl⟩
      · exact proper
      · cases unordered

/-- **What is accepted.** Take a document, or none, and an environment. There are settings if the top level and the section
are records or absent, all names in the section are those of fields, and what each field gets is of its kind and within its
limits; then they are these values, with the log level in capital letters. Besides, a top level or a section that counts as
nothing is accepted as if it were absent. Whatever else is there is refused as a misconfiguration, unless there are unknown
names of which one is no text and one is no number. -/
theorem accepted_exactly {source : SettingsSource} {file : Option (String × Document)} (read : source.file = .ok file)
    (env : Environment) :
    (∀ s, load source env = .ok s ↔
      Accepts Mapping (contentOf file) env s ∨ (Misread (contentOf file) ∧ Says (resulting env []) s)) ∧
    ((∃ s, load source env = .ok s) ∨ (∃ m, load source env = .error (.misconfigured m)) ∨
      (load source env = .error (.unreadable .wrongKind) ∧ ∃ fields, SectionOf Mapping (contentOf file) fields ∧
        (∃ name ∈ unknownNames fields, name.text? = none) ∧ ∃ name ∈ unknownNames fields, name.isNumeric = false)) := by
  have same : load source env = ofFile file env := by
    rw [load, read]
    rfl
  rw [same]
  refine ⟨fun s => ofFile_eq_ok_iff.trans accepts_takenFor_iff, ?_⟩
  cases outcome : ofFile file env with
  | ok s => exact Or.inl ⟨s, rfl⟩
  | error f =>
    rcases ofFile_eq_error outcome with ⟨m, rfl⟩ | ⟨rfl, mixed⟩
    · exact Or.inr (Or.inl ⟨m, rfl⟩)
    · exact Or.inr (Or.inr ⟨rfl, mixed⟩)

/-- a file with a wrong limit, and an environment that corrects it -/
def manyNodes : Document :=
  .record [("simulation", .record [("max_analysis_nodes", .text "many"), ("max_settle_steps", .int 50)])]

def correcting : Environment := ⟨some "warnıng", some " 2_0 "⟩

def correctedSettings : Settings := ⟨true, false, 20, 50, .warning, by decide, by decide⟩

/-- the values of the environment come before those of the file, and these before the defaults -/
theorem manyNodes_corrected :
    (SettingsSource.named "config.yaml" (.holds manyNodes)).file = .ok (some (normalPath "config.yaml", manyNodes)) ∧
    Accepts Mapping manyNodes correcting correctedSettings ∧
    load (.named "config.yaml" (.holds manyNodes)) correcting = .ok correctedSettings ∧
    load (.named "config.yaml" (.holds manyNodes)) ⟨none, some ""⟩ =
      .error (.misconfigured (.settingKind "max_analysis_nodes" "int" (.text "many"))) := by
  have read : (SettingsSource.named "config.yaml" (.holds manyNodes)).file =
      .ok (some (normalPath "config.yaml", manyNodes)) := rfl
  have accepts : Accepts Mapping manyNodes correcting correctedSettings :=
    ⟨_, ⟨_, .record _, .record _⟩, by decide, ⟨rfl, rfl, rfl, rfl, "warnıng", rfl, by decide⟩⟩
  exact ⟨read, accepts, ((accepted_exactly read correcting).1 correctedSettings).2 (Or.inl accepts), rfl⟩

/-- an empty list is no mapping, nor is a truth value, and yet there are settings -/
theorem emptyList_accepted :
    load (.named "config.yaml" (.holds (.list []))) ⟨none, none⟩ = .ok default ∧
    (¬ ∃ s, Accepts Mapping (.list []) ⟨none, none⟩ s) ∧
    load (.named "config.yaml" (.holds (.record [("simulation", .bool false)]))) ⟨none, none⟩ = .ok default ∧
    ¬ ∃ s, Accepts Mapping (.record [("simulation", .bool false)]) ⟨none, none⟩ s := by
  refine ⟨rfl, ?_, rfl, ?_⟩
  · rintro ⟨s, fields, ⟨top, list, _⟩, _⟩
    cases list
  · rintro ⟨s, fields, ⟨top, record, truth⟩, _⟩
    cases record
    cases truth

end Settings

end FederatedAgreement
