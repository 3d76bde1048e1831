/-
Documents: the plain data in which scenarios and settings are kept. A record is a list of named fields in the order in
which they were written; names are texts as a rule, but any scalar can be one.

Results:
- `mapM_map_eq_pure`: what is written item by item reads back item by item.
- `get?_put`: what a record holds after one field is written.
-/
import FederatedAgreement.Document.Scalar

namespace FederatedAgreement

/-- what is written item by item reads back item by item -/
theorem mapM_map_eq_pure {m : Type → Type} [Monad m] [LawfulMonad m] {α β : Type} {write : α → β} {read : β → m α}
    (back : ∀ a, read (write a) = pure a) (l : List α) : (l.map write).mapM read = pure l := by
  have same : read ∘ write = fun a => pure (id a) := funext back
  rw [List.mapM_map, same, List.mapM_pure, List.map_id]

/-- a piece of plain data -/
inductive Document where
  | scalar (value : Scalar)
  | list (items : List Document)
  | record (fields : List (Scalar × Document))
deriving Inhabited

namespace Document

@[match_pattern] abbrev null : Document := .scalar .null
@[match_pattern] abbrev bool (value : Bool) : Document := .scalar (.bool value)
@[match_pattern] abbrev int (value : Int) : Document := .scalar (.int value)
@[match_pattern] abbrev float (value : Float) : Document := .scalar (.float value)
@[match_pattern] abbrev text (value : String) : Document := .scalar (.text value)

/-- the scalar that a document is -/
def scalar? : Document → Option Scalar
  | .scalar a => some a
  | _ => none

/-- the characters of a text -/
def text? (d : Document) : Option String := d.scalar?.bind Scalar.text?

theorem mapM_text? (l : List String) : (l.map text).mapM text? = some l := by
  have back : ∀ s, text? (text s) = some s := fun _ => rfl
  exact mapM_map_eq_pure back l

/-- the value of the field of a name -/
def get? (fields : List (Scalar × Document)) (name : Scalar) : Option Document :=
  (fields.find? (·.1.identity = name.identity)).map Prod.snd

/-- write a field: in its place if it is there, under the name that it has, else behind the others -/
def put (name : Scalar) (value : Document) : List (Scalar × Document) → List (Scalar × Document)
  | [] => [(name, value)]
  | field :: fields =>
    if field.1.identity = name.identity then (field.1, value) :: fields else field :: put name value fields

theorem get?_put (fields : List (Scalar × Document)) (name other : Scalar) (value : Document) :
    get? (put name value fields) other = if other.identity = name.identity then some value else get? fields other := by
  induction fields with
  | nil =>
    by_cases h : other.identity = name.identity
    · simp [put, get?, h]
    · simp [put, get?, h, Ne.symm h]
  | cons field fields ih =>
    simp only [put]
    split
    · next hf =>
      by_cases h : other.identity = name.identity
      · simp [get?, h, hf]
      · simp [get?, h, Ne.symm h, hf]
    · next hf =>
      by_cases h : field.1.identity = other.identity
      · have : ¬ other.identity = name.identity := fun e => hf (h.trans e)
        simp [get?, h, this]
      · simp only [get?, List.find?_cons, h, decide_false] at ih ⊢
        exact ih

/-- a list of texts -/
def texts (l : List String) : Document := .list (l.map .text)

end Document

end FederatedAgreement
