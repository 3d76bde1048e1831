/-
Reading values out of documents: required and optional fields, texts, truth values, whole numbers, items and pairs.
-/
import FederatedAgreement.Fault

namespace FederatedAgreement.Document

/-- the value of a field that must be there -/
def require (d : Document) (name : String) : Except ReadFault Document :=
  match d with
  | .record fields =>
    match get? fields name with
    | some value => .ok value
    | none => .error (.missingField name)
  | _ => .error .wrongKind

/-- the value of a field that may be absent -/
def optional (d : Document) (name : String) (default : Document) : Except ReadFault Document :=
  match d with
  | .record fields => .ok ((get? fields name).getD default)
  | _ => .error .notARecord

/-- a text -/
def asText : Document → Except ReadFault String
  | .text s => .ok s
  | _ => .error .wrongKind

/-- a member of a vocabulary, by its name -/
def asMember {α : Type} (ofName? : String → Option α) (vocabulary : String) (d : Document) : Except ReadFault α :=
  match d with
  | .text s =>
    match ofName? s with
    | some a => .ok a
    | none => .error (.notAMember d vocabulary)
  | _ => .error (.notAMember d vocabulary)

/-- everything counts as true but nothing, false, zero and what is empty -/
def isTrue : Document → Bool
  | .null => false
  | .bool b => b
  | .int n => n ≠ 0
  | .float x => x != 0.0
  | .text s => s ≠ ""
  | .list items => !items.isEmpty
  | .record fields => !fields.isEmpty

/-- the value as a whole number: truth values count 0 and 1, a float loses its fraction, a text must write one -/
def asInteger : Document → Except ReadFault Int
  | .bool b => .ok (if b then 1 else 0)
  | .int n => .ok n
  | .float x =>
    if x.isNaN then .error .notANumber
    else if x.isInf then .error .infinite
    else .ok ((Decimal.measure x).tdiv Decimal.one)
  | .text s =>
    match Text.readInteger s with
    | .ok n => .ok n
    | .error .malformed => .error (.notAnInteger s)
    | .error (.tooLong digits) => .error (.tooManyDigits digits)
  | _ => .error .wrongKind

/-- what a walk through a document meets: the items of a list, the characters of a text, the names of a record -/
def items : Document → Except ReadFault (List Document)
  | .list items => .ok items
  | .text s => .ok (s.toList.map fun c => .text (String.ofList [c]))
  | .record fields => .ok (fields.map fun field => .scalar field.1)
  | _ => .error .wrongKind

/-- the texts that a walk through a document meets -/
def itemTexts (d : Document) : Except ReadFault (List String) := do (← d.items).mapM asText

/-- the two items of a pair -/
def asPair (d : Document) : Except ReadFault (Document × Document) := do
  match ← d.items with
  | [a, b] => .ok (a, b)
  | [] => .error (.pairTooShort 0)
  | [_] => .error (.pairTooShort 1)
  | _ => .error .pairTooLong

end FederatedAgreement.Document
