/-
Documents as JSON text. A number with a point or an exponent is read as a float, any other as a whole number of any
size; `Infinity`, `-Infinity` and `NaN` are floats too. Of a field written twice the last value counts. Writing puts no
blanks between tokens and leaves every character outside the controls, the quote and the backslash as it is; a name that
is no text becomes one.
-/
import FederatedAgreement.Document.Basic
import FederatedAgreement.Decimal.Written
import FederatedAgreement.Text.Quoted

namespace FederatedAgreement.Document.Json

/-! ## Writing -/

def writeChar (c : Char) : List Char :=
  if c = '\x22' ∨ c = '\x5c' then ['\x5c', c]
  else if c = '\n' then ['\x5c', 'n']
  else if c.toNat < 0x20 then '\x5c' :: 'u' :: Text.hexDigits 4 c.toNat
  else [c]

def writeText (s : String) : String := String.ofList ('\x22' :: s.toList.flatMap writeChar ++ ['\x22'])

def writeFloat (x : Float) : String :=
  if x.isNaN then "NaN"
  else if x.isInf then (if x < 0.0 then "-Infinity" else "Infinity")
  else Decimal.written x

/-- the characters that stand for a scalar, without quotes -/
def writePlain : Scalar → String
  | .null => "null"
  | .bool true => "true"
  | .bool false => "false"
  | .int n => toString n
  | .float x => writeFloat x
  | .text s => s

mutual

/-- the JSON text of a document -/
def write : Document → String
  | .scalar (.text s) => writeText s
  | .scalar a => writePlain a
  | .list items => "[" ++ ",".intercalate (writeItems items) ++ "]"
  | .record fields => "\x7b" ++ ",".intercalate (writeFields fields) ++ "\x7d"

def writeItems : List Document → List String
  | [] => []
  | d :: ds => write d :: writeItems ds

def writeFields : List (Scalar × Document) → List String
  | [] => []
  | (name, d) :: fields => (writeText (writePlain name) ++ ":" ++ write d) :: writeFields fields

end

/-! ## Reading -/

def skipBlanks (cs : List Char) : List Char := cs.dropWhile fun c => c = ' ' || c = '\t' || c = '\n' || c = '\x0d'

def hexValue? (c : Char) : Option Nat :=
  if '0' ≤ c ∧ c ≤ '9' then some (c.toNat - 48)
  else if 'a' ≤ c ∧ c ≤ 'f' then some (c.toNat - 87)
  else if 'A' ≤ c ∧ c ≤ 'F' then some (c.toNat - 55)
  else none

/-- the value of four hexadecimal digits -/
def unit? (a b c d : Char) : Option Nat :=
  [a, b, c, d].foldlM (fun n digit => (hexValue? digit).map (n * 16 + ·)) 0

/-- the letters that may follow a backslash -/
def escaped? : Char → Option Char
  | '\x22' => some '\x22'
  | '\x5c' => some '\x5c'
  | '/' => some '/'
  | 'b' => some '\x08'
  | 'f' => some '\x0c'
  | 'n' => some '\n'
  | 'r' => some '\x0d'
  | 't' => some '\t'
  | _ => none

/-- the rest of a text after its opening quote: its characters, and what follows the closing quote -/
def readText (reversed : List Char) : List Char → Option (String × List Char)
  | '\x22' :: rest => some (String.ofList reversed.reverse, rest)
  | '\x5c' :: 'u' :: a :: b :: c :: d :: '\x5c' :: 'u' :: p :: q :: r :: s :: rest =>
    match unit? a b c d, unit? p q r s with
    | some high, some low =>
      if 0xd800 ≤ high ∧ high < 0xdc00 ∧ 0xdc00 ≤ low ∧ low < 0xe000 then
        readText (Char.ofNat (0x10000 + (high - 0xd800) * 0x400 + (low - 0xdc00)) :: reversed) rest
      else readText (Char.ofNat low :: Char.ofNat high :: reversed) rest
    | _, _ => none
  | '\x5c' :: 'u' :: a :: b :: c :: d :: rest =>
    match unit? a b c d with
    | some n => readText (Char.ofNat n :: reversed) rest
    | none => none
  | '\x5c' :: c :: rest =>
    match escaped? c with
    | some e => readText (e :: reversed) rest
    | none => none
  | c :: rest => readText (c :: reversed) rest
  | [] => none

def isNumberChar (c : Char) : Bool := c.isDigit || c = '-' || c = '+' || c = '.' || c = 'e' || c = 'E'

/-- the value of plain digits -/
def digits? (cs : List Char) : Option Nat :=
  if cs.isEmpty then none
  else cs.foldlM (fun n c => if c.isDigit then some (n * 10 + (c.toNat - 48)) else none) 0

/-- an exponent with an optional sign -/
def exponent? : List Char → Option Int
  | '+' :: cs => (digits? cs).map Int.ofNat
  | '-' :: cs => (digits? cs).map fun n => -Int.ofNat n
  | cs => (digits? cs).map Int.ofNat

/-- a float without its sign, out of its digits before and after the point and its exponent -/
def magnitude (whole fraction : List Char) (exponent : Int) : Option Float :=
  (digits? (whole ++ fraction)).map fun digits =>
    let power := exponent - Int.ofNat fraction.length
    Float.ofScientific digits (power < 0) power.natAbs

/-- a number without its sign -/
def unsigned? (negative : Bool) (cs : List Char) : Option Document :=
  let isMark := fun c : Char => c = 'e' || c = 'E'
  let mantissa := cs.takeWhile (!isMark ·)
  let exponent := (cs.dropWhile (!isMark ·)).drop 1
  let whole := mantissa.takeWhile (· ≠ '.')
  let fraction := (mantissa.dropWhile (· ≠ '.')).drop 1
  if cs.any isMark || cs.contains '.' then do
    let e ← if cs.any isMark then exponent? exponent else some 0
    let x ← magnitude whole fraction e
    some (.float (if negative then -x else x))
  else (digits? cs).map fun n => .int (if negative then -Int.ofNat n else Int.ofNat n)

def number? : List Char → Option Document
  | '-' :: cs => unsigned? true cs
  | cs => unsigned? false cs

/-- the values that are written as words -/
def constants : List (String × Document) :=
  let infinity : Float := 1.0 / 0.0
  [("null", .null), ("true", .bool true), ("false", .bool false), ("Infinity", .float infinity),
   ("-Infinity", .float (-infinity)), ("NaN", .float (0.0 / 0.0))]

/-- a word or a number at the start of the characters, and what follows it -/
def readAtom (cs : List Char) : Option (Document × List Char) :=
  match constants.find? (·.1.toList.isPrefixOf cs) with
  | some (word, d) => some (d, cs.drop word.length)
  | none => (number? (cs.takeWhile isNumberChar)).map fun d => (d, cs.dropWhile isNumberChar)

mutual

/-- a value at the start of the characters, and what follows it; `fuel` bounds the nesting and the width -/
def readValue : Nat → List Char → Option (Document × List Char)
  | 0, _ => none
  | fuel + 1, cs =>
    match skipBlanks cs with
    | '\x7b' :: rest =>
      match skipBlanks rest with
      | '\x7d' :: rest => some (.record [], rest)
      | rest => readFields fuel [] rest
    | '[' :: rest =>
      match skipBlanks rest with
      | ']' :: rest => some (.list [], rest)
      | rest => readItems fuel [] rest
    | '\x22' :: rest => (readText [] rest).map fun p => (.text p.1, p.2)
    | rest => readAtom rest

/-- the items of a list from the next one on, those before in reverse -/
def readItems : Nat → List Document → List Char → Option (Document × List Char)
  | 0, _, _ => none
  | fuel + 1, reversed, cs =>
    match readValue fuel cs with
    | some (item, rest) =>
      match skipBlanks rest with
      | ',' :: rest => readItems fuel (item :: reversed) rest
      | ']' :: rest => some (.list (item :: reversed).reverse, rest)
      | _ => none
    | none => none

/-- the fields of a record from the next one on, behind those before -/
def readFields : Nat → List (Scalar × Document) → List Char → Option (Document × List Char)
  | 0, _, _ => none
  | fuel + 1, fields, cs =>
    match skipBlanks cs with
    | '\x22' :: rest =>
      match readText [] rest with
      | some (name, rest) =>
        match skipBlanks rest with
        | ':' :: rest =>
          match readValue fuel rest with
          | some (value, rest) =>
            match skipBlanks rest with
            | ',' :: rest => readFields fuel (put name value fields) rest
            | '\x7d' :: rest => some (.record (put name value fields), rest)
            | _ => none
          | none => none
        | _ => none
      | none => none
    | _ => none

end

/-- the document that a text writes -/
def read? (text : String) : Option Document :=
  let cs := text.toList
  match readValue (2 * cs.length + 2) cs with
  | some (d, rest) => if (skipBlanks rest).isEmpty then some d else none
  | none => none

end FederatedAgreement.Document.Json
