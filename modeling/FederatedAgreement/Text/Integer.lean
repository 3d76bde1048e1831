/-
Written whole numbers: blanks around, an optional sign, decimal digits of any script, single underscores between digits.
The number of digits is limited; it is checked before anything that follows the digits, and no value is computed beyond
it. Each script (general category Nd) has its ten digits in a row, so a table of the zeros is enough.
-/

namespace FederatedAgreement.Text

/-! ## Blanks -/

/-- a blank in the narrow sense: the space, tab, line feed, vertical tab, form feed and carriage return -/
def isAsciiBlank (c : Char) : Bool := c.toNat = 0x20 || (0x09 ≤ c.toNat && c.toNat ≤ 0x0d)

/-- a white space character beyond the narrow ones: the wide spaces, the line and paragraph separators -/
def isWideBlank (c : Char) : Bool :=
  [0x85, 0xa0, 0x1680, 0x2028, 0x2029, 0x202f, 0x205f, 0x3000].contains c.toNat ||
    (0x2000 ≤ c.toNat && c.toNat ≤ 0x200a)

/-- what may surround a written number -/
def isBlank (c : Char) : Bool := isAsciiBlank c || isWideBlank c

/-! ## Digits -/

/-- the zero of each script's row of ten digits, in ascending order -/
def decimalZeros : List Nat :=
  [
  0x30, 0x660, 0x6f0, 0x7c0, 0x966, 0x9e6, 0xa66, 0xae6, 0xb66, 0xbe6, 0xc66, 0xce6, 0xd66, 0xde6, 0xe50, 0xed0,
   0xf20, 0x1040, 0x1090, 0x17e0, 0x1810, 0x1946, 0x19d0, 0x1a80, 0x1a90, 0x1b50, 0x1bb0, 0x1c40, 0x1c50, 0xa620,
   0xa8d0, 0xa900, 0xa9d0, 0xa9f0, 0xaa50, 0xabf0, 0xff10, 0x104a0, 0x10d30, 0x11066, 0x110f0, 0x11136, 0x111d0,
   0x112f0, 0x11450, 0x114d0, 0x11650, 0x116c0, 0x11730, 0x118e0, 0x11950, 0x11c50, 0x11d50, 0x11da0, 0x16a60,
   0x16ac0, 0x16b50, 0x1d7ce, 0x1d7d8, 0x1d7e2, 0x1d7ec, 0x1d7f6, 0x1e140, 0x1e2f0, 0x1e950, 0x1fbf0
  ]

/-- the value of a decimal digit of any script -/
def digitValue? (c : Char) : Option Nat :=
  (decimalZeros.find? fun z => z ≤ c.toNat && c.toNat ≤ z + 9).map (c.toNat - ·)

/-! ## Numbers -/

/-- why a text writes no whole number -/
inductive IntegerFault where
  | malformed
  /-- more digits than are read -/
  | tooLong (digits : Nat)
deriving DecidableEq, Repr

/-- so many digits are read at most -/
def digitLimit : Nat := 4300

/-- a digit, or the mark that may stand between two -/
def isDigitOrMark (c : Char) : Bool := c = '_' || (digitValue? c).isSome

/-- marks stand alone and between digits only; `afterDigit` says whether a digit came before -/
def areMarksBetween (afterDigit : Bool) : List Char → Bool
  | [] => afterDigit
  | c :: cs => if c = '_' then afterDigit && areMarksBetween false cs else areMarksBetween true cs

/-- the values of the digits that the characters begin with, if their number can be read -/
def leadingDigits (cs : List Char) : Except IntegerFault (List Nat) :=
  let run := cs.takeWhile isDigitOrMark
  let digits := run.filterMap digitValue?
  if !areMarksBetween false run then .error .malformed
  else if digitLimit < digits.length then .error (.tooLong digits.length)
  else .ok digits

/-- the number of the given digits -/
def valueOf (digits : List Nat) : Nat := digits.foldl (fun n d => n * 10 + d) 0

/-- the number that digits and blanks write -/
def readNatural (cs : List Char) : Except IntegerFault Nat := do
  let digits ← leadingDigits cs
  if (cs.dropWhile isDigitOrMark).all isBlank then .ok (valueOf digits) else .error .malformed

/-- the whole number that a text writes, or why it writes none -/
def readInteger (s : String) : Except IntegerFault Int :=
  match s.toList.dropWhile isBlank with
  | '+' :: cs => (readNatural cs).map Int.ofNat
  | '-' :: cs => (readNatural cs).map fun n => -Int.ofNat n
  | cs => (readNatural cs).map Int.ofNat

/-- the whole number that a text writes -/
def integer? (s : String) : Option Int := (readInteger s).toOption

example : integer? " -1_000\n" = some (-1000) := by decide

example : integer? "1__0" = none := by decide

end FederatedAgreement.Text
