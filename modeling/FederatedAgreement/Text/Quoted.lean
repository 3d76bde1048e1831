/-
Quoted text: the form in which messages show a piece of text so that its ends and every character in it can be seen.
Single quotes surround it, or double quotes if it holds a single quote and no double one. The backslash, the quote in
use, line feed, carriage return and tab are escaped by a letter, other characters that cannot be printed by their code
point in lower-case hexadecimal digits, of the least width out of 2, 4 and 8.
-/
import FederatedAgreement.Text.Printable

namespace FederatedAgreement.Text

/-- a hexadecimal digit -/
def hexDigit (n : Nat) : Char := Char.ofNat (if n < 10 then 48 + n else 87 + n)

/-- the lowest hexadecimal digits of a number, the highest of them first -/
def hexDigits : Nat → Nat → List Char
  | 0, _ => []
  | width + 1, n => hexDigits width (n / 16) ++ [hexDigit (n % 16)]

/-- the quote that surrounds a text -/
def quoteFor (s : List Char) : Char := if '\x27' ∈ s ∧ '\x22' ∉ s then '\x22' else '\x27'

/-- one character between quotes -/
def quoteChar (quote c : Char) : List Char :=
  if c = quote ∨ c = '\x5c' then ['\x5c', c]
  else if c = '\n' then ['\x5c', 'n']
  else if c = '\x0d' then ['\x5c', 'r']
  else if c = '\t' then ['\x5c', 't']
  else if isPrintable c then [c]
  else if c.toNat < 0x100 then '\x5c' :: 'x' :: hexDigits 2 c.toNat
  else if c.toNat < 0x10000 then '\x5c' :: 'u' :: hexDigits 4 c.toNat
  else '\x5c' :: 'U' :: hexDigits 8 c.toNat

/-- a text in quotes -/
def quote (s : String) : String :=
  let cs := s.toList
  let q := quoteFor cs
  String.ofList (q :: cs.flatMap (quoteChar q) ++ [q])

/-- texts in quotes, as a bracketed list -/
def quoteList (l : List String) : String := "[" ++ ", ".intercalate (l.map quote) ++ "]"

example : quote "it's" = "\"it's\"" := by decide

example : quoteList ["A", "b\n"] = "['A', 'b\\n']" := by decide

end FederatedAgreement.Text
