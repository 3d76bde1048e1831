/-
Literals: how messages and events show a document. Texts are quoted inside it, `True`, `False` and `None` stand for the
truth values and nothing, lists are bracketed, records braced. A text by itself is shown as it is.
-/
import FederatedAgreement.Document.Basic
import FederatedAgreement.Decimal.Written
import FederatedAgreement.Text.Quoted

namespace FederatedAgreement

namespace Scalar

def literal : Scalar → String
  | .null => "None"
  | .bool true => "True"
  | .bool false => "False"
  | .int n => toString n
  | .float x => Decimal.written x
  | .text s => Text.quote s

/-- the literal, but a text as it is -/
def shown : Scalar → String
  | .text s => s
  | a => a.literal

/-- the literal of a list of scalars -/
def literals (l : List Scalar) : String := "[" ++ ", ".intercalate (l.map literal) ++ "]"

end Scalar

namespace Document

mutual

/-- the literal of a document -/
def literal : Document → String
  | .scalar a => a.literal
  | .list items => "[" ++ ", ".intercalate (itemLiterals items) ++ "]"
  | .record fields => "\x7b" ++ ", ".intercalate (fieldLiterals fields) ++ "\x7d"

def itemLiterals : List Document → List String
  | [] => []
  | d :: ds => literal d :: itemLiterals ds

def fieldLiterals : List (Scalar × Document) → List String
  | [] => []
  | (name, d) :: fields => (name.literal ++ ": " ++ literal d) :: fieldLiterals fields

end

/-- the literal, but a text as it is -/
def shown : Document → String
  | .scalar a => a.shown
  | d => d.literal

end Document

end FederatedAgreement
