/-
Scalars: values without parts. Truth values count as the numbers 0 and 1, numbers are compared by their exact values and
texts by code point; nothing else has an order.
-/
import FederatedAgreement.Decimal.Shortest
import FederatedAgreement.Sorting.Ascending

namespace FederatedAgreement

/-- a value without parts -/
inductive Scalar where
  | null
  | bool (value : Bool)
  | int (value : Int)
  | float (value : Float)
  | text (value : String)
deriving Inhabited

/-- where a number stands: below or above all finite ones, or at so many units of `2 ^ -1074` -/
inductive Position where
  | belowAll
  | finite (units : Int)
  | aboveAll
deriving DecidableEq, Repr

/-- the first position is below the second -/
def Position.isBelow : Position → Position → Bool
  | .finite m, .finite n => m < n
  | .belowAll, p => p ≠ .belowAll
  | p, .aboveAll => p ≠ .aboveAll
  | _, _ => false

namespace Scalar

instance : Coe String Scalar := ⟨.text⟩

/-- what a scalar stands for: two that stand for the same thing are one and the same name -/
inductive Identity where
  | null
  | number (position : Position)
  /-- what stands for no number -/
  | undefined
  | text (value : String)
deriving DecidableEq, Repr

def identity : Scalar → Identity
  | .null => .null
  | .bool b => .number (.finite (if b then Decimal.one else 0))
  | .int n => .number (.finite (n * Decimal.one))
  | .float x =>
    if x.isNaN then .undefined
    else if x.isInf then .number (if x < 0.0 then .belowAll else .aboveAll)
    else .number (.finite (Decimal.measure x))
  | .text s => .text s

@[simp] theorem identity_text (s : String) : (text s).identity = .text s := rfl

/-- the characters of a text -/
def text? : Scalar → Option String
  | .text s => some s
  | _ => none

/-- a number, or what stands for none -/
def isNumeric : Scalar → Bool
  | .bool _ | .int _ | .float _ => true
  | _ => false

/-- the first is a number below the second -/
def isBelow (a b : Scalar) : Bool :=
  match a.identity, b.identity with
  | .number p, .number q => p.isBelow q
  | _, _ => false

/-- the scalars without those that stand for the same thing as an earlier one -/
def distinct : List Scalar → List Scalar
  | [] => []
  | a :: as => a :: (distinct as).filter fun b => b.identity ≠ a.identity

/-- the elements as long as each is below the one before, the last of them first, and the rest -/
def fallingRun : List Scalar → List Scalar → List Scalar × List Scalar
  | a :: run, b :: rest => if b.isBelow a then fallingRun (b :: a :: run) rest else (a :: run, b :: rest)
  | run, rest => (run, rest)

/-- the elements as long as none is below the one before, and the rest -/
def risingRun : List Scalar → List Scalar → List Scalar × List Scalar
  | a :: run, b :: rest => if b.isBelow a then ((a :: run).reverse, b :: rest) else risingRun (b :: a :: run) rest
  | run, rest => (run.reverse, rest)

/-- the run that a list begins with, in rising order, and the rest -/
def firstRun : List Scalar → List Scalar × List Scalar
  | a :: b :: rest => if b.isBelow a then fallingRun [b, a] rest else risingRun [b, a] rest
  | l => (l, [])

/-- where a number belongs between two places of a list, found by halving; `fuel` bounds the number of halvings -/
def slot (a : Scalar) (l : List Scalar) : Nat → Nat → Nat → Nat
  | 0, low, _ => low
  | fuel + 1, low, high =>
    if low < high then
      let middle := (low + high) / 2
      if a.isBelow (l.getD middle .null) then slot a l fuel low middle else slot a l fuel (middle + 1) high
    else low

/-- put a number where it belongs -/
def insert (l : List Scalar) (a : Scalar) : List Scalar :=
  let i := slot a l l.length 0 l.length
  l.take i ++ a :: l.drop i

/-- numbers in ascending order: the others are put one by one into the first run. What stands for no number has no place
in the order, and where it ends up depends on this way of sorting. -/
def ascendingNumbers (l : List Scalar) : List Scalar :=
  let run := firstRun l
  run.2.foldl insert run.1

/-- the scalars in ascending order, if they have one: texts have, and so have numbers -/
def ascending? (l : List Scalar) : Option (List Scalar) :=
  match l with
  | [] | [_] => some l
  | _ =>
    match l.mapM text? with
    | some names => some ((Sorting.ascending names).map .text)
    | none => if l.all isNumeric then some (ascendingNumbers l) else none

end Scalar

end FederatedAgreement
