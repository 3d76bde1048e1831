/-
Shortest decimals: of the decimals that read back as a given binary number, one with the fewest digits, and of those
the nearest.

A finite binary number is a whole multiple of 2 ^ -1074. Everything here is counted in units of
10 ^ -324 · 2 ^ -1076, so that the number, the ends of the interval of values that round to it (which lie halfway to
its neighbours) and every decimal grid are natural numbers.
-/

namespace FederatedAgreement.Decimal

/-- the magnitude `significand · 2 ^ shift · 2 ^ -1074` of a finite binary number -/
structure Magnitude where
  significand : Nat
  shift : Nat
deriving DecidableEq, Repr

/-- the magnitude that the low 63 bits of a finite binary number encode -/
def Magnitude.ofBits (bits : Nat) : Magnitude :=
  let fraction := bits % (1 <<< 52)
  let exponent := (bits >>> 52) % (1 <<< 11)
  if exponent = 0 then ⟨fraction, 0⟩ else ⟨(1 <<< 52) + fraction, exponent - 1⟩

/-- the value of a binary number, in units of `2 ^ -1074` -/
def measure (x : Float) : Int :=
  let bits := x.toBits.toNat
  let m := Magnitude.ofBits (bits % (1 <<< 63))
  let size := Int.ofNat (m.significand <<< m.shift)
  if bits >>> 63 = 1 then -size else size

/-- the number one, in units of `2 ^ -1074` -/
def one : Int := Int.ofNat (1 <<< 1074)

/-- the number itself, in units -/
def Magnitude.value (m : Magnitude) : Nat := (4 * m.significand) <<< m.shift * Nat.pow 10 324

/-- the least value that rounds to the number, in units; the neighbour below a power of two is closer -/
def Magnitude.lower (m : Magnitude) : Nat :=
  let gap := if m.significand = 1 <<< 52 ∧ m.shift ≠ 0 then 1 else 2
  (4 * m.significand - gap) <<< m.shift * Nat.pow 10 324

/-- the greatest value that rounds to the number, in units -/
def Magnitude.upper (m : Magnitude) : Nat := (4 * m.significand + 2) <<< m.shift * Nat.pow 10 324

/-- the value rounds to the number; the ends of the interval round to the even significand -/
def Magnitude.Absorbs (m : Magnitude) (value : Nat) : Prop :=
  if m.significand % 2 = 0 then m.lower ≤ value ∧ value ≤ m.upper else m.lower < value ∧ value < m.upper

instance (m : Magnitude) (value : Nat) : Decidable (m.Absorbs value) := by
  unfold Magnitude.Absorbs; infer_instance

/-- the step of the grid of multiples of `10 ^ (power - 324)`, in units -/
def gridStep (power : Nat) : Nat := Nat.pow 10 power <<< 1076

/-- the multiple on a grid that rounds to the number: of the two neighbours the nearer, at equal distance the
even one -/
def Magnitude.onGrid? (m : Magnitude) (power : Nat) : Option Nat :=
  let step := gridStep power
  let below := m.value / step
  let above := below + 1
  let down := m.value - below * step
  let up := above * step - m.value
  if m.Absorbs (below * step) then
    if m.Absorbs (above * step) ∧ (up < down ∨ (up = down ∧ above % 2 = 0)) then some above else some below
  else if m.Absorbs (above * step) then some above
  else none

/-- a decimal `digits · 10 ^ (power - 324)` -/
structure Numeral where
  digits : Nat
  power : Nat
deriving DecidableEq, Repr

/-- the decimal on the coarsest grid that meets the interval, trying the powers below `bound` from the highest -/
def Magnitude.shortestBelow (m : Magnitude) : Nat → Numeral
  | 0 => ⟨0, 324⟩
  | power + 1 =>
    match m.onGrid? power with
    | some digits => ⟨digits, power⟩
    | none => m.shortestBelow power

/-- the shortest decimal of a number that is not zero -/
def Magnitude.shortest (m : Magnitude) : Numeral := m.shortestBelow 634

end FederatedAgreement.Decimal
