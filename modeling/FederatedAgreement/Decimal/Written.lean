/-
The written form of a binary number: its shortest decimal, with a point and at least one digit on each side of it where
the leading digit stands for 10 ^ -4 to 10 ^ 15, else with an exponent of at least two digits.
-/
import FederatedAgreement.Decimal.Shortest

namespace FederatedAgreement.Decimal

/-- digits with the point after the first `before` of them, zeros filled in on either side -/
def pointAfter (before : Int) (digits : List Char) : List Char :=
  if before ≤ 0 then '0' :: '.' :: List.replicate (-before).toNat '0' ++ digits
  else
    let whole := digits.take before.toNat
    let rest := digits.drop before.toNat
    whole ++ List.replicate (before.toNat - whole.length) '0' ++ '.' :: (if rest.isEmpty then ['0'] else rest)

/-- one digit before the point, then the exponent with its sign and at least two digits -/
def withExponent (exponent : Int) (digits : List Char) : List Char :=
  let rest := digits.drop 1
  let size := exponent.natAbs
  digits.take 1 ++ (if rest.isEmpty then [] else '.' :: rest) ++ 'e' :: (if exponent < 0 then '-' else '+') ::
    ((if size < 10 then ['0'] else []) ++ (toString size).toList)

/-- the written form of a decimal that is not zero -/
def Numeral.written (d : Numeral) : List Char :=
  let digits := (toString d.digits).toList
  let exponent : Int := Int.ofNat (d.power + digits.length) - 325
  if -4 ≤ exponent ∧ exponent < 16 then pointAfter (exponent + 1) digits else withExponent exponent digits

/-- the written form of a binary number -/
def written (x : Float) : String :=
  if x.isNaN then "nan"
  else
    let bits := x.toBits.toNat
    let sign := if bits >>> 63 = 1 then "-" else ""
    if x.isInf then sign ++ "inf"
    else
      let m := Magnitude.ofBits (bits % (1 <<< 63))
      sign ++ if m.significand = 0 then "0.0" else String.ofList m.shortest.written

end FederatedAgreement.Decimal
