import Formula.Text.Digit

/-!
# Decimals

A decimal number is rounded to the nearest number with a significand of fifty-three binary
digits, and written with the fewest decimal digits that are still rounded to it.  All
arithmetic is exact.
-/

namespace Formula.Decimal

/-- The number `significand * 2 ^ exponent`. -/
structure Binary where
  significand : Nat
  exponent : Int
deriving DecidableEq, Repr

/-- The least exponent of a binary number. -/
def minExponent : Int := -1074

/-- The greatest exponent of a binary number. -/
def maxExponent : Int := 971

/-- The quotient rounded to the nearest integer, of two equally near ones the even one. -/
def roundDiv (num den : Nat) : Nat :=
  let quotient := num / den
  let twice := 2 * (num % den)
  if den < twice || (twice = den && quotient % 2 = 1) then quotient + 1 else quotient

/-- The fraction `num / den` divided by `base ^ exponent`, as a fraction. -/
def shift (base : Nat) (num den : Nat) (exponent : Int) : Nat × Nat :=
  if 0 ≤ exponent then (num, den * Nat.pow base exponent.toNat)
  else (num * Nat.pow base (-exponent).toNat, den)

/-- The binary number nearest to a fraction, unless the fraction is too great. -/
def nearest? (num den : Nat) : Option Binary :=
  let low := max ((num.log2 : Int) - den.log2 - 53) minExponent
  let (n, d) := shift 2 num den low
  let exponent := if Nat.pow 2 53 ≤ n / d then low + 1 else low
  let (n, d) := shift 2 num den exponent
  let significand := roundDiv n d
  let b : Binary :=
    if significand = Nat.pow 2 53 then ⟨Nat.pow 2 52, exponent + 1⟩ else ⟨significand, exponent⟩
  if maxExponent < b.exponent then none else some b

/-- Whether a decimal `digits * 10 ^ exponent` is rounded to a binary number: it is nearer to it
than to its neighbours, and may be half way if the significand is even. -/
def roundsTo (b : Binary) (digits : Nat) (exponent : Int) : Bool :=
  let below := if b.significand = Nat.pow 2 52 && minExponent < b.exponent then 1 else 2
  let (n, d) := shift 10 digits 1 (-exponent)
  let (n, d) := shift 2 n d (b.exponent - 2)
  let low := (4 * b.significand - below) * d
  let high := (4 * b.significand + 2) * d
  if b.significand % 2 = 0 then low ≤ n && n ≤ high else low < n && n < high

/-- The decimal with `count` digits after the leading place `place` that is nearest to a binary
number among those that are rounded to it. -/
def candidate? (b : Binary) (place : Int) (count : Nat) : Option (Nat × Int) :=
  let unit := place - count
  let (n, d) := shift 2 b.significand 1 (-b.exponent)
  let (n, d) := shift 10 n d unit
  let down := n / d
  let near := roundDiv n d
  let far := if near = down then down + 1 else down
  ([near, far].find? fun digits => roundsTo b digits unit).map fun digits => (digits, unit)

/-- The decimal place of the leading digit of a positive binary number. -/
def leadingPlace (b : Binary) : Int :=
  let (n, d) := shift 2 b.significand 1 (-b.exponent)
  if d ≤ n then ((toString (n / d)).length : Int) - 1
  else -(((List.range 400).find? fun k => d ≤ n * Nat.pow 10 k).getD 0)

/-- The decimal with the fewest digits that is rounded to a positive binary number. -/
def shortest (b : Binary) : Nat × Int :=
  ((List.range 18).findSome? (candidate? b (leadingPlace b))).getD
    (b.significand, 0)

/-- The digits of a number without zeros at the end, and the number of digits before the
point. -/
def layOut (digits : Nat) (exponent : Int) : Text × Int :=
  let all := Numeral.write digits
  (Text.trimEnd (· = '0') all, all.length + exponent)

/-- How a decimal is written: between 10 ^ -4 and 10 ^ 16 with a point and at least one digit on
either side of it, and otherwise with an exponent of at least two digits. -/
def write (digits : Nat) (exponent : Int) : Text :=
  let (ds, point) := layOut digits exponent
  if -4 < point && point ≤ 16 then
    if point ≤ 0 then "0.".toList ++ List.replicate (-point).toNat '0' ++ ds
    else
      let whole := ds.take point.toNat
      let rest := ds.drop point.toNat
      whole ++ List.replicate (point.toNat - whole.length) '0' ++ ['.']
        ++ (if rest.isEmpty then ['0'] else rest)
  else
    let power := Numeral.write (point - 1).natAbs
    ds.take 1 ++ (if ds.length = 1 then [] else '.' :: ds.drop 1) ++ ['e']
      ++ (if point - 1 < 0 then ['-'] else ['+'])
      ++ (if power.length = 1 then '0' :: power else power)

end Formula.Decimal
