import Formula.Text.Decimal

/-!
# Numbers of limited precision

The numbers of data files have a significand of fifty-three binary digits.  A number that is
too great is infinite, and there is a value for what is no number.  Every operation is done
exactly, and its result is rounded once.
-/

namespace Formula

/-- A number of limited precision. -/
inductive Number where
  | finite (negative : Bool) (b : Decimal.Binary)
  | infinite (negative : Bool)
  /-- What is no number. -/
  | undefined
deriving DecidableEq, Repr

namespace Number

/-- The zero of a sign. -/
def zero (negative : Bool) : Number := .finite negative ⟨0, Decimal.minExponent⟩

/-- The number nearest to a fraction. -/
def ofFraction (negative : Bool) (num den : Nat) : Number :=
  match Decimal.nearest? num den with
  | some b => .finite negative b
  | none => .infinite negative

/-- The number nearest to `digits * 10 ^ exponent`. -/
def ofDecimal (negative : Bool) (digits : Nat) (exponent : Int) : Number :=
  let size := (Numeral.write digits).length + exponent
  if digits = 0 || size < -330 then zero negative
  else if 330 < size then .infinite negative
  else
    let (num, den) := Decimal.shift 10 digits 1 (-exponent)
    ofFraction negative num den

/-- The number nearest to `n * 2 ^ exponent`. -/
def ofScaled (negative : Bool) (n : Nat) (exponent : Int) : Number :=
  let (num, den) := Decimal.shift 2 n 1 (-exponent)
  ofFraction negative num den

/-- The number of the other sign. -/
def negate : Number → Number
  | .finite negative b => .finite (!negative) b
  | .infinite negative => .infinite (!negative)
  | .undefined => .undefined

/-- How many times `2 ^ exponent` a number of a sign is, where the exponent is not greater than
that of the number. -/
def units (negative : Bool) (b : Decimal.Binary) (exponent : Int) : Int :=
  let n : Int := (b.significand * Nat.pow 2 (b.exponent - exponent).toNat : Nat)
  if negative then -n else n

/-- The sum of two numbers.  It is a negative zero only if both are. -/
def add : Number → Number → Number
  | .finite s a, .finite t b =>
    let exponent := min a.exponent b.exponent
    let sum := units s a exponent + units t b exponent
    ofScaled (if sum = 0 then s && t else sum < 0) sum.natAbs exponent
  | .infinite s, .infinite t => if s = t then .infinite s else .undefined
  | .undefined, _ => .undefined
  | _, .undefined => .undefined
  | .infinite s, _ => .infinite s
  | _, .infinite t => .infinite t

/-- The product with a positive binary number. -/
def scale (factor : Decimal.Binary) : Number → Number
  | .finite s a => ofScaled s (a.significand * factor.significand) (a.exponent + factor.exponent)
  | x => x

/-- Whether a number is zero. -/
def isZero : Number → Bool
  | .finite _ b => b.significand = 0
  | _ => false

/-- The integer that a number is, if it is one. -/
def whole? : Number → Option Int
  | .finite negative b =>
    let (num, den) := Decimal.shift 2 b.significand 1 (-b.exponent)
    if num % den = 0 then some (if negative then -((num / den : Nat) : Int) else (num / den : Nat))
    else none
  | _ => none

/-- The text of a number: the shortest decimal that is rounded to it, or a word. -/
def write : Number → Text
  | .finite negative b =>
    let sign := if negative then ['-'] else []
    if b.significand = 0 then sign ++ "0.0".toList
    else
      let (digits, exponent) := Decimal.shortest b
      sign ++ Decimal.write digits exponent
  | .infinite negative => (if negative then ['-'] else []) ++ "inf".toList
  | .undefined => "nan".toList

end Number

end Formula
