import Formula.Document.Number
import Formula.Text.Blank

/-!
# Numerals in free form

A numeral may have margin blanks around it and a sign before it, and its digits may be of
any script.  `Numeral.integer?` reads an integer in a base, where the letter of the base may
stand before the digits, and `Numeral.number?` reads a number of limited precision.
-/

namespace Formula.Numeral

/-- The sign at the beginning of a text, and what follows. -/
def sign (s : Text) : Bool × Text :=
  match s with
  | '-' :: rest => (true, rest)
  | '+' :: rest => (false, rest)
  | s => (false, s)

/-- The value of a digit of any script, or of a letter that serves as a digit above nine. -/
def placeValue? (c : Char) : Option Nat :=
  match Text.digitValue? c with
  | some n => some n
  | none =>
    if 'a' ≤ c && c ≤ 'z' then some (c.toNat - 'a'.toNat + 10)
    else if 'A' ≤ c && c ≤ 'Z' then some (c.toNat - 'A'.toNat + 10)
    else none

/-- The number that places in a base write, the most significant first. -/
def inBase (base : Nat) (places : List Nat) : Nat := places.foldl (fun n v => base * n + v) 0

/-- The letter that may stand after a zero before the digits of a base. -/
def letter? : (base : Nat) → Option Char
  | 2 => some 'b'
  | 8 => some 'o'
  | 16 => some 'x'
  | _ => none

/-- The text without a zero and the letter of a base at its beginning. -/
def withoutLetter (base : Nat) (s : Text) : Text :=
  match s with
  | zero :: c :: rest =>
    if Text.digitValue? zero = some 0 && letter? base = some c.toLower then rest else s
  | s => s

/-- The integer that a text writes in a base.  In base ten the number of digits is limited. -/
def integer? (base : Nat) (s : Text) : Option Int := do
  let (negative, unsigned) := sign (Text.trimBoth Text.isMarginBlank s)
  let places ← (withoutLetter base unsigned).mapM placeValue?
  if places.isEmpty || places.any (base ≤ ·) || (base = 10 && maxDigits < places.length) then none
  else
    let n : Int := inBase base places
    return if negative then -n else n

/-- The values of the digits that a text begins with, and what follows. -/
def digits (s : Text) : List Nat × Text :=
  let values := leadingDigits s
  (values, s.drop values.length)

/-- The power of ten at the end of a number: nothing, or a letter and an integer. -/
def power? (s : Text) : Option Int :=
  match s with
  | [] => some 0
  | e :: signed =>
    let (negative, unsigned) := sign signed
    let (values, rest) := digits unsigned
    if (e = 'e' || e = 'E') && !values.isEmpty && rest.isEmpty then
      let n : Int := ofDigits values
      some (if negative then -n else n)
    else none

/-- The number that a text without a sign writes: digits with a point anywhere among them or none,
and perhaps a power of ten. -/
def decimal? (negative : Bool) (s : Text) : Option Number := do
  let (whole, rest) := digits s
  let (fraction, rest) :=
    match rest with
    | '.' :: rest => digits rest
    | rest => ([], rest)
  let power ← power? rest
  if whole.isEmpty && fraction.isEmpty then none
  else return .ofDecimal negative (ofDigits (whole ++ fraction)) (power - fraction.length)

/-- The number that a text writes, in digits or by a word in small letters. -/
def number? (s : Text) : Option Number :=
  let (negative, unsigned) := sign (Text.trimBoth Text.isMarginBlank s)
  if unsigned = "inf".toList || unsigned = "infinity".toList then some (.infinite negative)
  else if unsigned = "nan".toList then some .undefined
  else decimal? negative unsigned

end Formula.Numeral
