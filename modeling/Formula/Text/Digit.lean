import Formula.Text.Basic

/-!
# Digits and numerals

A decimal digit of any script has a value from zero to nine, and a numeral is read from the
decimal digits of any mixture of scripts.  Some characters, such as superscript and circled
digits, count as digits without being decimal.  A numeral has at most
`Numeral.maxDigits` digits.
-/

namespace Formula

namespace Text

/-- The zero of each script that has decimal digits (Unicode 14.0, general category Nd); the
nine code points that follow a zero are the other digits of its script. -/
def decimalZeros : List Nat := [
  0x30, 0x660, 0x6F0, 0x7C0, 0x966, 0x9E6, 0xA66, 0xAE6, 0xB66, 0xBE6, 0xC66, 0xCE6, 0xD66,
  0xDE6, 0xE50, 0xED0, 0xF20, 0x1040, 0x1090, 0x17E0, 0x1810, 0x1946, 0x19D0, 0x1A80, 0x1A90,
  0x1B50, 0x1BB0, 0x1C40, 0x1C50, 0xA620, 0xA8D0, 0xA900, 0xA9D0, 0xA9F0, 0xAA50, 0xABF0,
  0xFF10, 0x104A0, 0x10D30, 0x11066, 0x110F0, 0x11136, 0x111D0, 0x112F0, 0x11450, 0x114D0,
  0x11650, 0x116C0, 0x11730, 0x118E0, 0x11950, 0x11C50, 0x11D50, 0x11DA0, 0x16A60, 0x16AC0,
  0x16B50, 0x1D7CE, 0x1D7D8, 0x1D7E2, 0x1D7EC, 0x1D7F6, 0x1E140, 0x1E2F0, 0x1E950, 0x1FBF0]

/-- The ranges of the digits that are not decimal (Unicode 14.0, Numeric_Type Digit). -/
def otherDigits : List (Nat × Nat) := [
  (0xB2, 0xB3), (0xB9, 0xB9), (0x1369, 0x1371), (0x19DA, 0x19DA), (0x2070, 0x2070),
  (0x2074, 0x2079), (0x2080, 0x2089), (0x2460, 0x2468), (0x2474, 0x247C), (0x2488, 0x2490),
  (0x24EA, 0x24EA), (0x24F5, 0x24FD), (0x24FF, 0x24FF), (0x2776, 0x277E), (0x2780, 0x2788),
  (0x278A, 0x2792), (0x10A40, 0x10A43), (0x10E60, 0x10E68), (0x11052, 0x1105A),
  (0x1F100, 0x1F10A)]

/-- The value of a decimal digit of any script. -/
def digitValue? (c : Char) : Option Nat :=
  (decimalZeros.find? fun z => z ≤ c.toNat && c.toNat < z + 10).map (c.toNat - ·)

/-- Whether the character is a digit, decimal or not. -/
def isDigitChar (c : Char) : Bool :=
  (digitValue? c).isSome || otherDigits.any fun (lo, hi) => lo ≤ c.toNat && c.toNat ≤ hi

/-- Whether the text is a digit or several. -/
def isDigits (s : Text) : Bool := !s.isEmpty && s.all isDigitChar

end Text

namespace Numeral

/-- The most digits that a numeral may have. -/
def maxDigits : Nat := 4300

/-- Why a text is not a numeral. -/
inductive Flaw where
  /-- The numeral has more than `maxDigits` digits. -/
  | tooLong (digits : Nat)
  /-- The text holds something that is not a decimal digit. -/
  | notDecimal
deriving DecidableEq, Repr

/-- The decimal digits that the text begins with. -/
def leadingDigits (s : Text) : List Nat :=
  (s.map Text.digitValue?).takeWhile Option.isSome |>.filterMap id

/-- The number that the digits write, the most significant first. -/
def ofDigits (digits : List Nat) : Nat := digits.foldl (fun n d => 10 * n + d) 0

/-- The number that a text of decimal digits writes.  The length of the leading digits is
looked at before what stands after them. -/
def read (s : Text) : Except Flaw Nat :=
  let digits := leadingDigits s
  if maxDigits < digits.length then .error (.tooLong digits.length)
  else if digits.length < s.length || s.isEmpty then .error .notDecimal
  else .ok (ofDigits digits)

/-- The decimal digits of an integer, after a minus sign if it is negative. -/
def write (n : Int) : Text := (toString n).toList

/-- Whether the numeral of an integer has no more digits than a numeral may have. -/
def isWritable (n : Int) : Bool := (write n.natAbs).length ≤ maxDigits

end Numeral

end Formula
