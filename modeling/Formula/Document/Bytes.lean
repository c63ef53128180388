import Formula.Text.Quoted

/-!
# Bytes

Bytes are given by a text in which every character stands for six bits, and are shown as the
characters of ASCII that they are, between quotes.
-/

namespace Formula

/-- A sequence of bytes. -/
abbrev Bytes := List UInt8

namespace Bytes

/-- The six bits that a character stands for. -/
def sixBits? (c : Char) : Option Nat :=
  if 'A' ≤ c && c ≤ 'Z' then some (c.toNat - 'A'.toNat)
  else if 'a' ≤ c && c ≤ 'z' then some (c.toNat - 'a'.toNat + 26)
  else if '0' ≤ c && c ≤ '9' then some (c.toNat - '0'.toNat + 52)
  else if c = '+' then some 62
  else if c = '/' then some 63
  else none

/-- Reads the bytes of a text.  `place` is the number of characters of a group of four that were
read, `left` holds the bits of the last one that are not used up, and `pads` counts the
equals signs after it.  Enough equals signs end the bytes; other characters without a
meaning are passed over. -/
def decodeFrom (place left pads : Nat) : Text → Option Bytes
  | [] => if place = 0 then some [] else none
  | c :: cs =>
    if c = '=' then
      if place < 2 then decodeFrom place left pads cs
      else if 4 ≤ place + pads + 1 then some []
      else decodeFrom place left (pads + 1) cs
    else
      match sixBits? c, place with
      | none, _ => decodeFrom place left pads cs
      | some n, 0 => decodeFrom 1 n 0 cs
      | some n, 1 => (decodeFrom 2 (n % 16) 0 cs).map (UInt8.ofNat (left * 4 + n / 16) :: ·)
      | some n, 2 => (decodeFrom 3 (n % 4) 0 cs).map (UInt8.ofNat (left * 16 + n / 4) :: ·)
      | some n, _ => (decodeFrom 0 0 0 cs).map (UInt8.ofNat (left * 64 + n) :: ·)

/-- The bytes of a text of ASCII characters. -/
def decode? (s : Text) : Option Bytes :=
  if s.all fun c => c.toNat < 0x80 then decodeFrom 0 0 0 s else none

/-- A byte as it stands between quotes `quote`.  A byte that is no character of ASCII is written
by its number. -/
def quoteByte (quote : Char) (b : UInt8) : Text :=
  if b.toNat < 0x80 then Text.quoteChar quote (Char.ofNat b.toNat)
  else ['\\', 'x'] ++ Text.hex 2 b.toNat

/-- The bytes as they are shown. -/
def quoted (bytes : Bytes) : Text :=
  let quote := Text.quoteFor (bytes.map fun b => Char.ofNat b.toNat)
  'b' :: quote :: bytes.flatMap (quoteByte quote) ++ [quote]

end Bytes

end Formula
