import Formula.Text.Quoted

/-!
# Digests

The MD5 digest of a sequence of bytes.  The message is padded to whole blocks of sixteen
words, the lowest byte of a word first; every block mixes its words into four registers in
sixty-four steps.
-/

namespace Formula.Digest

/-- The four registers. -/
structure Registers where
  a : UInt32
  b : UInt32
  c : UInt32
  d : UInt32
deriving DecidableEq, Repr

/-- The registers before the first block. -/
def start : Registers := ⟨0x67452301, 0xEFCDAB89, 0x98BADCFE, 0x10325476⟩

/-- How far each step rotates: four amounts for each of the four rounds, used in turn. -/
def rotations : List (List UInt32) :=
  [[7, 12, 17, 22], [5, 9, 14, 20], [4, 11, 16, 23], [6, 10, 15, 21]]

/-- What each step adds: the integer part of 2 ^ 32 times the absolute value of the sine of
its number, counted from one. -/
def sines : List UInt32 := [
  0xD76AA478, 0xE8C7B756, 0x242070DB, 0xC1BDCEEE, 0xF57C0FAF, 0x4787C62A, 0xA8304613, 0xFD469501,
  0x698098D8, 0x8B44F7AF, 0xFFFF5BB1, 0x895CD7BE, 0x6B901122, 0xFD987193, 0xA679438E, 0x49B40821,
  0xF61E2562, 0xC040B340, 0x265E5A51, 0xE9B6C7AA, 0xD62F105D, 0x02441453, 0xD8A1E681, 0xE7D3FBC8,
  0x21E1CDE6, 0xC33707D6, 0xF4D50D87, 0x455A14ED, 0xA9E3E905, 0xFCEFA3F8, 0x676F02D9, 0x8D2A4C8A,
  0xFFFA3942, 0x8771F681, 0x6D9D6122, 0xFDE5380C, 0xA4BEEA44, 0x4BDECFA9, 0xF6BB4B60, 0xBEBFBC70,
  0x289B7EC6, 0xEAA127FA, 0xD4EF3085, 0x04881D05, 0xD9D4D039, 0xE6DB99E5, 0x1FA27CF8, 0xC4AC5665,
  0xF4292244, 0x432AFF97, 0xAB9423A7, 0xFC93A039, 0x655B59C3, 0x8F0CCC92, 0xFFEFF47D, 0x85845DD1,
  0x6FA87E4F, 0xFE2CE6E0, 0xA3014314, 0x4E0811A1, 0xF7537E82, 0xBD3AF235, 0x2AD7D2BB, 0xEB86D391]

/-- The word rotated to the left. -/
def rotateLeft (w amount : UInt32) : UInt32 := (w <<< amount) ||| (w >>> (32 - amount))

/-- The mixture of three registers in a round. -/
def mixture (round : Nat) (b c d : UInt32) : UInt32 :=
  match round with
  | 0 => (b &&& c) ||| (~~~b &&& d)
  | 1 => (d &&& b) ||| (~~~d &&& c)
  | 2 => b ^^^ c ^^^ d
  | _ => c ^^^ (b ||| ~~~d)

/-- The index of the word that a step takes from the block. -/
def wordIndex (step : Nat) : Nat :=
  match step / 16 with
  | 0 => step
  | 1 => (5 * step + 1) % 16
  | 2 => (3 * step + 5) % 16
  | _ => 7 * step % 16

/-- The registers after one step on a block. -/
def mixStep (block : List UInt32) (r : Registers) (step : Nat) : Registers :=
  let sum := r.a + mixture (step / 16) r.b r.c r.d + sines.getD step 0
    + block.getD (wordIndex step) 0
  let amount := (rotations.getD (step / 16) []).getD (step % 4) 0
  ⟨r.d, r.b + rotateLeft sum amount, r.b, r.c⟩

/-- The registers after a block. -/
def mixBlock (r : Registers) (block : List UInt32) : Registers :=
  let m := (List.range 64).foldl (mixStep block) r
  ⟨r.a + m.a, r.b + m.b, r.c + m.c, r.d + m.d⟩

/-- The lowest `count` bytes of a number, the lowest first. -/
def littleEndian : (count : Nat) → Nat → List UInt8
  | 0, _ => []
  | count + 1, n => UInt8.ofNat (n % 256) :: littleEndian count (n / 256)

/-- The bytes with a marker, zeros up to eight bytes short of a whole block, and the length in
bits. -/
def pad (bytes : List UInt8) : List UInt8 :=
  bytes ++ [0x80] ++ List.replicate ((119 - bytes.length % 64) % 64) 0
    ++ littleEndian 8 (8 * bytes.length)

/-- The bytes as words, the lowest byte of a word first. -/
def words : List UInt8 → List UInt32
  | p :: q :: r :: s :: rest =>
    (p.toUInt32 ||| q.toUInt32 <<< 8 ||| r.toUInt32 <<< 16 ||| s.toUInt32 <<< 24) :: words rest
  | _ => []

/-- The words in blocks of sixteen. -/
def blocks (ws : List UInt32) : List (List UInt32) :=
  (List.range (ws.length / 16)).map fun i => (ws.drop (16 * i)).take 16

/-- The bytes of the registers. -/
def Registers.bytes (r : Registers) : List UInt8 :=
  [r.a, r.b, r.c, r.d].flatMap fun w => littleEndian 4 w.toNat

/-- The digest of a sequence of bytes. -/
def ofBytes (bytes : List UInt8) : List UInt8 :=
  ((blocks (words (pad bytes))).foldl mixBlock start).bytes

/-- The digest of the UTF-8 form of a text, in hexadecimal. -/
def ofText (s : Text) : Text :=
  (ofBytes (String.ofList s).toUTF8.toList).flatMap fun b => Text.hex 2 b.toNat

end Formula.Digest
