import Formula.Text.Basic

/-!
# Blank characters

Two classes of blank characters are in use.  `Text.isBlank` is the wide class: the
characters of general category Zs, and those of bidirectional class WS, B or S.
`Text.isMarginBlank` leaves the four information separators out; it is the class that may
stand inside a command, such as between `\begin` and its brace.
-/

namespace Formula.Text

/-- Blank characters in the wide sense. -/
def isBlank (c : Char) : Bool :=
  let n := c.toNat
  (0x09 ≤ n && n ≤ 0x0D) || (0x1C ≤ n && n ≤ 0x20) || n == 0x85 || n == 0xA0 || n == 0x1680
    || (0x2000 ≤ n && n ≤ 0x200A) || n == 0x2028 || n == 0x2029 || n == 0x202F || n == 0x205F
    || n == 0x3000

/-- Blank characters other than the information separators U+001C to U+001F. -/
def isMarginBlank (c : Char) : Bool :=
  isBlank c && !(0x1C ≤ c.toNat && c.toNat ≤ 0x1F)

/-- The text from its first code point that is not blank on. -/
def skipBlanks (s : Text) : Text := s.dropWhile isBlank

/-- The text from its first code point that is not a margin blank on. -/
def skipMargin (s : Text) : Text := s.dropWhile isMarginBlank

/-- The text without the blanks at both ends. -/
def strip (s : Text) : Text := trimBoth isBlank s

/-- Whether the text is empty or blank throughout. -/
def isAllBlank (s : Text) : Bool := s.all isBlank

theorem length_skipBlanks_le (s : Text) :
  (skipBlanks s).length ≤ s.length
  := (List.dropWhile_sublist _).length_le

theorem length_skipMargin_le (s : Text) :
  (skipMargin s).length ≤ s.length
  := (List.dropWhile_sublist _).length_le

end Formula.Text
