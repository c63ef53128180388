import Formula.Text.Basic

/-!
# Marked characters

In YAML the place of a character matters: indentation makes structure, and a key ends on the
line on which it begins.  A text is read as a list of its characters with their places.  A
last mark stands for the end of the text, so that every remainder of the list begins with
the place at which it stands.  A text that cannot be read has a flaw.
-/

namespace Formula.Yaml

/-! ### Flaws -/

/-- Why a text has no value. -/
inductive Flaw where
  /-- The text is not understood. -/
  | unreadable
  /-- An escape has a number that is far too great for a character. -/
  | escapeTooGreat
  /-- A number has nothing in it but low lines and a sign. -/
  | noDigits
  /-- A group of sixties counts too much. -/
  | tooGreat
  /-- The default of a mapping is the mapping itself. -/
  | endless
deriving DecidableEq, Repr

/-- The value, or the flaw of a text that is not understood. -/
def readable {α : Type} : Option α → Except Flaw α
  | some a => .ok a
  | none => .error .unreadable

/-! ### Marks -/

/-- A character with its place: its number in the text, its line and its column, all counted
from zero. -/
structure Mark where
  char : Char
  index : Nat
  line : Nat
  column : Nat
deriving DecidableEq, Repr

/-- The character that stands for the end of the text.  No YAML text holds it. -/
def endOfText : Char := '\x00'

instance : Inhabited Mark := ⟨⟨endOfText, 0, 0, 0⟩⟩

/-- Whether the character ends a line and begins another. -/
def isBreak (c : Char) : Bool := c = '\n' || c = '\x85' || c = '\u2028' || c = '\u2029'

/-- Whether a line ends before the character. -/
def endsLine (c : Char) : Bool := isBreak c || c = endOfText

/-- Whether a word ends before the character, where tabs belong to words. -/
def endsWord (c : Char) : Bool := c = ' ' || endsLine c

/-- Whether the character belongs to the gaps between words: a space, a tab or the end of a
line. -/
def isGap (c : Char) : Bool := c = '\t' || endsWord c

/-- The characters of a text from a place on, with the end of the text.  A byte order mark
takes up no column. -/
def marksFrom (index line column : Nat) : Text → List Mark
  | [] => [⟨endOfText, index, line, column⟩]
  | c :: cs =>
    ⟨c, index, line, column⟩ ::
      if isBreak c then marksFrom (index + 1) (line + 1) 0 cs
      else marksFrom (index + 1) line (if c = '\uFEFF' then column else column + 1) cs

/-- The characters of a text with their places, without a byte order mark before them. -/
def marks (s : Text) : List Mark :=
  match marksFrom 0 0 0 s with
  | m :: rest => if m.char = '\uFEFF' then rest else m :: rest
  | [] => []

/-- The characters without their places. -/
def chars (ms : List Mark) : Text := ms.map (·.char)

/-- The place at which a remainder of the text stands, with the character there. -/
def here (ms : List Mark) : Mark := ms.headD default

/-- The next character. -/
def next (ms : List Mark) : Char := (here ms).char

/-- The character that an end of line is kept as. -/
def keptBreak (c : Char) : Char := if c = '\x85' then '\n' else c

/-- The end of line that stands here, if there is one, as it is kept, and what follows. -/
def lineBreak (ms : List Mark) : Text × List Mark :=
  if isBreak (next ms) then ([keptBreak (next ms)], ms.drop 1) else ([], ms)

/-- The marks from the next one that is no space on. -/
def skipSpaces (ms : List Mark) : List Mark := ms.dropWhile (·.char = ' ')

/-- The marks after the spaces and the comment that stand here on one line. -/
def skipComment (ms : List Mark) : List Mark :=
  let ms := skipSpaces ms
  if next ms = '#' then ms.dropWhile fun m => !endsLine m.char else ms

/-- The marks from the next token on, and whether a line ends before it. -/
def skipGap : (fuel : Nat) → List Mark → Bool × List Mark
  | 0, ms => (false, ms)
  | fuel + 1, ms =>
    let ms := skipComment ms
    if isBreak (next ms) then (true, (skipGap fuel (ms.drop 1)).2) else (false, ms)

/-- The marks after the rest of a line on which nothing but a comment may stand. -/
def skipLine? (ms : List Mark) : Option (List Mark) :=
  let ms := skipComment ms
  if endsLine (next ms) then some (lineBreak ms).2 else none

/-- Whether a document marker of three equal characters, such as `---`, stands here. -/
def isMarker (c : Char) (ms : List Mark) : Bool :=
  (here ms).column == 0 && chars (ms.take 3) == List.replicate 3 c
    && isGap (next (ms.drop 3))

/-- Whether a document begins or ends here. -/
def isBoundary (ms : List Mark) : Bool := isMarker '-' ms || isMarker '.' ms

end Formula.Yaml
