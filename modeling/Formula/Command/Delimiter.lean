import Formula.Spelling.CommandTable

/-!
# Delimiters

How the delimiters of a bracket are spelled.  A glyph has one spelling on its own side and
may be used on the other side as well; a text that is no known delimiter is written as it
is.  The sizes are pairs of commands, the first of which fits the delimiters to their
content and the others of which grow.
-/

namespace Formula.Delimiter

/-- The spellings of the opening delimiters. -/
def leftSpellings : List (Text × Text) :=
  [("(", "("), ("[", "["), ("\x7b", "\\\x7b"), ("⟨", "\\langle"), ("⌊", "\\lfloor"),
    ("⌈", "\\lceil"), ("|", "|"), ("‖", "\\|"), (".", ".")].map
      fun (glyph, spelling) => (glyph.toList, spelling.toList)

/-- The spellings of the closing delimiters. -/
def rightSpellings : List (Text × Text) :=
  [(")", ")"), ("]", "]"), ("\x7d", "\\\x7d"), ("⟩", "\\rangle"), ("⌋", "\\rfloor"),
    ("⌉", "\\rceil"), ("|", "|"), ("‖", "\\|"), (".", ".")].map
      fun (glyph, spelling) => (glyph.toList, spelling.toList)

/-- How a glyph is written after a size command, on the left or on the right. -/
def spelling (glyph : Text) (left : Bool) : Text :=
  let (here, there) :=
    if left then (leftSpellings, rightSpellings) else (rightSpellings, leftSpellings)
  ((here.lookup glyph).or (there.lookup glyph)).getD glyph

/-- All spellings that are read, with the glyphs that they stand for. -/
def table : CommandTable Text := .ofList <|
  [("(", "("), (")", ")"), ("[", "["), ("]", "]"), ("|", "|"), (".", "."),
    ("\\\x7b", "\x7b"), ("\\\x7d", "\x7d"), ("\\lbrace", "\x7b"), ("\\rbrace", "\x7d"),
    ("\\langle", "⟨"), ("\\rangle", "⟩"), ("\\lfloor", "⌊"), ("\\rfloor", "⌋"),
    ("\\lceil", "⌈"), ("\\rceil", "⌉"), ("\\|", "‖"), ("\\vert", "|"), ("\\lvert", "|"),
    ("\\rvert", "|"), ("\\Vert", "‖"), ("\\lVert", "‖"), ("\\rVert", "‖")].map
      fun (spelling, glyph) => (spelling, glyph.toList)

/-- The delimiters that belong together. -/
def pairs : List (Text × Text) :=
  [("(", ")"), ("[", "]"), ("\x7b", "\x7d"), ("⟨", "⟩"), ("⌊", "⌋"), ("⌈", "⌉"), ("|", "|"),
    ("‖", "‖"), (".", ".")].map fun (left, right) => (left.toList, right.toList)

/-- The partner of an opening delimiter; a text that has none is its own. -/
def partner (glyph : Text) : Text := (pairs.lookup glyph).getD glyph

/-- The names of the size commands in pairs, the smallest first. -/
def sizeNames : List (Text × Text) :=
  [("left", "right"), ("bigl", "bigr"), ("Bigl", "Bigr"), ("biggl", "biggr"),
    ("Biggl", "Biggr")].map fun (left, right) => (left.toList, right.toList)

/-- The size commands in pairs, the smallest first. -/
def sizes : List (Text × Text) :=
  sizeNames.map fun (left, right) => ('\\' :: left, '\\' :: right)

/-- The size commands of opening delimiters, prepared for matching. -/
def leftSizes : Spellings := .ofList (sizes.map (·.1))

/-- The pair of size commands at an index; an index past the end takes the last pair. -/
def sizeAt (i : Nat) : Text × Text :=
  (sizes[min i (sizes.length - 1)]?).getD ([], [])

end Formula.Delimiter
