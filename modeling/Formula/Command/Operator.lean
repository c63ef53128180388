import Formula.Spelling.CommandTable
import Formula.Node.Mode

/-!
# Large operators

The commands of the large operators with their glyphs, and the modifiers that say where the
bounds of a large operator stand.
-/

namespace Formula

namespace LargeOperator

/-- The commands of the large operators, with their glyphs. -/
def table : CommandTable Text := .ofList <|
  [("\\sum", "∑"), ("\\prod", "∏"), ("\\coprod", "∐"), ("\\bigcup", "⋃"), ("\\bigcap", "⋂"),
    ("\\bigvee", "⋁"), ("\\bigwedge", "⋀"), ("\\bigoplus", "⨁"), ("\\bigotimes", "⨂"),
    ("\\bigodot", "⨀"), ("\\biguplus", "⨄"), ("\\int", "∫"), ("\\iint", "∬"),
    ("\\iiint", "∭"), ("\\oint", "∮")].map fun (command, glyph) => (command, glyph.toList)

/-- The command of a glyph. -/
def commandFor? (glyph : Text) : Option Text :=
  (table.entries.find? (·.2 = glyph)).map (·.1)

/-- The glyph that a command or a glyph stands for. -/
def glyphOf? (operator : Text) : Option Text :=
  match table.lookup operator with
  | some glyph => some glyph
  | none => if (commandFor? operator).isSome then some operator else none

end LargeOperator

namespace LimitMode

/-- The modifier that is written for a limit mode. -/
def modifier : LimitMode → Text
  | .default => []
  | .limits => "\\limits".toList
  | .nolimits => "\\nolimits".toList

/-- The modifiers that are read. -/
def table : CommandTable LimitMode := .ofList [("\\limits", .limits), ("\\nolimits", .nolimits)]

/-- A modifier is read as the mode that it is written for. -/
theorem lookup_modifier {mode : LimitMode} (h : mode ≠ .default) :
  table.lookup mode.modifier = some mode
  := by
  cases mode with
  | default => exact absurd rfl h
  | limits => decide
  | nolimits => decide

end LimitMode

end Formula
