import Formula.Spelling.CommandTable
import Formula.Node.Mode

/-!
# Accents

The command of every accent, the side of the base that it is on, and whether it carries a
label.  A labeled brace is spelled like the plain one, and told apart by its label.
-/

namespace Formula.AccentType

/-- The command of an accent. -/
def command : AccentType → Text
  | .hat => "\\hat".toList
  | .tilde => "\\tilde".toList
  | .bar => "\\bar".toList
  | .dot => "\\dot".toList
  | .ddot => "\\ddot".toList
  | .vec => "\\vec".toList
  | .widehat => "\\widehat".toList
  | .widetilde => "\\widetilde".toList
  | .widebar => "\\overline".toList
  | .overrightarrow => "\\overrightarrow".toList
  | .overleftarrow => "\\overleftarrow".toList
  | .overleftrightarrow => "\\overleftrightarrow".toList
  | .overbrace => "\\overbrace".toList
  | .underbrace => "\\underbrace".toList
  | .labeledOverbrace => "\\overbrace".toList
  | .labeledUnderbrace => "\\underbrace".toList
  | .overparen => "\\overparen".toList
  | .underparen => "\\underparen".toList

/-- The side of the base that an accent is on. -/
def position : AccentType → AccentPosition
  | .underbrace => .under
  | .labeledUnderbrace => .under
  | .underparen => .under
  | _ => .over

/-- Whether an accent carries a label. -/
def labeled : AccentType → Bool
  | .labeledOverbrace => true
  | .labeledUnderbrace => true
  | _ => false

/-- The side on which the label of a labeled accent is written. -/
def labelSide : AccentType → ScriptSide
  | .labeledOverbrace => .superscript
  | _ => .subscript

/-- The accent that `type` becomes when a script on `side` follows its base. -/
def withLabel (type : AccentType) (side : Option ScriptSide) : AccentType :=
  match type, side with
  | .overbrace, some .superscript => .labeledOverbrace
  | .underbrace, some .subscript => .labeledUnderbrace
  | _, _ => type

/-- The commands by which accents are recognised. -/
def table : CommandTable AccentType where
  entries := (Named.members.filter fun type : AccentType => !type.labeled).map
    fun type => (type.command, type)

end Formula.AccentType
