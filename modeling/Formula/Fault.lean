import Formula.Node.Mode
import Formula.Text.Digit
import Formula.Text.Quoted

/-!
# Faults

Everything that can be wrong with a request.  A fault names its cause; `Fault.message` is
its wording, for the faults that have one.
-/

namespace Formula

/-- How brackets are sized: by commands that fit their content, or by nesting depth. -/
inductive BracketSizing where
  | auto | depth
deriving DecidableEq, Repr

instance : Named BracketSizing where
  members := [.auto, .depth]
  name
    | .auto => "auto"
    | .depth => "depth"

/-- What a request failed for. -/
inductive Fault where
  /-- A text of digits is not a numeral. -/
  | numeral (text : Text) (flaw : Numeral.Flaw)
  /-- The order of a derivative has too many digits to be written. -/
  | orderTooLong
  /-- A matrix has no type, so that no environment is known for it. -/
  | noEnvironment
  /-- Something that is looked up by name or glyph is not in its table. -/
  | unknownEntry
  /-- A position is not one of the text. -/
  | noPosition (position : Int)
  /-- A number in a symbol file has no digits. -/
  | emptyNumeral
  /-- A number in a symbol file is too great to be worked with. -/
  | numeralTooGreat
  /-- A mapping in a symbol file is its own default. -/
  | endlessDefault
  /-- A symbol command is not a text. -/
  | commandNotText
  /-- A bracket sizing is not among the known ones. -/
  | unknownSizing (given : Option Text)
  | scriptWithoutSlot
  | unknownEvaluationStyle (style : Text)
  | unknownOperator (operator : Text)
  | orderNotPositive (order : Int)
  | emptyGrid (rows cols : Int)
  | unknownFunction (type : Text)
  /-- An underline wrapper was given a text. -/
  | underlineParam (given : Text)
  | colorMissing
  | needlessParam (kind : WrapperKind)
  /-- A node was to be inserted at a position outside the slot. -/
  | insertRange (position : Int) (length : Nat)
  /-- A node was to be removed from a position outside the slot. -/
  | removeRange (position : Int) (length : Nat)
  /-- No node has the identifier. -/
  | noNode (id : Int)
  /-- A node has no slot of the name. -/
  | noSlot (name : Text)
  /-- A node that is to be placed is in a slot already. -/
  | notLoose (id : Nat)
deriving DecidableEq, Repr

namespace Fault

/-- The wording of the two ways in which a text is not a numeral.  Only the beginning of a
long text is shown. -/
def numeralMessage (text : Text) : Numeral.Flaw → Text
  | .tooLong digits =>
    "Exceeds the limit (".toList ++ Numeral.write Numeral.maxDigits
      ++ " digits) for integer string conversion: value has ".toList
      ++ Numeral.write digits
      ++ " digits; use sys.set_int_max_str_digits() to increase the limit".toList
  | .notDecimal =>
    "invalid literal for int() with base 10: ".toList ++ (Text.quoted text).take 200

/-- The members of an enumeration as a list of quoted names. -/
def nameList (α : Type) [Named α] : Text :=
  ['('] ++ Text.joinWith ", ".toList
      ((Named.members : List α).map fun a => Text.quoted (name a).toList) ++ [')']

/-- The wording of a fault, for the faults that have one. -/
def message : Fault → Text
  | .numeral text flaw => numeralMessage text flaw
  | .orderTooLong =>
    "Exceeds the limit (".toList ++ Numeral.write Numeral.maxDigits
      ++ " digits) for integer string conversion; ".toList
      ++ "use sys.set_int_max_str_digits() to increase the limit".toList
  | .noEnvironment => "No environment for matrix type None".toList
  | .unknownEntry => []
  | .noPosition _ => []
  | .emptyNumeral => []
  | .numeralTooGreat => []
  | .endlessDefault => []
  | .commandNotText => []
  | .unknownSizing given =>
    "bracket_sizing must be one of ".toList ++ nameList BracketSizing ++ ", got ".toList
      ++ (given.map Text.quoted).getD "None".toList
  | .scriptWithoutSlot => "A script needs a superscript or a subscript slot".toList
  | .unknownEvaluationStyle style => "Unknown evaluation bracket style: ".toList ++ style
  | .unknownOperator operator => "Unknown large operator: ".toList ++ operator
  | .orderNotPositive order =>
    "Derivative order must be positive, got ".toList ++ Numeral.write order
  | .emptyGrid rows cols =>
    "Grid needs at least one row and column, got ".toList ++ Numeral.write rows
      ++ ['x'] ++ Numeral.write cols
  | .unknownFunction type => "Unknown function type: ".toList ++ type
  | .underlineParam given =>
    "Underline wrapper takes an UnderlineStyle, not ".toList ++ Text.quoted given
  | .colorMissing => "Color wrapper needs a color value".toList
  | .needlessParam kind => (name kind).toList ++ " wrapper takes no parameter".toList
  | .insertRange position length =>
    "Insert position ".toList ++ Numeral.write position
      ++ " out of range for slot of length ".toList ++ Numeral.write length
  | .removeRange position length =>
    "Remove position ".toList ++ Numeral.write position
      ++ " out of range for slot of length ".toList ++ Numeral.write length
  | .noNode id => "no node ".toList ++ Numeral.write id
  | .noSlot name => "no slot ".toList ++ name
  | .notLoose id => "node ".toList ++ Numeral.write id ++ " is in a slot".toList

end Fault

end Formula
