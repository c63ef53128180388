import Formula.Node.Mode
import Formula.Text.Digit

/-!
# Remarks

What reading markup notes down about text that is not understood.
-/

namespace Formula

/-- How serious a remark is. -/
inductive Severity where
  | debug | warning
deriving DecidableEq, Repr

instance : Named Severity where
  members := [.debug, .warning]
  name
    | .debug => "DEBUG"
    | .warning => "WARNING"

/-- A remark about the markup that is read. -/
inductive Remark where
  /-- A command is not known, and its characters are kept as text. -/
  | unknownCommand (command : Text)
  /-- A style stands around something other than one node with a display mode. -/
  | droppedStyle (mode : DisplayMode) (count : Nat)
  /-- The arguments of a derivative written as a fraction are not differentials. -/
  | notDifferentials (command : Text)
  /-- A color command has no color. -/
  | colorMissing (command : Text)
  /-- A sized bracket is not closed. -/
  | unclosed (size : Text)
deriving DecidableEq, Repr

namespace Remark

/-- How serious a remark is. -/
def severity : Remark → Severity
  | .notDifferentials _ => .warning
  | _ => .debug

/-- The wording of a remark. -/
def message : Remark → Text
  | .unknownCommand command =>
    "Unrecognized command ".toList ++ command ++ " kept as literal text".toList
  | .droppedStyle mode count =>
    "Dropped ".toList ++ (name mode).toList ++ " style around ".toList
      ++ Numeral.write count ++ " nodes".toList
  | .notDifferentials command =>
    command ++ " arguments are not differentials; kept as a fraction".toList
  | .colorMissing command => command ++ " without a color value; wrapper dropped".toList
  | .unclosed size => size ++ " without a closing delimiter; closed at end of input".toList

end Remark

end Formula
