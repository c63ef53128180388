import Formula.Spelling.CommandTable
import Formula.Node.Mode

/-!
# Formatting, style, fraction and derivative commands

The commands that set attributes of text, wrap nodes, set a display mode, and begin a
fraction or a derivative.
-/

namespace Formula

/-- What an attribute command does to a text: it may make it bold, and may set its slant
where none is set. -/
structure TextEmphasis where
  bold : Bool
  italic : Option Bool
deriving DecidableEq, Repr

/-- The commands that set attributes of text. -/
def attributeCommands : CommandTable TextEmphasis := .ofList
  [("\\boldsymbol", ⟨true, some true⟩), ("\\bm", ⟨true, some true⟩),
    ("\\mathbf", ⟨true, none⟩), ("\\textbf", ⟨true, none⟩), ("\\mathit", ⟨false, some true⟩),
    ("\\textit", ⟨false, some true⟩), ("\\mathrm", ⟨false, some false⟩)]

/-- The commands that wrap nodes. -/
def wrapperCommands : CommandTable WrapperKind := .ofList
  [("\\underline", .underline), ("\\cancel", .cancel), ("\\textcolor", .color),
    ("\\color", .color), ("\\text", .textMode)]

/-- The commands that set a display mode. -/
def styleCommands : CommandTable DisplayMode := .ofList
  [("\\displaystyle", .display), ("\\textstyle", .inline)]

/-- The command that sets a display mode. -/
def DisplayMode.command : DisplayMode → Text
  | .display => "\\displaystyle".toList
  | .inline => "\\textstyle".toList

/-- The commands that begin a fraction. -/
def fractionCommands : CommandTable (Option DisplayMode) := .ofList
  [("\\frac", none), ("\\dfrac", some .display), ("\\tfrac", some .inline)]

/-- What a derivative command says about the derivative.  The structural family writes the
function and the variable as arguments; the fraction family writes the two differentials of
a fraction out. -/
inductive DerivativeCommand where
  | structural (isPartial : Bool)
  | asFraction (mode : DisplayMode) (longForm : Bool)
deriving DecidableEq, Repr

/-- The commands that begin a derivative. -/
def derivativeCommands : CommandTable DerivativeCommand := .ofList
  [("\\derivfrac", .asFraction .inline false), ("\\derivdfrac", .asFraction .display false),
    ("\\derivlfrac", .asFraction .inline true), ("\\derivldfrac", .asFraction .display true),
    ("\\dv", .structural false), ("\\pdv", .structural true)]

/-- The command between the variable and the function of a structural derivative in long
form. -/
def grandeCommand : Text := "\\grande".toList

end Formula
