import Formula.Command.Escape
import Formula.Command.Symbol
import Formula.Node.Wrapping
import Formula.Text.Digit
import Formula.Writing.Fragment

/-!
# Writing text

A character of a text is written as an escape, as the command of its symbol, or as itself.
Operators stand between spaces, except in text mode, where spaces count.  A run of text is
written with the commands of its attributes around it.
-/

namespace Formula

namespace Writing

/-- A character of a text as it is written. -/
def escapeChar (t : SymbolTable) (textMode : Bool) (c : Char) : Text :=
  if c = ' ' then ['\\', ' ']
  else
    match Escape.spelling? c with
    | some spelling => spelling
    | none =>
      match (t.commandFor? [c]).filter (!·.isEmpty) with
      | some command =>
        let endsInLetter := command.getLast?.any Text.isLetter
        if textMode then command ++ (if endsInLetter then ['{', '}'] else [])
        else if t.isOperator [c] then [' '] ++ command ++ [' ']
        else command ++ (if endsInLetter then [' '] else [])
      | none => if t.isOperator [c] && !textMode then [' ', c, ' '] else [c]

/-- A text as it is written, without its formatting. -/
def escapeText (t : SymbolTable) (textMode : Bool) (value : Text) : Text :=
  collapseSpaces (value.flatMap (escapeChar t textMode))

/-- A command with one argument. -/
def command (name : String) (argument : Text) : Text := name.toList ++ braced argument

/-- A text of which the value is known with the commands for its weight and slant around
it. -/
def emphasized (format : TextFormat) (value body : Text) : Text :=
  match format.bold, format.italic with
  | true, some true =>
    if Text.isDigits value then command "\\textit" (command "\\textbf" body)
    else command "\\boldsymbol" body
  | true, some false => command "\\mathbf" (command "\\mathrm" body)
  | true, none => command "\\mathbf" body
  | false, some true => command "\\mathit" body
  | false, some false => command "\\mathrm" body
  | false, none => body

/-- A wrapper parameter where a color is expected. -/
def colorText : WrapperParam → Text
  | .none => "None".toList
  | .style .single => "UnderlineStyle.SINGLE".toList
  | .style .double => "UnderlineStyle.DOUBLE".toList
  | .text color => color

/-- A body with a wrapper around it. -/
def wrap (body : Text) (wrapper : Wrapper) : Text :=
  let body := trimMarkup body
  match wrapper with
  | (.underline, .style .double) => command "\\underline" (command "\\underline" body)
  | (.underline, _) => command "\\underline" body
  | (.cancel, _) => command "\\cancel" body
  | (.color, param) => "\\textcolor".toList ++ braced (colorText param) ++ braced body
  | (.textMode, _) => command "\\text" body

/-- The wrappers that the attributes of a run are written as, innermost first.  A color that
is empty is written too. -/
def attributeCommandsOf (format : TextFormat) : List Wrapper :=
  (format.underline.toList.map fun s => (.underline, .style s))
    ++ (if format.strikethrough then [(.cancel, .none)] else [])
    ++ (format.color.toList.map fun c => (.color, .text c))
    ++ (if format.textMode then [(.textMode, .none)] else [])

/-- A run of text of one format. -/
def textRun (t : SymbolTable) (textMode : Bool) (format : TextFormat) (value : Text) : Text :=
  if value.isEmpty then []
  else
    let body := escapeText t (textMode || format.textMode) value
    (attributeCommandsOf format).foldl wrap (emphasized format value body)

end Writing

end Formula
