import Formula.Command.Accent
import Formula.Command.Escape
import Formula.Command.Formatting
import Formula.Reading.Item

/-!
# Reading escapes, formatting, accents and symbols

Attribute commands change all text in their argument.  Wrapper commands wrap the nodes of
their argument one by one; two underlines directly around each other are one double
underline.
-/

namespace Formula

/-- The formatting after an attribute command: the slant is set only where none is set. -/
def TextEmphasis.applyTo (e : TextEmphasis) (f : TextFormat) : TextFormat :=
  { f with bold := e.bold || f.bold, italic := f.italic.or e.italic }

/-- The tree with an attribute command applied to all its text. -/
def Node.emphasize (e : TextEmphasis) : Node → Node :=
  Tree.mapBottomUp fun n =>
    match n.shape with
    | .text v f s => n.withShape (.text v (e.applyTo f) s)
    | _ => n

/-- The wrappers after a wrapper command is read around them. -/
def Wrapping.wrap (w : Wrapping) (kind : WrapperKind) (param : WrapperParam) : Wrapping :=
  if kind = .underline then
    match w.params.underline with
    | none => w.put .underline (.style .single)
    | some current =>
      if current = .style .single && w.order.getLast? = some .underline then
        w.put .underline (.style .double)
      else w
  else w.put kind param

namespace Reading

/-- Reads an escaped character. -/
def escape : Reader := fun _ _ s =>
  (Escape.table.longest? s).map fun (_, c, rest) => do
    return (.nodes [← Build.text [c]], rest)

/-- Reads an attribute command. -/
def emphasis : Reader := fun _ nested s =>
  (attributeCommands.longest? s).map fun (_, change, rest) => do
    let (ns, rest) ← nested.argument rest
    return (.nodes (ns.map (Node.emphasize change)), rest)

/-- Reads the color of a wrapper command, if it takes one. -/
def colorOf (kind : WrapperKind) (s : Text) : Option Text × Text :=
  if kind = .color then
    let (color, rest) := Markup.argument s
    (some (Text.strip color), rest)
  else (none, s)

/-- Reads a wrapper command.  A color command without a color wraps nothing. -/
def wrapper : Reader := fun _ nested s =>
  (wrapperCommands.longest? s).map fun (command, kind, rest) => do
    let (color, rest) := colorOf kind rest
    let (content, rest) := Markup.argument rest
    let ns ← if kind = .textMode then nested.spaced content else nested.sequence content
    if color = some [] then
      Build.remark (.colorMissing command)
      return (.nodes ns, rest)
    else
      let param := (color.map WrapperParam.text).getD .none
      return (.nodes (ns.map fun n => n.withWrapping (n.wrapping.wrap kind param)), rest)

/-- Reads an accent.  A brace over or under its base has a label when a script follows on its
side. -/
def accent : Reader := fun _ nested s =>
  (AccentType.table.longest? s).map fun (_, plain, rest) => do
    let (base, rest) := Markup.argument rest
    let marker := Markup.scriptMarker? rest
    let type := plain.withLabel (marker.map (·.1))
    let i ← Build.fresh
    let base ← nested.sequence base
    match type.labeled, marker with
    | true, some (_, after) =>
      let (label, rest) ← nested.argument after
      return (.node i (.accent type type.position base (some label)), rest)
    | _, _ => return (.node i (.accent type type.position base none), rest)

/-- Reads a symbol. -/
def symbol : Reader := fun t _ s => do
  let (command, rest) ← t.spellings.longest? s
  let glyph ← t.glyphOf? command
  some do
    return (.nodes [← Build.text glyph], rest)

end Reading

end Formula
