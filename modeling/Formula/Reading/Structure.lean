import Formula.Command.Delimiter
import Formula.Command.Escape
import Formula.Markup.Closing
import Formula.Reading.Item

/-!
# Reading scripts, brackets, spacing and groups

What is left after the commands: scripts of the node before them, sized brackets with their
bounds, spacing commands, and plain groups, which may carry scripts of their own or be the
numerator of a bevelled fraction.
-/

namespace Formula.Reading

/-- Reads a script of the node before it. -/
def script : Reader := fun _ nested s =>
  match s with
  | [] => none
  | c :: cs =>
    (ScriptSide.ofMarker? c).map fun side => do
      let (content, rest) ← nested.argument cs
      return (.script side content, rest)

/-- Reads a sized bracket and the bounds after it.  A bracket that is not closed takes the
whole text. -/
def bracket : Reader := fun _ nested s =>
  (Delimiter.leftSizes.longest? s).map fun (size, rest) => do
    let (left, rest) := Markup.delimiter rest
    let (content, right, rest) ←
      match Markup.untilClosing 0 rest with
      | some (content, rest) =>
        let (right, rest) := Markup.delimiter rest
        pure (content, right, rest)
      | none => do
        Build.remark (.unclosed size)
        pure (rest, ['.'], [])
    let i ← Build.fresh
    let content ← nested.sequence content
    let (bounds, rest) ← Bounds.read nested rest
    return (.node i (.bracket left right content 0 none bounds.superscript
      bounds.subscript), rest)

/-- Reads a control space, or a spacing command, which leaves nothing behind. -/
def spacing : Reader := fun _ _ s =>
  match Text.after? ['\\', ' '] s with
  | some rest => some do
    return (.nodes [← Build.text [' ']], rest)
  | none => (Escape.ignored.longest? s).map fun (_, rest) => return (.nodes [], rest)

/-- The group after a solidus that stands next, with what follows it. -/
def afterSolidus? (s : Text) : Option (Text × Text) :=
  match Text.skipBlanks s with
  | '/' :: cs => Markup.nextGroup? cs
  | _ => none

/-- Reads a group.  An empty group leaves nothing behind; scripts after a group have the whole
group as their base; a solidus and another group make it a numerator. -/
def group : Reader := fun _ nested s =>
  match s with
  | '{' :: cs => some do
    let (content, rest) := Markup.group cs
    if content.isEmpty then return (.nodes [], rest)
    let ns ← nested.sequence content
    if (Markup.scriptMarker? rest).isSome then
      let i ← Build.fresh
      let (bounds, rest) ← Bounds.read nested rest
      return (.node i (.script ns bounds.superscript bounds.subscript), rest)
    match afterSolidus? rest with
    | some (denominator, rest) =>
      let i ← Build.fresh
      let below ← nested.sequence denominator
      return (.node i (.bevelledFraction none ns below), rest)
    | none => return (.nodes ns, rest)
  | _ => none

/-- Reads a single character as text.  An unknown command leaves a remark. -/
def literal (c : Char) (cs : Text) : Build (Item × Text) := do
  if c = '\\' then
    match Markup.commandName cs with
    | some (name, _) => Build.remark (.unknownCommand ('\\' :: name))
    | none => pure ()
  return (.nodes [← Build.text [c]], cs)

end Formula.Reading
