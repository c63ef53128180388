import Formula.Command.Formatting
import Formula.Reading.Item

/-!
# Reading styles, fractions and roots

A style command sets the display mode of the one node in its scope.  The scope is the rest
of the group that the command begins, or else the next item.
-/

namespace Formula

namespace Reading

/-- Sets the display mode of a node, if it is the only one and has a display mode; other
nodes stay as they are. -/
def applyMode (mode : DisplayMode) (ns : List Node) : Build (List Node) :=
  match ns with
  | [n] =>
    match n.shape.withMode? mode with
    | some s => return [n.withShape s]
    | none => dropped
  | _ => dropped
where
  /-- The nodes as they are, with a remark. -/
  dropped : Build (List Node) := do
    Build.remark (.droppedStyle mode ns.length)
    return ns

/-- Reads a style command that begins a group, or stands before an item. -/
def style : Reader := fun _ nested s =>
  match s with
  | '{' :: cs =>
    (styleCommands.longest? (Text.skipBlanks cs)).map fun (command, mode, _) => do
      let (content, rest) := Markup.group cs
      let ns ← nested.sequence ((Text.skipBlanks content).drop command.length)
      return (.nodes (← applyMode mode ns), rest)
  | _ =>
    (styleCommands.longest? s).map fun (_, mode, rest) => do
      let rest := Text.skipBlanks rest
      let (ns, rest) ← if rest.isEmpty then pure ([], rest) else nested.item rest
      return (.nodes (← applyMode mode ns), rest)

/-- Reads a fraction with its two arguments. -/
def fraction : Reader := fun _ nested s =>
  (fractionCommands.longest? s).map fun (_, mode, rest) => do
    let (numerator, rest) := Markup.argument rest
    let (denominator, rest) := Markup.argument rest
    let i ← Build.fresh
    let top ← nested.sequence numerator
    let bottom ← nested.sequence denominator
    return (.node i (.fraction mode top bottom), rest)

/-- Reads a root: with an optional argument it has an index. -/
def root : Reader := fun _ nested s =>
  (Markup.command? "\\sqrt".toList s).map fun rest => do
    let (index?, rest) := Markup.optional rest
    let (radicand, rest) := Markup.argument rest
    let i ← Build.fresh
    match index? with
    | none => return (.node i (.sqrt (← nested.sequence radicand)), rest)
    | some index =>
      let top ← nested.sequence index
      return (.node i (.nthRoot top (← nested.sequence radicand)), rest)

end Reading

end Formula
