import Formula.Command.Function
import Formula.Command.Integral
import Formula.Command.Operator
import Formula.Reading.Item

/-!
# Reading operators and functions

Large operators take bounds and an operand, integrals take as many arguments as their
command says, and functions take an argument and perhaps a base or a constraint.
-/

namespace Formula.Reading

/-- Reads a large operator: an optional modifier, its bounds in any order, and a group as its
operand. -/
def largeOperator : Reader := fun _ nested s =>
  (LargeOperator.table.longest? s).map fun (_, glyph, rest) => do
    let i ← Build.fresh
    let (mode, rest) :=
      match LimitMode.table.longest? (Text.skipBlanks rest) with
      | some (_, mode, rest) => (mode, rest)
      | none => (LimitMode.default, rest)
    let (bounds, rest) ← Bounds.read nested rest
    let (operand, rest) ← nested.group? rest
    return (.node i (.largeOperator glyph mode .inline (bounds.subscript.getD [])
      (bounds.superscript.getD []) operand), rest)

/-- Reads an integral: integrand, variable, and the bounds that its form has. -/
def integral : Reader := fun _ nested s =>
  (IntegralCommand.table.longest? s).map fun (_, command, rest) => do
    let i ← Build.fresh
    let (integrand, rest) ← nested.argument rest
    let (differentials, rest) ← nested.argument rest
    let (lower, rest) ← bound command.form.hasLower nested rest
    let (upper, rest) ← bound command.form.hasUpper nested rest
    let limitMode := command.form.bounds.fold command.form.limitMode
    return (.node i (.integral command.type command.style limitMode .inline
      integrand differentials lower upper), rest)
where
  /-- Reads a bound, if there is one. -/
  bound (present : Bool) (nested : Nested) (s : Text) : Build (Option (List Node) × Text) :=
    if present then do
      let (content, rest) ← nested.argument s
      return (some content, rest)
    else return (none, s)

/-- Whether an operator name is written here, whether it has a star, and what follows.  A
star before a letter is not taken. -/
def operatorName? (s : Text) : Option (Bool × Text) := do
  let rest ← Text.after? "\\operatorname".toList s
  match rest with
  | '*' :: cs => if Text.startsWithLetter cs then some (false, rest) else some (true, cs)
  | _ => if Text.startsWithLetter rest then none else some (false, rest)

/-- The type of a function that is written with an operator name, and whether the name is to
be kept because it is no built-in function. -/
def namedFunctionType (star : Bool) (written : Text) (name : Text) (rest : Text) :
    Text × Bool :=
  match FunctionInfo.typeOf? (written ++ ['{'] ++ Text.strip name ++ ['}']) with
  | some type => (type, false)
  | none =>
    if star then ("functionlim".toList, true)
    else
      match Markup.scriptMarker? rest with
      | some (.subscript, _) => ("functionsub".toList, true)
      | _ => ("function".toList, true)

/-- Reads what follows the name of a function: its base or constraint, and a group as its
argument. -/
def functionArguments (nested : Nested) (i : Nat) (type : Text) (name : List Node)
    (rest : Text) : Build (Item × Text) := do
  let form := ((FunctionInfo.find? type).map (·.form)).getD .simple
  let (base, constraint, rest) ←
    match form, Markup.scriptMarker? rest with
    | .withBase, some (.subscript, after) => do
      let (content, rest) ← nested.argument after
      pure (content, [], rest)
    | .withConstraint, some (.subscript, after) => do
      let (content, rest) ← nested.argument after
      pure ([], content, rest)
    | _, _ => pure ([], [], rest)
  let (argument, rest) ← nested.group? rest
  return (.node i (.function type name argument base constraint), rest)

/-- Reads a function that is written with an operator name. -/
def namedFunction (nested : Nested) (star : Bool) (s : Text) : Build (Item × Text) := do
  let written := "\\operatorname".toList ++ (if star then ['*'] else [])
  let (name, rest) := Markup.argument s
  let (type, keepName) := namedFunctionType star written name rest
  let i ← Build.fresh
  let name ← if keepName then nested.sequence name else pure []
  functionArguments nested i type name rest

/-- The type of a function that is written with a command: a logarithm with a subscript has
that as its base. -/
def commandFunctionType (type rest : Text) : Text :=
  match Markup.scriptMarker? rest with
  | some (.subscript, _) => if type = "log".toList then "logn".toList else type
  | _ => type

/-- Reads a function. -/
def function : Reader := fun _ nested s =>
  match operatorName? s with
  | some (star, rest) => some (namedFunction nested star rest)
  | none =>
    (FunctionInfo.table.longest? s).map fun (_, type, rest) => do
      let i ← Build.fresh
      functionArguments nested i (commandFunctionType type rest) [] rest

end Formula.Reading
