import Formula.Command.Formatting
import Formula.Reading.Item

/-!
# Reading derivatives

A derivative is written with its function and its variable as arguments, or as a fraction
of two differentials.  In the second family the differentials have to be recognised in the
arguments: a fraction whose arguments do not begin with the same differential sign is kept
as a fraction.
-/

namespace Formula

/-- A differential such as `d^{n}x`: its sign, the markup of its order, and what stands
after them. -/
structure Differential where
  isPartial : Bool
  order : Option Text
  rest : Text

namespace Differential

/-- Splits a text that begins with a differential sign. -/
def split? (s : Text) : Option Differential :=
  let s := Text.skipMargin s
  match Markup.command? "\\partial".toList s with
  | some rest => some (afterSign true rest)
  | none => (Text.after? ['d'] s).map (afterSign false)
where
  /-- Reads the order after a differential sign. -/
  afterSign (isPartial : Bool) (s : Text) : Differential :=
    match Text.skipBlanks s with
    | '^' :: cs =>
      let (order, rest) := Markup.argument cs
      { isPartial, order := some order, rest }
    | s => { isPartial, order := none, rest := s }

/-- The variable of a denominator: what stands after its differential sign, without the
order of the numerator at its end. -/
def differentials (numerator denominator : Differential) : Text :=
  match numerator.order with
  | none => denominator.rest
  | some order =>
    let ending := ['^', '{'] ++ order ++ ['}']
    (Text.beforeEnd? ending (Text.trimEnd Text.isBlank denominator.rest)).getD denominator.rest

/-- The two differentials of a derivative written as a fraction: both have the same sign, and
in long form nothing but blanks stands after the numerator. -/
def pair? (numerator denominator : Text) (longForm : Bool) :
    Option (Differential × Differential) := do
  let top ← split? numerator
  let bottom ← split? denominator
  if top.isPartial != bottom.isPartial || (longForm && !Text.isAllBlank top.rest) then none
  else some (top, bottom)

end Differential

namespace Reading

/-- The digits of an order that is a positive number. -/
def numericOrder? (s : Text) : Option Text :=
  let digits := Text.trimBoth Text.isMarginBlank s
  match digits with
  | [] => none
  | c :: cs => if c.isDigit && c != '0' && cs.all Char.isDigit then some digits else none

/-- Reads the order of a derivative: a number, or an expression; without one it is first. -/
def order (nested : Nested) : Option Text → Build (Order Node)
  | none => return .number 1
  | some s =>
    match numericOrder? s with
    | none => return .sequence (← nested.sequence s)
    | some digits =>
      match Numeral.read digits with
      | .ok n => return .number n
      | .error flaw => throw (.numeral digits flaw)

/-- Reads a derivative with its function and variable as arguments.  In long form the
variable stands first, and the function follows a command of its own or is absent. -/
def structuralDerivative (nested : Nested) (isPartial : Bool) (s : Text) :
    Build (Item × Text) := do
  let i ← Build.fresh
  let (order?, rest) := Markup.optional s
  let order ← order nested order?
  let (first, rest) := Markup.argument rest
  match Markup.command? grandeCommand (Text.skipMargin rest), Markup.nextGroup? rest with
  | some rest, _ =>
    let (function, rest) := Markup.argument rest
    let differentials ← nested.sequence first
    let function ← nested.sequence function
    return (.node i (.derivative order true isPartial .inline function differentials), rest)
  | none, some (second, rest) =>
    let function ← nested.sequence first
    let differentials ← nested.sequence second
    return (.node i (.derivative order false isPartial .inline function differentials), rest)
  | none, none =>
    let differentials ← nested.sequence first
    return (.node i (.derivative order true isPartial .inline [] differentials), rest)

/-- Reads a derivative written as a fraction of two differentials. -/
def fractionDerivative (nested : Nested) (command : Text) (mode : DisplayMode)
    (longForm : Bool) (s : Text) : Build (Item × Text) := do
  let (numerator, rest) := Markup.argument s
  let (denominator, rest) := Markup.argument rest
  let (function, rest) := if longForm then Markup.argument rest else ([], rest)
  match Differential.pair? numerator denominator longForm with
  | some (top, bottom) =>
    let i ← Build.fresh
    let order ← order nested top.order
    let body ← nested.sequence (if longForm then function else top.rest)
    let differentials ← nested.sequence (top.differentials bottom)
    return (.node i (.derivative order longForm top.isPartial mode body differentials), rest)
  | none =>
    Build.remark (.notDifferentials command)
    let i ← Build.fresh
    let above ← nested.sequence numerator
    let below ← nested.sequence denominator
    let after ← if longForm then nested.sequence function else pure []
    return (.nodes (Node.plain i (.fraction (some mode) above below) :: after), rest)

/-- Reads a derivative of either family. -/
def derivative : Reader := fun _ nested s =>
  (derivativeCommands.longest? s).map fun (command, meaning, rest) =>
    match meaning with
    | .structural isPartial => structuralDerivative nested isPartial rest
    | .asFraction mode longForm => fractionDerivative nested command mode longForm rest

end Reading

end Formula
