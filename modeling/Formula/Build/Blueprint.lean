import Formula.Build.Supply
import Formula.Command.Accent
import Formula.Command.Delimiter
import Formula.Command.Function
import Formula.Command.Integral
import Formula.Command.Operator

/-!
# Blueprints

A blueprint says which node is wanted; `Blueprint.build` makes it, with a fresh identifier
and empty slots, or refuses.  What is refused is refused before an identifier is taken, with
the exception of grids, whose size is looked at afterwards.
-/

namespace Formula

/-- A wanted node. -/
inductive Blueprint where
  | text (value : Text) (format : TextFormat) (scale : Option Scale)
  | fraction (mode : Option DisplayMode)
  | bevelledFraction (mode : Option DisplayMode)
  | sqrt
  | nthRoot
  | script (hasSuperscript hasSubscript : Bool)
  /-- A bracket, whose right side is the partner of the left one unless it is given. -/
  | bracket (left : Text) (right : Option Text)
  /-- A bracket with slots for bounds, in the style of that name. -/
  | evaluationBracket (style : Text)
  /-- A large operator, given by its command or its glyph. -/
  | largeOperator (operator : Text) (limitMode : LimitMode) (mode : DisplayMode)
  | derivative (order : Order Node) (longForm isPartial : Bool) (mode : DisplayMode)
  | integral (type : IntegralType) (style : DifferentialStyle) (bounds : IntegralBounds)
      (limitMode : LimitMode) (mode : DisplayMode)
  | matrix (rows cols : Int) (delimiters : Option MatrixType)
  | stack (rows cols : Int)
  | cases (rows cols : Int)
  | accent (type : AccentType)
  | function (type : Text)

namespace Blueprint

/-- The sides of an evaluation bracket: a bar on the right only, or square brackets. -/
def evaluationSides? (style : Text) : Option (Text × Text) :=
  [("bar".toList, (['.'], ['|'])), ("square".toList, (['['], [']']))].lookup style

/-- Whether an order may be given to a derivative: a number is positive, and an expression is
always accepted. -/
def checkOrder (order : Order Node) : Except Fault Unit :=
  match order with
  | .number n =>
    if 1 ≤ n then .ok ()
    else .error (if Numeral.isWritable n then .orderNotPositive n else .orderTooLong)
  | .sequence _ => .ok ()

/-- A node with a grid of the given size.  The identifier is taken before the size is
looked at. -/
def grid (rows cols : Int) (shape : Grid Node → Shape Node) : Build Node := do
  let i ← Build.fresh
  if rows < 1 || cols < 1 then throw (.emptyGrid rows cols)
  return .plain i (shape (.blank rows.toNat cols.toNat))

/-- The nodes that go into the wanted node. -/
def parts : Blueprint → List Node
  | .derivative (.sequence nodes) _ _ _ => nodes
  | _ => []

/-- Makes the node of a blueprint. -/
def build : Blueprint → Build Node
  | .text value format scale => Build.node (.text value format scale)
  | .fraction mode => Build.node (.fraction mode [] [])
  | .bevelledFraction mode => Build.node (.bevelledFraction mode [] [])
  | .sqrt => Build.node (.sqrt [])
  | .nthRoot => Build.node (.nthRoot [] [])
  | .script hasSuperscript hasSubscript =>
    if hasSuperscript || hasSubscript then
      Build.node (.script [] (slotIf hasSuperscript) (slotIf hasSubscript))
    else throw .scriptWithoutSlot
  | .bracket left right =>
    Build.node (.bracket left (right.getD (Delimiter.partner left)) [] 0 none none none)
  | .evaluationBracket style =>
    match evaluationSides? style with
    | some (left, right) =>
      Build.node (.bracket left right [] 0 none (some []) (some []))
    | none => throw (.unknownEvaluationStyle style)
  | .largeOperator operator limitMode mode =>
    match LargeOperator.glyphOf? operator with
    | some glyph => Build.node (.largeOperator glyph limitMode mode [] [] [])
    | none => throw (.unknownOperator operator)
  | .derivative order longForm isPartial mode =>
    match checkOrder order with
    | .ok () => Build.node (.derivative order longForm isPartial mode [] [])
    | .error fault => throw fault
  | .integral type style bounds limitMode mode =>
    Build.node (.integral type style (bounds.fold limitMode) mode [] []
      (slotIf (bounds ≠ .none)) (slotIf (bounds = .both)))
  | .matrix rows cols delimiters => grid rows cols (.matrix delimiters)
  | .stack rows cols => grid rows cols .stack
  | .cases rows cols => grid rows cols .cases
  | .accent type =>
    Build.node (.accent type type.position [] (slotIf type.labeled))
  | .function type =>
    if (FunctionInfo.find? type).isSome then Build.node (.function type [] [] [] [])
    else throw (.unknownFunction type)
where
  /-- An empty slot, if there is to be one. -/
  slotIf (wanted : Bool) : Option (List Node) := if wanted then some [] else none

end Blueprint

end Formula
