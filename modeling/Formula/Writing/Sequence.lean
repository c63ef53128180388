import Formula.Command.Accent
import Formula.Command.Delimiter
import Formula.Command.Environment
import Formula.Command.Formatting
import Formula.Command.Function
import Formula.Command.Integral
import Formula.Command.Operator
import Formula.Fault
import Formula.Node.Nesting
import Formula.Writing.TextRun

/-!
# Writing markup

Every node becomes a piece; pieces of siblings are put together by runs.  Neighbours with
equal outer wrappers are wrapped together, and neighbouring texts of equal format are one
run.  `toMarkup` writes an equation.
-/

namespace Formula

namespace Writing

/-- What stays the same while an equation is written. -/
structure Settings where
  table : SymbolTable
  /-- Whether derivatives are written with arguments, or as fractions of differentials. -/
  structural : Bool
  sizing : BracketSizing
  /-- The greatest depth of a bracket in the equation. -/
  maxDepth : Int

/-- Everything that neighbouring texts must share to be one run. -/
structure RunFormat where
  format : TextFormat
  wrapping : Wrapping
deriving DecidableEq, Repr

/-- What a piece holds: text, or a construct that is written once it is known whether it
stands in text mode. -/
inductive Body where
  | run (value : Text) (format : RunFormat)
  | construct (write : (textMode : Bool) → Except Fault Text)

/-- The part of the markup that a node contributes. -/
structure Piece where
  /-- The wrappers around it, innermost first. -/
  outer : List Wrapper
  body : Body

namespace Piece

/-- The value and format of a piece that is text. -/
def run? (p : Piece) : Option (Text × RunFormat) :=
  match p.body with
  | .run value format => some (value, format)
  | .construct _ => none

/-- Whether two neighbouring pieces are texts of one run. -/
def sameRun (p q : Piece) : Bool :=
  match p.run?, q.run? with
  | some (_, format), some (_, format') => format = format'
  | _, _ => false

end Piece

variable (settings : Settings)

/-- What separates a command name from a letter. -/
def separator (textMode : Bool) : Text := if textMode then ['{', '}'] else [' ']

/-- The pieces of one run, or a single construct. -/
def writeRun (textMode : Bool) (pieces : List Piece) : Except Fault Text :=
  match pieces with
  | [] => return []
  | p :: _ =>
    match p.body with
    | .construct write => write textMode
    | .run _ format =>
      let value := pieces.flatMap fun q => ((q.run?).map (·.1)).getD []
      return textRun settings.table textMode format.format value

/-- Pieces without regard to their wrappers, run by run. -/
def writePlain (textMode : Bool) (pieces : List Piece) : Except Fault Text := do
  let parts ← (pieces.splitBy Piece.sameRun).mapM (writeRun settings textMode)
  return join (separator textMode) parts

/-- Pieces that have the same wrappers around them. -/
def writeWrapped (textMode : Bool) (pieces : List Piece) : Except Fault Text := do
  let wrappers := ((pieces.head?).map (·.outer)).getD []
  let inText := textMode || wrappers.any (·.1 = .textMode)
  let body ← writePlain settings inText pieces
  return wrappers.foldl wrap body

/-- The pieces of siblings. -/
def writePieces (textMode : Bool) (pieces : List Piece) : Except Fault Text := do
  let groups := pieces.splitBy fun p q => p.outer = q.outer
  let parts ← groups.mapM (writeWrapped settings textMode)
  return join (separator textMode) parts

/-- A slot as a group; a slot that is absent or empty is the empty group. -/
def writeGroup (textMode : Bool) (slot : List Piece) : Except Fault Text :=
  return group (← writePieces settings textMode slot)

/-- A slot as content that is trimmed. -/
def writeContent (textMode : Bool) (slot : List Piece) : Except Fault Text :=
  return trimMarkup (← writePieces settings textMode slot)

/-- A body inside a group that sets its display mode. -/
def styled (mode : Option DisplayMode) (body : Text) : Text :=
  match mode with
  | none => body
  | some mode => braced (mode.command ++ [' '] ++ body)

/-- A script, if there is one. -/
def writeScript (textMode : Bool) (side : ScriptSide) :
    Option (List Piece) → Except Fault Text
  | none => return []
  | some slot => return side.marker :: (← writeGroup settings textMode slot)

/-- The size commands of a bracket. -/
def bracketSizes (depth : Int) : Text × Text :=
  if settings.sizing = .depth && 0 ≤ settings.maxDepth then
    let step := min (settings.maxDepth - depth) (Delimiter.sizes.length - 2) + 1
    Delimiter.sizeAt (max step 1).toNat
  else Delimiter.sizeAt 0

/-- The order of a derivative. -/
def writeOrder (textMode : Bool) : Order Piece → Except Fault Text
  | .sequence slot => return orSpace (← writeContent settings textMode slot)
  | .number n =>
    if !Numeral.isWritable n then throw .orderTooLong
    else return Numeral.write n

/-- Whether an order is not written. -/
def isFirstOrder : Order Piece → Bool
  | .number n => n == 1
  | .sequence _ => false

/-- A derivative with its function and variable as arguments. -/
def writeStructural (textMode : Bool) (order : Order Piece) (longForm isPartial : Bool)
    (mode : DisplayMode) (function differentials : List Piece) : Except Fault Text := do
  let name := if isPartial then "\\pdv".toList else "\\dv".toList
  let order ←
    if isFirstOrder order then pure []
    else do pure (['['] ++ optional (← writeOrder settings textMode order) ++ [']'])
  let differentials ← writeGroup settings textMode differentials
  let function ← writeGroup settings textMode function
  let body :=
    if longForm then name ++ order ++ differentials ++ grandeCommand ++ function
    else name ++ order ++ function ++ differentials
  return if mode = .display then styled (some mode) body else body

/-- A derivative as a fraction of two differentials. -/
def writeAsFraction (textMode : Bool) (order : Order Piece) (longForm isPartial : Bool)
    (mode : DisplayMode) (function differentials : List Piece) : Except Fault Text := do
  let sign := if isPartial then "\\partial ".toList else ['d']
  let order ←
    if isFirstOrder order then pure []
    else do pure ('^' :: braced (← writeOrder settings textMode order))
  let function := orSpace (← writeContent settings textMode function)
  let differentials := orSpace (← writeContent settings textMode differentials)
  let below := braced (sign ++ differentials ++ order)
  let display := decide (mode = .display)
  if longForm then
    let name := if display then "\\derivldfrac" else "\\derivlfrac"
    return name.toList ++ braced (sign ++ order) ++ below ++ braced function
  else
    let name := if display then "\\derivdfrac" else "\\derivfrac"
    return name.toList ++ braced (sign ++ order ++ function) ++ below

/-- An integral with the arguments that its form has. -/
def writeIntegral (textMode : Bool) (type : IntegralType) (style : DifferentialStyle)
    (limitMode : LimitMode) (mode : DisplayMode) (integrand differentials : List Piece)
    (lower upper : Option (List Piece)) : Except Fault Text := do
  let form := IntegralForm.ofBounds lower.isSome upper.isSome limitMode
  let command : IntegralCommand := { type, style, form }
  let slots := [integrand, differentials]
    ++ (if form.hasLower then [lower.getD []] else [])
    ++ (if form.hasUpper then [upper.getD []] else [])
  let arguments ← slots.mapM (writeGroup settings textMode)
  return styled (some mode) (command.spelling ++ arguments.flatten)

/-- A grid between the commands of its environment. -/
def writeGrid (textMode : Bool) (name specification : Text) (g : Grid Piece) :
    Except Fault Text := do
  let rows ← (List.range g.rows.toNat).mapM fun row =>
    (List.range g.cols.toNat).mapM fun col => writeContent settings textMode (g.cell row col)
  let body := Text.joinWith " \\\\ ".toList (rows.map (Text.joinWith " & ".toList))
  return "\\begin".toList ++ braced name ++ specification ++ [' '] ++ body
    ++ " \\end".toList ++ braced name

/-- A function with its base or constraint and its argument. -/
def writeFunction (textMode : Bool) (type : Text) (name argument base constraint : List Piece) :
    Except Fault Text := do
  let some info := FunctionInfo.find? type | throw .unknownEntry
  let command ←
    match info.command with
    | some command => pure command
    | none => do
      let name := orSpace (← writeContent settings textMode name)
      let star := if info.form = .withConstraint then ['*'] else []
      pure ("\\operatorname".toList ++ star ++ braced name)
  let script ←
    match info.form with
    | .simple => pure []
    | .withBase => do pure ('_' :: (← writeGroup settings textMode base))
    | .withConstraint => do pure ('_' :: (← writeGroup settings textMode constraint))
  return command ++ script ++ (← writeGroup settings textMode argument)

/-- A construct other than text as it is written. -/
def writeShape (textMode : Bool) : Shape Piece → Except Fault Text
  | .text .. => return []
  | .fraction mode a b => do
    let above ← writeGroup settings textMode a
    let below ← writeGroup settings textMode b
    match mode with
    | some .display => return "\\dfrac".toList ++ above ++ below
    | mode => return styled mode ("\\frac".toList ++ above ++ below)
  | .bevelledFraction mode a b => do
    let above ← writeGroup settings textMode a
    let below ← writeGroup settings textMode b
    return styled mode (above ++ ['/'] ++ below)
  | .sqrt a => return "\\sqrt".toList ++ (← writeGroup settings textMode a)
  | .nthRoot a b => do
    let index := optional (← writeContent settings textMode a)
    return "\\sqrt[".toList ++ index ++ [']'] ++ (← writeGroup settings textMode b)
  | .script a p q => do
    let base ← writeGroup settings textMode a
    let superscript ← writeScript settings textMode .superscript p
    let subscript ← writeScript settings textMode .subscript q
    return base ++ superscript ++ subscript
  | .bracket l r c d _ p q => do
    let (left, right) := bracketSizes settings d
    let content ← writeContent settings textMode c
    let subscript ← writeScript settings textMode .subscript q
    let superscript ← writeScript settings textMode .superscript p
    return left ++ Delimiter.spelling l true ++ [' '] ++ content ++ [' '] ++ right
      ++ Delimiter.spelling r false ++ subscript ++ superscript
  | .largeOperator o l m a b c => do
    let some command := LargeOperator.commandFor? o | throw .unknownEntry
    let lower ← writeGroup settings textMode a
    let upper ← writeGroup settings textMode b
    let operand ← writeGroup settings textMode c
    return styled (some m)
      (command ++ l.modifier ++ ['_'] ++ lower ++ ['^'] ++ upper ++ [' '] ++ operand)
  | .derivative o l p m a b =>
    if settings.structural then writeStructural settings textMode o l p m a b
    else writeAsFraction settings textMode o l p m a b
  | .integral t s l m a b p q => writeIntegral settings textMode t s l m a b p q
  | .matrix t g => do
    let some delimiters := t | throw .noEnvironment
    writeGrid settings textMode (GridKind.matrix delimiters).environment [] g
  | .stack g =>
    writeGrid settings textMode GridKind.stack.environment
      (braced (List.replicate g.cols.toNat 'c')) g
  | .cases g => writeGrid settings textMode GridKind.cases.environment [] g
  | .accent t _ a l => do
    let base ← writeGroup settings textMode a
    let label ←
      if t.labeled then do
        pure (t.labelSide.marker :: (← writeGroup settings textMode (l.getD [])))
      else pure []
    return t.command ++ base ++ label
  | .function t a b c d => writeFunction settings textMode t a b c d

/-- The piece of a node. -/
def piece : Node → Piece :=
  Tree.fold fun label s =>
    { outer := outerWrappers label.wrapping s
      body :=
        match s with
        | .text value format _ => .run value { format, wrapping := label.wrapping }
        | s => .construct fun textMode => writeShape settings textMode s }

end Writing

/-- How equations are written. -/
structure WriteConfig where
  /-- Whether derivatives are written with arguments, or as fractions of differentials. -/
  structural : Bool := false
  sizing : BracketSizing := .auto
deriving DecidableEq, Repr

/-- The markup of an equation. -/
def toMarkup (t : SymbolTable) (config : WriteConfig) (ns : List Node) : Except Fault Text := do
  let settings : Writing.Settings :=
    { table := t, structural := config.structural, sizing := config.sizing,
      maxDepth := maxBracketDepth ns }
  return Writing.trimMarkup (← Writing.writePieces settings false (ns.map (Writing.piece settings)))

end Formula
