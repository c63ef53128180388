import Formula.Document.Yaml.Mark

/-!
# YAML block scalars

A block scalar takes whole lines.  Its header says whether ends of lines are folded, how the
end of the scalar is treated, and perhaps by how much it is indented; without that the first
line that is not blank gives the indentation.
-/

namespace Formula.Yaml

/-- What becomes of the ends of lines at the end of a block scalar. -/
inductive Chomping where
  /-- All are dropped. -/
  | strip
  /-- The first is kept. -/
  | clip
  /-- All are kept. -/
  | keep
deriving DecidableEq, Repr

/-- The header of a block scalar. -/
structure BlockHeader where
  chomping : Chomping := .clip
  /-- By how much the scalar is indented more than what it stands in. -/
  step : Option Nat := none

namespace BlockHeader

/-- The chomping that a character of a header stands for. -/
def chomping? : Char → Option Chomping
  | '+' => some .keep
  | '-' => some .strip
  | _ => none

/-- The indentation that a character of a header stands for. -/
def step? (c : Char) : Option Nat :=
  if '1' ≤ c && c ≤ '9' then some (c.toNat - '0'.toNat) else none

/-- Reads a header, its two parts in either order, up to the end of its line. -/
def read? (ms : List Mark) : Option (BlockHeader × List Mark) := do
  let (header, rest) :=
    match chomping? (next ms), step? (next ms) with
    | some chomping, _ =>
      match step? (next (ms.drop 1)) with
      | some n => ({ chomping, step := some n : BlockHeader }, ms.drop 2)
      | none => ({ chomping }, ms.drop 1)
    | none, some n =>
      match chomping? (next (ms.drop 1)) with
      | some chomping => ({ chomping, step := some n }, ms.drop 2)
      | none => ({ step := some n }, ms.drop 1)
    | none, none => ({}, ms)
  if endsWord (next rest) then return (header, ← skipLine? rest) else none

end BlockHeader

/-- The ends of lines here, the greatest column that the spaces among them reach, and what
follows. -/
def blankLines : List Mark → Text × Nat × List Mark
  | [] => ([], 0, [])
  | m :: rest =>
    if isBreak m.char then
      let (breaks, column, left) := blankLines rest
      (keptBreak m.char :: breaks, column, left)
    else if m.char = ' ' then
      let (breaks, column, left) := blankLines rest
      (breaks, max column (m.column + 1), left)
    else ([], 0, m :: rest)

/-- The ends of lines here, where lines may begin with spaces up to the column `indent`, and what
follows. -/
def breaksInBlock (indent : Nat) : List Mark → Text × List Mark
  | [] => ([], [])
  | m :: rest =>
    if isBreak m.char then
      let (breaks, left) := breaksInBlock indent rest
      (keptBreak m.char :: breaks, left)
    else if m.char = ' ' && m.column < indent then breaksInBlock indent rest
    else ([], m :: rest)

/-- Whether a line of a block scalar that is indented by `indent` begins here. -/
def isInBlock (indent : Nat) (ms : List Mark) : Bool :=
  (here ms).column == indent && next ms ≠ endOfText

/-- Whether the line here begins with a blank. -/
def beginsBlank (ms : List Mark) : Bool := next ms = ' ' || next ms = '\t'

/-- What the end of a block scalar counts as: the end of its last line, and the blank lines
after it. -/
def chomp (chomping : Chomping) (last breaks : Text) : Text :=
  match chomping with
  | .strip => []
  | .clip => last
  | .keep => last ++ breaks

/-- The lines of a block scalar from here on, and what follows the scalar.  Two lines are folded
unless one of them begins with a blank. -/
def blockLines (folded : Bool) (chomping : Chomping) (indent : Nat) :
    (fuel : Nat) → List Mark → Text × List Mark
  | 0, ms => ([], ms)
  | fuel + 1, ms =>
    let isInLine (m : Mark) := !endsLine m.char
    let line := chars (ms.takeWhile isInLine)
    let (last, rest) := lineBreak (ms.dropWhile isInLine)
    let (breaks, rest) := breaksInBlock indent rest
    if isInBlock indent rest then
      let joint :=
        if folded && last = ['\n'] && !beginsBlank ms && !beginsBlank rest then
          if breaks.isEmpty then [' '] else breaks
        else last ++ breaks
      let (more, left) := blockLines folded chomping indent fuel rest
      (line ++ joint ++ more, left)
    else (line ++ chomp chomping last breaks, rest)

/-- The block scalar after its indicator, in a block that is indented by `indent`, and what
follows. -/
def blockScalar? (folded : Bool) (indent : Int) (ms : List Mark) :
    Option (Text × List Mark) := do
  let (header, rest) ← BlockHeader.read? ms
  let least := max (indent + 1) 1
  let (breaks, column, rest) :=
    match header.step with
    | some n =>
      let column := least.toNat + n - 1
      let (breaks, rest) := breaksInBlock column rest
      (breaks, column, rest)
    | none =>
      let (breaks, column, rest) := blankLines rest
      (breaks, max least.toNat column, rest)
  if isInBlock column rest then
    let (lines, left) := blockLines folded header.chomping column ms.length rest
    return (breaks ++ lines, left)
  else return (chomp header.chomping [] breaks, rest)

end Formula.Yaml
