import Formula.Document.Json
import Formula.Document.Yaml.Mark

/-!
# YAML scalars in one line or several

A plain scalar is read up to where it ends in its context, and goes on over the ends of lines
if the next lines are indented enough.  A quoted scalar is read up to its closing quote.
Where lines end inside a scalar, they are folded: a single end of line counts as a space.
-/

namespace Formula.Yaml

/-- What the ends of lines between two parts of a scalar count as: a single one counts as a
space, and of several the first is dropped.  A line or paragraph separator is kept. -/
def foldBreaks : Text → Text
  | [] => []
  | first :: more =>
    if first ≠ '\n' then first :: more else if more.isEmpty then [' '] else more

/-! ### Plain scalars -/

/-- The characters that no plain scalar begins with, at least when a gap follows. -/
def indicators : Text := "-?:,[]\x7b\x7d#&*!|>'\"%@`".toList

/-- Whether a plain scalar begins here. -/
def beginsPlain (inFlow : Bool) (ms : List Mark) : Bool :=
  let c := next ms
  (!isGap c && !indicators.contains c)
    || (!isGap (next (ms.drop 1)) && (c = '-' || (!inFlow && (c = '?' || c = ':'))))

/-- Whether a run of a plain scalar ends here.  A colon ends it if a gap follows, or inside a
flow collection one of the characters of such collections. -/
def endsRun (inFlow : Bool) (ms : List Mark) : Bool :=
  let c := next ms
  let after := next (ms.drop 1)
  isGap c
    || (c = ':' && (isGap after || (inFlow && ",[]\x7b\x7d".toList.contains after)))
    || (inFlow && ",?[]\x7b\x7d".toList.contains c)

/-- A run of a plain scalar, with what follows. -/
def run (inFlow : Bool) : List Mark → Text × List Mark
  | [] => ([], [])
  | m :: rest =>
    if endsRun inFlow (m :: rest) then ([], m :: rest)
    else
      let (s, left) := run inFlow rest
      (m.char :: s, left)

/-- What follows a run of a plain scalar. -/
structure Pause where
  /-- What the pause counts as, if the scalar goes on after it. -/
  text : Text
  /-- Whether a line ends in the pause. -/
  endsLine : Bool
  rest : List Mark

/-- The ends of lines here, with the spaces between them left out, and what follows.  A document
marker after one of them ends the scalar, and no ends of lines are given. -/
def breaksOfPlain : List Mark → Option Text × List Mark
  | [] => (some [], [])
  | m :: rest =>
    if isBreak m.char then
      if isBoundary rest then (none, rest)
      else
        let (more, left) := breaksOfPlain rest
        (more.map (keptBreak m.char :: ·), left)
    else if m.char = ' ' then breaksOfPlain rest
    else (some [], m :: rest)

/-- The pause that stands here. -/
def pause (ms : List Mark) : Pause :=
  let rest := skipSpaces ms
  if isBreak (next rest) then
    let (breaks, left) := breaksOfPlain rest
    { text := (breaks.map foldBreaks).getD [], endsLine := true, rest := left }
  else { text := chars (ms.takeWhile (·.char = ' ')), endsLine := false, rest }

/-- The plain scalar that stands here, in a block that is indented by `indent`, and the pause
after it. -/
def plain (inFlow : Bool) (indent : Int) : (fuel : Nat) → List Mark → Text × Pause
  | 0, ms => ([], ⟨[], false, ms⟩)
  | fuel + 1, ms =>
    let (first, rest) := run inFlow ms
    let p := pause rest
    let goesOn := !p.text.isEmpty && next p.rest ≠ '#' && !endsRun inFlow p.rest
      && (inFlow || indent < (here p.rest).column)
    if goesOn then
      let (more, last) := plain inFlow indent fuel p.rest
      (first ++ p.text ++ more, last)
    else (first, p)

/-! ### Quoted scalars -/

/-- The character that a letter stands for after a backslash. -/
def escaped? : Char → Option Char
  | '0' => some '\x00'
  | 'a' => some '\x07'
  | 'b' => some '\x08'
  | 't' => some '\t'
  | '\t' => some '\t'
  | 'n' => some '\n'
  | 'v' => some '\x0B'
  | 'f' => some '\x0C'
  | 'r' => some '\r'
  | 'e' => some '\x1B'
  | ' ' => some ' '
  | '"' => some '"'
  | '\\' => some '\\'
  | '/' => some '/'
  | 'N' => some '\x85'
  | '_' => some '\xA0'
  | 'L' => some '\u2028'
  | 'P' => some '\u2029'
  | _ => none

/-- The number of hexadecimal digits after a letter after a backslash. -/
def escapeWidth? : Char → Option Nat
  | 'x' => some 2
  | 'u' => some 4
  | 'U' => some 8
  | _ => none

/-- The ends of lines here, with the blanks between them left out, and what follows.  There may
be no document marker among them. -/
def breaksOfQuoted? : List Mark → Option (Text × List Mark)
  | [] => some ([], [])
  | m :: rest =>
    if isBoundary (m :: rest) then none
    else if isBreak m.char then
      (breaksOfQuoted? rest).map fun (breaks, left) => (keptBreak m.char :: breaks, left)
    else if m.char = ' ' || m.char = '\t' then breaksOfQuoted? rest
    else some ([], m :: rest)

/-- The bound for the numbers of escapes.  Those below it are looked up among the characters, even
if there is none; those from it on are a flaw of their own. -/
def escapeBound : Nat := 0x80000000

/-- The character of an escape, given its hexadecimal digits. -/
def escapedChar (digits : Text) : Except Flaw Char := do
  let n ← readable (Json.hexNumber? digits)
  if escapeBound ≤ n then throw .escapeTooGreat
  readable (Json.charOf? n)

/-- What an escape stands for, given what follows its backslash, and what follows the escape.
The end of a line is dropped with the blanks after it. -/
def escape (ms : List Mark) : Except Flaw (Text × List Mark) :=
  let rest := ms.drop 1
  match escaped? (next ms), escapeWidth? (next ms) with
  | some c, _ => .ok ([c], rest)
  | none, some width => do return ([← escapedChar (chars (rest.take width))], rest.drop width)
  | none, none => if isBreak (next ms) then readable (breaksOfQuoted? rest) else .error .unreadable

/-- What the blanks and ends of lines here count as in a quoted scalar, and what follows. -/
def quotedPause? (ms : List Mark) : Option (Text × List Mark) :=
  let isBlank (m : Mark) := m.char = ' ' || m.char = '\t'
  let rest := ms.dropWhile isBlank
  if isBreak (next rest) then
    (breaksOfQuoted? rest).map fun (breaks, left) => (foldBreaks breaks, left)
  else some (chars (ms.takeWhile isBlank), rest)

/-- The rest of a quoted scalar, and what follows its closing quote.  In single quotes a quote
is written twice, and a backslash is nothing special. -/
def quoted (quote : Char) : (fuel : Nat) → List Mark → Except Flaw (Text × List Mark)
  | 0, _ => .error .unreadable
  | fuel + 1, ms =>
    let c := next ms
    let rest := ms.drop 1
    if c = endOfText then .error .unreadable
    else if c = quote then
      if quote = '\'' && next rest = quote then goOn fuel [quote] (rest.drop 1)
      else .ok ([], rest)
    else if c = '\\' && quote = '"' then do
      let (s, left) ← escape rest
      goOn fuel s left
    else if isGap c then do
      let (s, left) ← readable (quotedPause? ms)
      goOn fuel s left
    else goOn fuel [c] rest
where
  /-- Reads on after a part of the scalar. -/
  goOn (fuel : Nat) (s : Text) (ms : List Mark) : Except Flaw (Text × List Mark) :=
    (quoted quote fuel ms).map fun (more, left) => (s ++ more, left)

end Formula.Yaml
