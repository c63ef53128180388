import Formula.Document.Yaml.BlockScalar
import Formula.Document.Yaml.Property
import Formula.Document.Yaml.Scalar

/-!
# YAML tokens

A YAML text is cut into tokens.  Indentation becomes tokens that begin and end block
collections.  A key of a mapping is known as such only by the colon after it: every token
that can be a key is kept as a candidate while it stands on the current line, and when the
colon comes the tokens for a key are put before it.  A text that is not understood has no
tokens; any other flaw stands among the tokens, and counts only if they are read up to it.
-/

namespace Formula.Yaml

/-- A token of a YAML text. -/
inductive Token where
  | directive (d : Directive)
  | documentStart | documentEnd
  | blockListStart | blockMappingStart | blockEnd
  | flowListStart | flowListEnd | flowMappingStart | flowMappingEnd
  /-- The dash before an item of a block list. -/
  | item
  /-- The comma between the parts of a flow collection. -/
  | comma
  | key | value
  | alias (name : Text)
  | anchor (name : Text)
  | tag (name : TagName)
  | scalar (isPlain : Bool) (text : Text)
  /-- A flaw, after which nothing is read. -/
  | flaw (f : Flaw)
deriving DecidableEq, Repr

/-- A token that is a key if a colon follows it. -/
structure Candidate where
  /-- How many tokens there are before it. -/
  position : Nat
  /-- Whether it begins a line of a block mapping, where only keys can stand. -/
  required : Bool
  place : Mark

/-- How far from its beginning the colon after a key may be. -/
def maxKeyLength : Nat := 1024

/-- A text that is being cut into tokens. -/
structure Scan where
  /-- The length of the whole text, which no loop exceeds. -/
  size : Nat
  rest : List Mark
  /-- The tokens so far, the last one first, and their number. -/
  tokens : List Token := []
  count : Nat := 0
  /-- The columns of the block collections around, the innermost first. -/
  columns : List Nat := []
  /-- Whether a key may begin here. -/
  keyAllowed : Bool := true
  candidate : Option Candidate := none
  /-- The candidates outside of the flow collections around, the innermost first. -/
  outer : List (Option Candidate) := []

namespace Scan

/-- Whether a flow collection is around. -/
def inFlow (s : Scan) : Bool := !s.outer.isEmpty

/-- The column of the innermost block collection around, or -1 if there is none. -/
def indent (s : Scan) : Int := (s.columns.head?.map Int.ofNat).getD (-1)

/-- Adds a token, and reads on at `rest`. -/
def push (s : Scan) (t : Token) (rest : List Mark) : Scan :=
  { s with rest, tokens := t :: s.tokens, count := s.count + 1 }

/-- Puts a token before the one at a position. -/
def insertAt (s : Scan) (position : Nat) (t : Token) : Scan :=
  let (after, before) := s.tokens.splitAt (s.count - position)
  { s with tokens := after ++ t :: before, count := s.count + 1 }

/-! ### Candidates -/

/-- Gives up a candidate; one that is required cannot be given up. -/
def giveUp? : Option Candidate → Option Unit
  | some c => if c.required then none else some ()
  | none => some ()

/-- The scan without its candidate. -/
def dropCandidate? (s : Scan) : Option Scan := do
  giveUp? s.candidate
  return { s with candidate := none }

/-- Makes the token that begins here a candidate, if a key may begin here. -/
def saveCandidate? (s : Scan) : Option Scan := do
  if s.keyAllowed then
    let place := here s.rest
    let required := !s.inFlow && s.indent == place.column
    let s ← s.dropCandidate?
    return { s with candidate := some { position := s.count, required, place } }
  else return s

/-- Gives up the candidates that are on an earlier line or too far away. -/
def dropStale? (s : Scan) : Option Scan := do
  return { s with candidate := ← keep s.candidate, outer := ← s.outer.mapM keep }
where
  /-- The candidate, if it is still possible. -/
  keep (candidate : Option Candidate) : Option (Option Candidate) := do
    let stale := candidate.any fun c =>
      c.place.line ≠ (here s.rest).line || maxKeyLength + c.place.index < (here s.rest).index
    if stale then
      giveUp? candidate
      return none
    else return candidate

/-- How many tokens are settled: those before the first candidate. -/
def settled (s : Scan) : Nat :=
  ((s.candidate :: s.outer).filterMap id).foldl (fun n c => min n c.position) s.count

/-! ### Indentation -/

/-- Ends the block collections that are indented by more than `column`. -/
def unwind (s : Scan) (column : Int) : Scan :=
  if s.inFlow then s
  else
    let isEnded (c : Nat) := decide (column < c)
    let ended := s.columns.takeWhile isEnded
    { s with
      columns := s.columns.dropWhile isEnded
      tokens := List.replicate ended.length .blockEnd ++ s.tokens
      count := s.count + ended.length }

/-- Begins a block collection in a column with a token at a position, unless the collection has
begun already. -/
def openBlock (s : Scan) (column position : Nat) (t : Token) : Scan :=
  if s.indent < column then
    { s.insertAt position t with columns := column :: s.columns }
  else s

/-! ### Single tokens -/

/-- The marker at the beginning or the end of a document. -/
def documentMarker? (s : Scan) (t : Token) : Option Scan := do
  let s ← (s.unwind (-1)).dropCandidate?
  return { s.push t (s.rest.drop 3) with keyAllowed := false }

/-- A directive. -/
def directive? (s : Scan) : Option Scan := do
  let s ← (s.unwind (-1)).dropCandidate?
  let (d, rest) ← Yaml.directive? (s.rest.drop 1)
  return { s.push (.directive d) rest with keyAllowed := false }

/-- The beginning of a flow collection, which may be a key. -/
def flowStart? (s : Scan) (t : Token) : Option Scan := do
  let s ← s.saveCandidate?
  return { s.push t (s.rest.drop 1) with
    candidate := none, outer := s.candidate :: s.outer, keyAllowed := true }

/-- The end of a flow collection. -/
def flowEnd? (s : Scan) (t : Token) : Option Scan :=
  match s.outer with
  | candidate :: outer =>
    some { s.push t (s.rest.drop 1) with candidate, outer, keyAllowed := false }
  | [] => none

/-- The comma in a flow collection. -/
def comma? (s : Scan) : Option Scan := do
  let s ← s.dropCandidate?
  return { s.push .comma (s.rest.drop 1) with keyAllowed := true }

/-- An indicator that may begin a block collection: the dash of an item, or the question mark
of a key that is written out. -/
def blockIndicator? (s : Scan) (start t : Token) (keyAllowed : Bool) : Option Scan := do
  if !s.inFlow && !s.keyAllowed then none
  let s := if s.inFlow then s else s.openBlock (here s.rest).column s.count start
  let s ← s.dropCandidate?
  return { s.push t (s.rest.drop 1) with keyAllowed }

/-- The colon before a value.  With a candidate it makes that a key, and otherwise it belongs to
a key that is written out. -/
def value? (s : Scan) : Option Scan :=
  match s.candidate with
  | some c =>
    let s := s.insertAt c.position .key
    let s := if s.inFlow then s else s.openBlock c.place.column c.position .blockMappingStart
    some { s.push .value (s.rest.drop 1) with candidate := none, keyAllowed := false }
  | none => s.blockIndicator? .blockMappingStart .value (!s.inFlow)

/-- A property or an alias, which may begin a key. -/
def property? (s : Scan) (t : Token) (rest : List Mark) : Option Scan := do
  return { (← s.saveCandidate?).push t rest with keyAllowed := false }

/-- A block scalar. -/
def blockScalar? (s : Scan) (folded : Bool) : Option Scan := do
  let s ← s.dropCandidate?
  let (text, rest) ← Yaml.blockScalar? folded s.indent (s.rest.drop 1)
  return { s.push (.scalar false text) rest with keyAllowed := true }

/-- A quoted scalar, which may be a key. -/
def quoted (s : Scan) (quote : Char) : Except Flaw Scan := do
  let s ← readable s.saveCandidate?
  let (text, rest) ← Yaml.quoted quote s.size (s.rest.drop 1)
  return { s.push (.scalar false text) rest with keyAllowed := false }

/-- A plain scalar, which may be a key.  After the end of a line a key may begin again. -/
def plain? (s : Scan) : Option Scan := do
  let s ← s.saveCandidate?
  let (text, pause) := Yaml.plain s.inFlow s.indent s.size s.rest
  return { s.push (.scalar true text) pause.rest with keyAllowed := pause.endsLine }

/-- Reads the token that begins here with a character, unless it is a quoted scalar. -/
def token? (s : Scan) (c : Char) : Option Scan :=
  let rest := s.rest.drop 1
  let gapFollows := isGap (next rest)
  if c = '%' && (here s.rest).column = 0 then s.directive?
  else if isMarker '-' s.rest then s.documentMarker? .documentStart
  else if isMarker '.' s.rest then s.documentMarker? .documentEnd
  else if c = '[' then s.flowStart? .flowListStart
  else if c = '{' then s.flowStart? .flowMappingStart
  else if c = ']' then s.flowEnd? .flowListEnd
  else if c = '}' then s.flowEnd? .flowMappingEnd
  else if c = ',' then s.comma?
  else if c = '-' && gapFollows then s.blockIndicator? .blockListStart .item true
  else if c = '?' && (s.inFlow || gapFollows) then
    s.blockIndicator? .blockMappingStart .key (!s.inFlow)
  else if c = ':' && (s.inFlow || gapFollows) then s.value?
  else if c = '*' then (anchor? rest).bind fun (name, rest) => s.property? (.alias name) rest
  else if c = '&' then (anchor? rest).bind fun (name, rest) => s.property? (.anchor name) rest
  else if c = '!' then (tag? s.rest).bind fun (name, rest) => s.property? (.tag name) rest
  else if (c = '|' || c = '>') && !s.inFlow then s.blockScalar? (c = '>')
  else if beginsPlain s.inFlow s.rest then s.plain?
  else none

/-- Reads the token that begins here with a character. -/
def token (s : Scan) (c : Char) : Except Flaw Scan :=
  if c = '\'' || c = '"' then s.quoted c else readable (s.token? c)

/-- The tokens so far, where a flaw comes after those that are settled. -/
def endWith (s : Scan) (f : Flaw) : List Token :=
  (s.insertAt s.settled (.flaw f)).tokens.reverse

/-- Reads the tokens from here to the end of the text, or to a flaw.  What is settled before the
gap is settled where the token after it has a flaw. -/
def run? : (fuel : Nat) → Scan → Option (List Token)
  | 0, _ => none
  | fuel + 1, s => do
    let before ← s.dropStale?
    let (lineEnds, rest) := skipGap s.size s.rest
    let keyAllowed := s.keyAllowed || (lineEnds && !s.inFlow)
    let s ← { before with rest, keyAllowed }.dropStale?
    let s := s.unwind (here s.rest).column
    if next s.rest = endOfText then
      let s ← (s.unwind (-1)).dropCandidate?
      return s.tokens.reverse
    else
      match s.token (next s.rest) with
      | .ok s => run? fuel s
      | .error .unreadable => none
      | .error f => return before.endWith f

end Scan

/-- The tokens of a YAML text, if it can be cut into tokens. -/
def tokens? (s : Text) : Option (List Token) :=
  let ms := marks s
  Scan.run? ms.length { size := ms.length, rest := ms }

end Formula.Yaml
