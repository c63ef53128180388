import Formula.Document.Json
import Formula.Document.Yaml.Mark

/-!
# YAML properties and directives

A node may have an anchor, by which it is named again later, and a tag, which says what it
is.  A tag is written in full, or with a handle that stands for its beginning.  Directives
before a document give the version of the language and the meaning of handles.
-/

namespace Formula.Yaml

/-- A tag as it is written: its handle, unless it is written in full, and the rest. -/
structure TagName where
  handle : Option Text
  rest : Text
deriving DecidableEq, Repr

/-- The tag that says nothing. -/
def TagName.plain : TagName := { handle := none, rest := ['!'] }

/-- A directive before a document. -/
inductive Directive where
  /-- The version of the language, by its first number. -/
  | version (major : Nat)
  /-- The beginning of tags that a handle stands for. -/
  | handle (handle meaning : Text)
  | other
deriving DecidableEq, Repr

/-- Whether the character may stand in a name: an ASCII letter, an ASCII digit, or a line. -/
def isNameChar (c : Char) : Bool := c.isAlphanum || c = '-' || c = '_'

/-- The name here, if there is one, and what follows. -/
def name? (ms : List Mark) : Option (Text × List Mark) :=
  let name := chars (ms.takeWhile fun m => isNameChar m.char)
  if name.isEmpty then none else some (name, ms.drop name.length)

/-- The name of an anchor, and what follows.  Only a gap and some indicators may follow it. -/
def anchor? (ms : List Mark) : Option (Text × List Mark) := do
  let (name, rest) ← name? ms
  if isGap (next rest) || "?:,]\x7d%@`".toList.contains (next rest) then return (name, rest)
  else none

/-! ### Tags -/

/-- Whether the character may stand in a tag. -/
def isTagChar (c : Char) : Bool := c.isAlphanum || "-;/?:@&=+$,_.!~*'()[]".toList.contains c

/-- The bytes of the escapes here, each a percent sign and two hexadecimal digits, and what
follows. -/
def escapedBytes? : (fuel : Nat) → List Mark → Option (List UInt8 × List Mark)
  | 0, ms => some ([], ms)
  | fuel + 1, ms =>
    if next ms = '%' then do
      let n ← Json.hexNumber? (chars ((ms.drop 1).take 2))
      let (bytes, rest) ← escapedBytes? fuel (ms.drop 3)
      return (UInt8.ofNat n :: bytes, rest)
    else some ([], ms)

/-- The part of a tag here, and what follows.  The bytes of neighbouring escapes make up
characters. -/
def tagRun? : (fuel : Nat) → List Mark → Option (Text × List Mark)
  | 0, _ => none
  | fuel + 1, ms => do
    let run := chars (ms.takeWhile fun m => isTagChar m.char)
    let rest := ms.drop run.length
    if next rest = '%' then
      let (bytes, rest) ← escapedBytes? rest.length rest
      let escaped ← String.fromUTF8? ⟨bytes.toArray⟩
      let (more, rest) ← tagRun? fuel rest
      return (run ++ escaped.toList ++ more, rest)
    else return (run, rest)

/-- The part of a tag here, which is not empty, and what follows. -/
def tagPart? (ms : List Mark) : Option (Text × List Mark) :=
  (tagRun? ms.length ms).filter fun (part, _) => !part.isEmpty

/-- The handle here, between exclamation marks or a single one before a space, and what
follows. -/
def handle? (ms : List Mark) : Option (Text × List Mark) :=
  if next ms ≠ '!' then none
  else if next (ms.drop 1) = ' ' then some (['!'], ms.drop 1)
  else
    let name := chars ((ms.drop 1).takeWhile fun m => isNameChar m.char)
    if next (ms.drop (name.length + 1)) = '!' then
      some (['!'] ++ name ++ ['!'], ms.drop (name.length + 2))
    else none

/-- The tag here, given what follows its exclamation mark, and what follows the tag. -/
def writtenTag? (ms : List Mark) : Option (TagName × List Mark) :=
  let rest := ms.drop 1
  if next rest = '<' then do
    let (part, left) ← tagPart? (rest.drop 1)
    if next left = '>' then return ({ handle := none, rest := part }, left.drop 1) else none
  else if isGap (next rest) then some (.plain, rest)
  else if (rest.takeWhile fun m => !endsWord m.char).any (·.char = '!') then do
    let (handle, left) ← handle? ms
    let (part, left) ← tagPart? left
    return ({ handle := some handle, rest := part }, left)
  else do
    let (part, left) ← tagPart? rest
    return ({ handle := some ['!'], rest := part }, left)

/-- The tag here and what follows, where the next word has to begin after the tag. -/
def tag? (ms : List Mark) : Option (TagName × List Mark) := do
  let (tag, rest) ← writtenTag? ms
  if endsWord (next rest) then return (tag, rest) else none

/-! ### Directives -/

/-- The number here, whose digits are not too many, and what follows. -/
def digits? (ms : List Mark) : Option (Nat × List Mark) := do
  let digits := chars (ms.takeWhile (·.char.isDigit))
  return (← (Numeral.read digits).toOption, ms.drop digits.length)

/-- What a directive of a name says, and what follows it on its line. -/
def directiveBody? (name : Text) (ms : List Mark) : Option (Directive × List Mark) :=
  if name = "YAML".toList then do
    let (major, rest) ← digits? (skipSpaces ms)
    if next rest ≠ '.' then none
    let (_, rest) ← digits? (rest.drop 1)
    if endsWord (next rest) then return (.version major, rest) else none
  else if name = "TAG".toList then do
    let (handle, rest) ← handle? (skipSpaces ms)
    if next rest ≠ ' ' then none
    let (meaning, rest) ← tagPart? (skipSpaces rest)
    if endsWord (next rest) then return (.handle handle meaning, rest) else none
  else some (.other, ms.dropWhile fun m => !endsLine m.char)

/-- The directive here, given what follows its sign, and what follows its line. -/
def directive? (ms : List Mark) : Option (Directive × List Mark) := do
  let (name, rest) ← name? ms
  if endsWord (next rest) then
    let (directive, rest) ← directiveBody? name rest
    return (directive, ← skipLine? rest)
  else none

end Formula.Yaml
