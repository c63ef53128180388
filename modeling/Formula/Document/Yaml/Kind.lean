import Formula.Document.Json
import Formula.Document.Numeral

/-!
# Kinds of YAML nodes

A tag of the language says of which kind a node is.  A plain scalar without a tag is of a
kind by its form: words for nothing and for truth values, integers in several bases, numbers
with a point, dates and times; all other plain scalars are texts.
-/

namespace Formula.Yaml

/-- The kinds of nodes. -/
inductive Kind where
  | null | bool | int | float | timestamp | binary | str
  | list | omap | pairs | set | map
  /-- The key that merges mappings into one. -/
  | merge
  /-- The key that names a default. -/
  | default
  /-- A kind of which there are no values. -/
  | unknown
deriving DecidableEq, Repr

namespace Kind

/-- The names of kinds in tags. -/
def names : List (String × Kind) :=
  [("null", .null), ("bool", .bool), ("int", .int), ("float", .float), ("timestamp", .timestamp),
    ("binary", .binary), ("str", .str), ("seq", .list), ("omap", .omap), ("pairs", .pairs),
    ("set", .set), ("map", .map), ("merge", .merge), ("value", .default)]

/-- The beginning of the tags of the language itself. -/
def tagStart : Text := "tag:yaml.org,2002:".toList

/-- The kind that a tag says. -/
def ofTag (tag : Text) : Kind :=
  (((Text.after? tagStart tag).bind fun name => names.lookup (String.ofList name))).getD .unknown

/-- Whether values of the kind are made of the values of other nodes. -/
def isCollection : Kind → Bool
  | .list | .omap | .pairs | .set | .map => true
  | _ => false

end Kind

/-! ### Forms of plain scalars -/

/-- Words in small letters, with a capital, and in capitals. -/
def cased (words : List String) : List Text :=
  words.flatMap fun w => [w.toList, w.capitalize.toList, w.toUpper.toList]

/-- Whether the text begins with an ASCII digit that is at least `least`. -/
def beginsWithDigit (least : Char) : Text → Bool
  | [] => false
  | c :: _ => Json.isDigit c && least ≤ c

/-- Whether the character may stand in a number in a base: a digit, or a low line, which means
nothing. -/
def isPlace (base : Nat) (c : Char) : Bool := c = '_' || (Json.hexValue? c).any (· < base)

/-- Whether the text is not empty and may stand in a number in a base. -/
def arePlaces (base : Nat) (s : Text) : Bool := !s.isEmpty && s.all (isPlace base)

/-- Whether the text is a number of sixties: one or two digits, below sixty. -/
def isSixties : Text → Bool
  | [c] => Json.isDigit c
  | [c, d] => Json.isDigit c && c ≤ '5' && Json.isDigit d
  | _ => false

/-- Whether the text is digits that do not begin with one below `least`, and groups of sixties
after colons. -/
def isGrouped (least : Char) (s : Text) : Bool :=
  match s.splitOn ':' with
  | first :: groups =>
    beginsWithDigit least first && first.all (isPlace 10) && groups.all isSixties
  | [] => false

/-- Whether the text has the form of an integer. -/
def isInteger (s : Text) : Bool :=
  match (Numeral.sign s).2 with
  | ['0'] => true
  | '0' :: 'b' :: digits => arePlaces 2 digits
  | '0' :: 'x' :: digits => arePlaces 16 digits
  | '0' :: digits => arePlaces 8 digits
  | s => isGrouped '1' s

/-- Whether the text is nothing, or a power of ten with a sign. -/
def isPower : Text → Bool
  | [] => true
  | e :: sign :: digits =>
    (e = 'e' || e = 'E') && (sign = '-' || sign = '+') && !digits.isEmpty
      && digits.all Json.isDigit
  | _ => false

/-- Whether the text has the form of a number with a point.  After groups of sixties there is no
power of ten, and without digits before the point there is no sign. -/
def isPointed (s : Text) : Bool :=
  let unsigned := (Numeral.sign s).2
  let whole := unsigned.takeWhile (· ≠ '.')
  match unsigned.dropWhile (· ≠ '.') with
  | '.' :: after =>
    let power := after.dropWhile (isPlace 10)
    if whole.isEmpty then
      unsigned.length = s.length && beginsWithDigit '0' after && isPower power
    else isGrouped '0' whole && if whole.contains ':' then power.isEmpty else isPower power
  | _ => false

/-- Whether the text has the form of a number: with a point, or one of the words for numbers that
are too great and for what is no number. -/
def isNumber (s : Text) : Bool :=
  isPointed s || [".nan".toList, ".NaN".toList, ".NAN".toList].contains s
    || (cased ["inf"]).any fun w => (Numeral.sign s).2 = '.' :: w

/-! ### Dates and times -/

/-- The parts of a date, perhaps with a time, as they are written. -/
structure Stamp where
  year : Text
  month : Text
  day : Text
  time : Option (Text × Text × Text × Text) := none
  /-- The sign, the hours and the minutes of a difference of clocks; `Z` stands for no
  difference. -/
  zone : Option (Bool × Text × Text) := none

namespace Stamp

/-- Between `least` and `most` digits, and what follows. -/
def digits? (least most : Nat) (s : Text) : Option (Text × Text) :=
  let ds := (s.take most).takeWhile Json.isDigit
  if ds.length < least then none else some (ds, s.drop ds.length)

/-- Whether the character is a space or a tab. -/
def isBlank (c : Char) : Bool := c = ' ' || c = '\t'

/-- What follows the letter or the blanks between a date and a time. -/
def afterDate? (s : Text) : Option Text :=
  match s with
  | 'T' :: rest => some rest
  | 't' :: rest => some rest
  | c :: _ => if isBlank c then some (s.dropWhile isBlank) else none
  | [] => none

/-- Reads the difference of clocks at the end of a time, if there is one. -/
def zone? (s : Text) : Option (Option (Bool × Text × Text)) :=
  if s.isEmpty then some none
  else
    match s.dropWhile isBlank with
    | ['Z'] => some (some (false, [], []))
    | c :: rest =>
      if c = '-' || c = '+' then do
        let (hours, rest) ← digits? 1 2 rest
        match rest with
        | [] => return some (c = '-', hours, [])
        | ':' :: rest =>
          let (minutes, rest) ← digits? 2 2 rest
          if rest.isEmpty then return some (c = '-', hours, minutes) else none
        | _ => none
      else none
    | [] => none

/-- Reads the time of a stamp whose date is known. -/
def withTime? (stamp : Stamp) (s : Text) : Option Stamp := do
  let (hour, rest) ← digits? 1 2 s
  let (minute, rest) ← digits? 2 2 (← Text.after? [':'] rest)
  let (second, rest) ← digits? 2 2 (← Text.after? [':'] rest)
  let (fraction, rest) :=
    match rest with
    | '.' :: rest => (rest.takeWhile Json.isDigit, rest.dropWhile Json.isDigit)
    | rest => ([], rest)
  return { stamp with time := some (hour, minute, second, fraction), zone := ← zone? rest }

/-- Reads a stamp. -/
def read? (s : Text) : Option Stamp := do
  let (year, rest) ← digits? 4 4 s
  let (month, rest) ← digits? 1 2 (← Text.after? ['-'] rest)
  let (day, rest) ← digits? 1 2 (← Text.after? ['-'] rest)
  if rest.isEmpty then return { year, month, day }
  else withTime? { year, month, day } (← afterDate? rest)

/-- Whether a plain scalar may be the stamp.  A date alone has two digits for its month and its
day. -/
def isFull (stamp : Stamp) : Bool :=
  stamp.time.isSome || (stamp.month.length = 2 && stamp.day.length = 2)

end Stamp

/-! ### Kinds by form -/

/-- The text without an end of line at its end. -/
def withoutLastBreak (s : Text) : Text :=
  if s.getLast? = some '\n' then s.dropLast else s

/-- The kind of a scalar by its form.  An end of line at the end of a form means nothing. -/
def Kind.ofForm (s : Text) : Kind :=
  let form := withoutLastBreak s
  if s.isEmpty then .null
  else if (cased ["yes", "no", "true", "false", "on", "off"]).contains form then .bool
  else if isNumber form then .float
  else if isInteger form then .int
  else if form = ['<', '<'] then .merge
  else if form = ['~'] || (cased ["null"]).contains form then .null
  else if (Stamp.read? form).any Stamp.isFull then .timestamp
  else if form = ['='] then .default
  else if [['!'], ['&'], ['*']].contains form then .unknown
  else .str

end Formula.Yaml
