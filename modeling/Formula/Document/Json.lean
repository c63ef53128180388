import Formula.Document.Basic

/-!
# Reading JSON

A JSON text holds one value, with blanks around it.  Beyond the standard, the words for the
numbers that are not finite are read.  Every reader takes the value at the beginning of a
text, and gives it with what follows.
-/

namespace Formula.Json

/-- Whether the character may stand between the parts of a value. -/
def isBlank (c : Char) : Bool := c = ' ' || c = '\t' || c = '\n' || c = '\r'

/-- The text from its first character that is not blank on. -/
def skip (s : Text) : Text := s.dropWhile isBlank

/-- The value of a hexadecimal digit. -/
def hexValue? (c : Char) : Option Nat :=
  if '0' ≤ c && c ≤ '9' then some (c.toNat - '0'.toNat)
  else if 'a' ≤ c && c ≤ 'f' then some (c.toNat - 'a'.toNat + 10)
  else if 'A' ≤ c && c ≤ 'F' then some (c.toNat - 'A'.toNat + 10)
  else none

/-- The number that hexadecimal digits write. -/
def hexNumber? (digits : Text) : Option Nat :=
  digits.foldlM (fun n c => (hexValue? c).map (16 * n + ·)) 0

/-- The number of the next four hexadecimal digits. -/
def fourDigits? (s : Text) : Option (Nat × Text) :=
  if s.length < 4 then none else (hexNumber? (s.take 4)).map fun n => (n, s.drop 4)

/-- Whether a number is the first half of a pair that writes one character. -/
def isHighHalf (n : Nat) : Bool := 0xD800 ≤ n && n < 0xDC00

/-- Whether a number is the second half of a pair that writes one character. -/
def isLowHalf (n : Nat) : Bool := 0xDC00 ≤ n && n < 0xE000

/-- The character that a number is the code point of.  Half of a pair is no character, so that a
text cannot hold it: it is read as the replacement character, and two texts that differ in such
halves only are not told apart. -/
def charOf? (n : Nat) : Option Char :=
  if n.isValidChar then some (Char.ofNat n)
  else if isHighHalf n || isLowHalf n then some '\uFFFD'
  else none

/-- The character that a number, or a pair of them, writes. -/
def escapedNumber? (s : Text) : Option (Char × Text) := do
  let (n, rest) ← fourDigits? s
  let second := if isHighHalf n then (Text.after? ['\\', 'u'] rest).bind fourDigits? else none
  match second.filter fun (low, _) => isLowHalf low with
  | some (low, rest) =>
    return (Char.ofNat (0x10000 + (n - 0xD800) * 0x400 + (low - 0xDC00)), rest)
  | none => return (← charOf? n, rest)

/-- The character that a letter stands for after a backslash. -/
def escapedLetter? : Char → Option Char
  | '"' => some '"'
  | '\\' => some '\\'
  | '/' => some '/'
  | 'b' => some '\x08'
  | 'f' => some '\x0C'
  | 'n' => some '\n'
  | 'r' => some '\r'
  | 't' => some '\t'
  | _ => none

/-- The characters up to the closing quote.  Control characters have to be escaped. -/
def quoted : (fuel : Nat) → Text → Option (Text × Text)
  | 0, _ => none
  | _ + 1, [] => none
  | fuel + 1, c :: cs =>
    if c = '"' then some ([], cs)
    else if c = '\\' then do
      let (e, rest) ← match cs with
        | 'u' :: digits => escapedNumber? digits
        | letter :: rest => (escapedLetter? letter).map (·, rest)
        | [] => none
      let (s, rest) ← quoted fuel rest
      return (e :: s, rest)
    else if c.toNat < 0x20 then none
    else do
      let (s, rest) ← quoted fuel cs
      return (c :: s, rest)

/-- Whether the character is an ASCII digit. -/
def isDigit (c : Char) : Bool := '0' ≤ c && c ≤ '9'

/-- The digits of an integer part: a zero alone, or digits that do not begin with zero. -/
def wholeDigits? (s : Text) : Option (Text × Text) :=
  match s with
  | '0' :: rest => some (['0'], rest)
  | c :: _ => if isDigit c then some (s.takeWhile isDigit, s.dropWhile isDigit) else none
  | [] => none

/-- The digits after a point, if there is a point with digits after it. -/
def fraction (s : Text) : Text × Text :=
  match s with
  | '.' :: rest =>
    let digits := rest.takeWhile isDigit
    if digits.isEmpty then ([], s) else (digits, rest.dropWhile isDigit)
  | _ => ([], s)

/-- The power of ten at the beginning of a text, if there is one with digits. -/
def power? (s : Text) : Option (Int × Text) :=
  match s with
  | c :: rest =>
    if c = 'e' || c = 'E' then
      let (negative, rest) :=
        match rest with
        | '-' :: rest => (true, rest)
        | '+' :: rest => (false, rest)
        | rest => (false, rest)
      let digits := rest.takeWhile isDigit
      if digits.isEmpty then none
      else
        let n : Int := Numeral.ofDigits (Numeral.leadingDigits digits)
        some (if negative then -n else n, rest.dropWhile isDigit)
    else none
  | [] => none

/-- The number at the beginning of a text.  Without a point and a power it is an integer. -/
def number? (s : Text) : Option (Document × Text) := do
  let (negative, unsigned) :=
    match s with
    | '-' :: rest => (true, rest)
    | s => (false, s)
  let (whole, rest) ← wholeDigits? unsigned
  let (digits, rest) := fraction rest
  match digits, power? rest with
  | [], none => do
    let n ← (Numeral.read whole).toOption
    return (.atom (.integer (if negative then -(n : Int) else n)), rest)
  | digits, exponent =>
    let (power, rest) := exponent.getD (0, rest)
    let significand := Numeral.ofDigits (Numeral.leadingDigits (whole ++ digits))
    return (.atom (.number (.ofDecimal negative significand (power - digits.length))), rest)

/-- The words for values. -/
def words : List (String × Atom) :=
  [("null", .null), ("true", .bool true), ("false", .bool false), ("NaN", .number .undefined),
    ("Infinity", .number (.infinite false)), ("-Infinity", .number (.infinite true))]

/-- The word at the beginning of a text. -/
def word? (s : Text) : Option (Document × Text) :=
  words.findSome? fun (word, a) => (Text.after? word.toList s).map (.atom a, ·)

mutual

/-- The value at the beginning of a text. -/
def value? : (fuel : Nat) → Text → Option (Document × Text)
  | 0, _ => none
  | fuel + 1, s =>
    match s with
    | '"' :: rest => (quoted (rest.length + 1) rest).map fun (t, rest) => (.atom (.text t), rest)
    | '[' :: rest =>
      match skip rest with
      | ']' :: rest => some (.list [], rest)
      | rest => (items? fuel rest).map fun (ds, rest) => (.list ds, rest)
    | '{' :: rest =>
      match skip rest with
      | '}' :: rest => some (.mapping [], rest)
      | rest => (entries? fuel rest).map fun (es, rest) => (.ofEntries es, rest)
    | s => (word? s).or (number? s)

/-- The values of a list up to its closing bracket. -/
def items? : (fuel : Nat) → Text → Option (List Document × Text)
  | 0, _ => none
  | fuel + 1, s => do
    let (d, rest) ← value? fuel s
    match skip rest with
    | ',' :: rest =>
      let (ds, rest) ← items? fuel (skip rest)
      return (d :: ds, rest)
    | ']' :: rest => return ([d], rest)
    | _ => none

/-- The entries of a mapping up to its closing brace. -/
def entries? : (fuel : Nat) → Text → Option (List (Atom × Document) × Text)
  | 0, _ => none
  | fuel + 1, s => do
    let (key, rest) ← quoted (s.length + 1) (← Text.after? ['"'] s)
    let (d, rest) ← value? fuel (skip (← Text.after? [':'] (skip rest)))
    match skip rest with
    | ',' :: rest =>
      let (es, rest) ← entries? fuel (skip rest)
      return ((.text key, d) :: es, rest)
    | '}' :: rest => return ([(.text key, d)], rest)
    | _ => none

end

end Formula.Json

namespace Formula

/-- What a JSON text holds. -/
def Content.ofJson? (s : Text) : Option Content := do
  let (root, rest) ← Json.value? (2 * s.length + 2) (Json.skip s)
  if (Json.skip rest).isEmpty then some { root } else none

end Formula
