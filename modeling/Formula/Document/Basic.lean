import Formula.Document.Slots

/-!
# Documents

The values that a data file holds: single values, and lists, sets and mappings of values.  A
mapping keeps its entries in order, and each key once.  A part of a document may have a
number, and stand in several places by it, even inside itself.
-/

namespace Formula

/-- A value of a data file. -/
inductive Document where
  | atom (a : Atom)
  | list (items : List Document)
  /-- A list of pairs, in which a key may stand several times. -/
  | pairs (entries : List (Document × Document))
  | set (members : List Atom)
  | mapping (entries : List (Atom × Document))
  /-- The part of a number. -/
  | part (i : Nat)

/-- The parts of a document by their numbers. -/
abbrev Parts := Array Document

/-- What a data file holds: a value, and its parts that have numbers. -/
structure Content where
  root : Document
  parts : Parts := #[]

namespace Document

/-- The value itself, where a number stands for its part. -/
def target (parts : Parts) : Document → Document
  | .part i => parts.getD i (.atom .null)
  | d => d

/-- Whether a value counts as true: nothing, zeros and everything empty do not. -/
def holds (parts : Parts) (d : Document) : Bool :=
  match d.target parts with
  | .atom a => a.holds
  | .list items => !items.isEmpty
  | .pairs entries => !entries.isEmpty
  | .set members => !members.isEmpty
  | .mapping entries => !entries.isEmpty
  | .part .. => true

/-- The entries of a mapping. -/
def entries? (parts : Parts) (d : Document) : Option (List (Atom × Document)) :=
  match d.target parts with
  | .mapping entries => some entries
  | _ => none

/-! ### Mappings and sets -/

/-- The entries after one more: a known key keeps its place and takes the new value. -/
def put {α : Type} (key : Atom) (value : α) : List (Atom × α) → List (Atom × α)
  | [] => [(key, value)]
  | (k, v) :: rest => if k.isSame key then (k, value) :: rest else (k, v) :: put key value rest

/-- The mapping of the given entries, put in one after the other. -/
def ofEntries (entries : List (Atom × Document)) : Document :=
  .mapping (entries.foldl (fun known (k, v) => put k v known) [])

/-- The value of a key in the entries of a mapping. -/
def lookup (key : Text) (entries : List (Atom × Document)) : Option Document :=
  (entries.find? fun (k, _) => k.isSame (.text key)).map (·.2)

/-- The set of the given values, each once. -/
def ofMembers (members : List Atom) : Document :=
  .set (Slots.arrange (members.foldl (fun known a =>
    if known.any (·.isSame a) then known else known ++ [a]) []))

/-! ### Writing -/

/-- Values between delimiters. -/
def enclosed (opening closing : String) (values : List Text) : Text :=
  opening.toList ++ Text.joinWith ", ".toList values ++ closing.toList

mutual

/-- The value as it stands inside other values, given how parts with numbers are written. -/
def writeWith (part : Nat → Option Text) : Document → Option Text
  | .atom a => a.writeInner
  | .list items => (writeItems part items).map (enclosed "[" "]")
  | .pairs entries => (writePairs part entries).map (enclosed "[" "]")
  | .set [] => some "set()".toList
  | .set members => (members.mapM Atom.writeInner).map (enclosed "\x7b" "\x7d")
  | .mapping entries => (writeEntries part entries).map (enclosed "\x7b" "\x7d")
  | .part i => part i

/-- The values of a list as they stand inside it. -/
def writeItems (part : Nat → Option Text) : List Document → Option (List Text)
  | [] => some []
  | d :: ds => do return (← writeWith part d) :: (← writeItems part ds)

/-- The pairs of a list as they stand inside it. -/
def writePairs (part : Nat → Option Text) : List (Document × Document) → Option (List Text)
  | [] => some []
  | (k, v) :: rest => do
    let pair := enclosed "(" ")" [← writeWith part k, ← writeWith part v]
    return pair :: (← writePairs part rest)

/-- The entries of a mapping as they stand inside it. -/
def writeEntries (part : Nat → Option Text) : List (Atom × Document) → Option (List Text)
  | [] => some []
  | (k, v) :: rest => do
    return ((← k.writeInner) ++ ": ".toList ++ (← writeWith part v)) :: (← writeEntries part rest)

end

/-- A value inside itself, which is not written again. -/
def writeAgain : Document → Text
  | .mapping _ => "\x7b...\x7d".toList
  | _ => "[...]".toList

/-- The value as it stands inside the parts `around` it.  At most `fuel` more parts are written
inside each other. -/
def writeInner (parts : Parts) : (fuel : Nat) → (around : List Nat) → Document → Option Text
  | 0, _ => writeWith fun i => some (writeAgain ((Document.part i).target parts))
  | fuel + 1, around =>
    writeWith fun i =>
      let d := (Document.part i).target parts
      if around.contains i then some (writeAgain d) else writeInner parts fuel (i :: around) d

/-- The value as a text: a text is itself, and other values are written out. -/
def write (parts : Parts) : Document → Option Text
  | .atom a => a.write
  | d => writeInner parts parts.size [] d

end Document

end Formula
