import Formula.Command.Symbol
import Formula.Document.Json
import Formula.Document.Yaml.Value
import Formula.Fault

/-!
# Symbol files

A symbol file declares further symbols: its document is a mapping with an entry `symbols`, a
mapping from commands to descriptions.  A file that cannot be read, or whose descriptions are
not usable, leaves the built-in symbols as they are.  Loading takes the reader of YAML texts
as it is given; the reader of JSON texts is fixed.
-/

namespace Formula

/-- A file by its name and its bytes; there are none if the file does not exist. -/
structure SymbolFile where
  name : Text
  content : Option ByteArray

namespace SymbolFile

/-- The ending of a file name from its last point on.  A point at the beginning or at the end
of the name does not make an ending. -/
def ending (name : Text) : Text :=
  let last := (name.reverse.takeWhile (· ≠ '.')).reverse
  if last.isEmpty || name.length < last.length + 2 then [] else '.' :: last

/-- Whether the file is read as YAML; any other file is read as JSON. -/
def isYaml (file : SymbolFile) : Bool :=
  [".yaml".toList, ".yml".toList].contains (ending file.name)

/-- The text with every end of line written as a single line feed. -/
def unifyLines : Text → Text
  | '\r' :: '\n' :: rest => '\n' :: unifyLines rest
  | c :: rest => (if c = '\r' then '\n' else c) :: unifyLines rest
  | [] => []

/-- The text of the file, if its bytes are well-formed. -/
def text? (file : SymbolFile) : Option Text := do
  return unifyLines (← String.fromUTF8? (← file.content)).toList

/-- What the file holds, where a YAML text is read with `ofYaml`. -/
def read (ofYaml : Text → Except Yaml.Flaw Content) (file : SymbolFile) :
    Except Yaml.Flaw Content := do
  let s ← Yaml.readable file.text?
  if file.isYaml then ofYaml s else Yaml.readable (Content.ofJson? s)

/-! ### Declarations -/

/-- What a description says of a symbol, which is all but its command. -/
structure Description where
  glyph : Text
  italic : Bool
  category : Text
  spaced : Bool
  largeOperator : Bool := false
deriving DecidableEq, Repr

/-- What is described in the entries of a mapping. -/
def describe? (parts : Parts) (d : Document) : Option Description := do
  let entries ← d.entries? parts
  let flag (key : String) := (Document.lookup key.toList entries).any (Document.holds parts)
  let glyph ← (← Document.lookup "unicode".toList entries).write parts
  let category ←
    ((Document.lookup "category".toList entries).getD (.atom (.text "custom".toList))).write parts
  return { glyph, italic := flag "italic", category, spaced := flag "operator" }

/-- The entries for symbols of a document.  A document that holds nothing has none. -/
def listed? (c : Content) : Option (List (Atom × Document)) :=
  if c.root.holds c.parts then do
    match Document.lookup "symbols".toList (← c.root.entries? c.parts) with
    | some d => d.entries? c.parts
    | none => some []
  else some []

/-- The descriptions that a document declares, with their commands. -/
def declarations? (c : Content) : Option (List (Atom × Description)) := do
  (← listed? c).mapM fun (command, d) => return (command, ← describe? c.parts d)

/-- Whether a value can be the command of a symbol. -/
def isCommand : Atom → Bool
  | .text _ => true
  | .bytes _ => true
  | _ => false

/-! ### Known symbols -/

/-- A symbol by its command. -/
def entry (info : SymbolInfo) : Atom × Description :=
  (.text info.command,
    { glyph := info.glyph, italic := info.italic, category := info.category, spaced := info.spaced
      largeOperator := info.largeOperator })

/-- The symbol of a description and a text that is its command. -/
def Description.symbol (d : Description) (command : Text) : SymbolInfo :=
  { command, glyph := d.glyph, italic := d.italic, category := d.category, spaced := d.spaced
    largeOperator := d.largeOperator }

/-- The symbol of an entry, if its command is a text. -/
def symbol? : Atom × Description → Option SymbolInfo
  | (.text command, d) => some (d.symbol command)
  | _ => none

@[simp]
theorem symbol?_entry (info : SymbolInfo) :
  symbol? (entry info) = some info
  := rfl

/-- The descriptions after some more declarations. -/
def declare (known declarations : List (Atom × Description)) : List (Atom × Description) :=
  declarations.foldl (fun known (command, d) => Document.put command d known) known

theorem symbol?_of_ne {command : Atom} {d : Description} (h : ∀ s, command ≠ .text s) :
  symbol? (command, d) = none
  := by
  cases command with
  | text s => exact absurd rfl (h s)
  | _ => rfl

/-- A symbol whose command is a text is declared as in a table. -/
theorem symbol?_put_text (s : Text) (d : Description) (known : List (Atom × Description)) :
  (Document.put (.text s) d known).filterMap symbol?
    = SymbolTable.declare (known.filterMap symbol?) (d.symbol s)
  := by
  induction known with
  | nil => rfl
  | cons first known ih =>
    obtain ⟨k, e⟩ := first
    simp only [Document.put, Atom.isSame_text_iff]
    split
    · rename_i hk
      subst hk
      simp [symbol?, Description.symbol, SymbolTable.declare]
    · rename_i hk
      by_cases htext : ∃ t, k = .text t
      · obtain ⟨t, rfl⟩ := htext
        have ht : t ≠ s := fun h => hk (congrArg Atom.text h)
        rw [List.filterMap_cons, ih]
        simp [symbol?, Description.symbol, SymbolTable.declare, ht]
      · have hnone := symbol?_of_ne (d := e) fun t ht => htext ⟨t, ht⟩
        rw [List.filterMap_cons_none hnone, List.filterMap_cons_none hnone, ih]

/-- A symbol whose command is no text is not seen in a table. -/
theorem symbol?_put_of_ne {command : Atom} (h : ∀ s, command ≠ .text s) (d : Description)
    (known : List (Atom × Description)) :
  (Document.put command d known).filterMap symbol? = known.filterMap symbol?
  := by
  induction known with
  | nil => rw [Document.put, List.filterMap_cons_none (symbol?_of_ne h)]
  | cons first known ih =>
    obtain ⟨k, e⟩ := first
    rw [Document.put]
    split
    · rename_i hk
      have hne : ∀ s, k ≠ .text s := by
        rintro s rfl
        exact h s (Atom.text_isSame_iff.1 hk)
      rw [List.filterMap_cons_none (symbol?_of_ne hne), List.filterMap_cons_none (symbol?_of_ne hne)]
    · rw [List.filterMap_cons, List.filterMap_cons, ih]

/-- The symbols whose commands are texts are declared as in a table. -/
theorem symbol?_declare (known declarations : List (Atom × Description)) :
  (declare known declarations).filterMap symbol?
    = (declarations.filterMap symbol?).foldl SymbolTable.declare (known.filterMap symbol?)
  := by
  induction declarations generalizing known with
  | nil => rfl
  | cons first declarations ih =>
    obtain ⟨command, d⟩ := first
    rw [declare, List.foldl_cons, ← declare, ih]
    by_cases htext : ∃ s, command = .text s
    · obtain ⟨s, rfl⟩ := htext
      rw [symbol?_put_text]
      rfl
    · have hne : ∀ s, command ≠ .text s := fun s hs => htext ⟨s, hs⟩
      rw [symbol?_put_of_ne hne, List.filterMap_cons_none (symbol?_of_ne hne)]

/-- The symbols that are known after loading.  A command may be bytes, which stand in no markup,
but its symbol is known like any other. -/
structure Loaded where
  /-- The descriptions by their commands, in order of declaration. -/
  symbols : List (Atom × Description)
  /-- The table by which markup is read and written.  What a command of bytes does to the writing
  of its glyph is left out. -/
  table : SymbolTable
  /-- The table holds the symbols whose commands are texts. -/
  table_symbols : table.symbols = symbols.filterMap symbol?

namespace Loaded

/-- The built-in symbols and further ones. -/
def withExtra (extra : List (Atom × Description)) : Loaded where
  symbols := declare [] ((builtinGroups.flatMap SymbolGroup.symbols).map entry ++ extra)
  table := .withExtra (extra.filterMap symbol?)
  table_symbols := by
    rw [symbol?_declare, List.filterMap_append, List.filterMap_map]
    simp [Function.comp_def, SymbolTable.withExtra, SymbolTable.ofList]

/-- The built-in symbols. -/
def builtin : Loaded := .withExtra []

variable (l : Loaded)

/-- The command that a glyph is written with: the first one of that glyph. -/
def commandFor? (glyph : Text) : Option Atom :=
  (l.symbols.find? fun (_, d) => d.glyph = glyph && !d.largeOperator).map (·.1)

/-- The table of the descriptions, in which glyphs are looked up and commands do not count. -/
def glyphTable : SymbolTable := { symbols := l.symbols.map fun (_, d) => d.symbol [] }

/-- Whether a text is an operator. -/
def isOperator (glyph : Text) : Bool := l.glyphTable.isOperator glyph

/-- Whether a text is slanted when nothing says otherwise. -/
def isDefaultItalic (glyph : Text) : Bool := l.glyphTable.isDefaultItalic glyph

end Loaded

/-! ### Loading -/

/-- The built-in symbols and those of the file, where a YAML text is read with `ofYaml`.  The
second component tells whether the file was usable. -/
def load (ofYaml : Text → Except Yaml.Flaw Content) (file : SymbolFile) :
    Except Fault (Loaded × Bool) :=
  match file.read ofYaml with
  | .error .escapeTooGreat => .error .numeralTooGreat
  | .error .noDigits => .error .emptyNumeral
  | .error .tooGreat => .error .numeralTooGreat
  | .error .endless => .error .endlessDefault
  | .error .unreadable => .ok (.builtin, false)
  | .ok content =>
    match declarations? content with
    | none => .ok (.builtin, false)
    | some declarations =>
      if declarations.all fun (command, _) => isCommand command then
        .ok (.withExtra declarations, true)
      else .error .commandNotText

/-- The table of the built-in symbols and those of the file, and whether the file was usable. -/
def table (file : SymbolFile) : Except Fault (SymbolTable × Bool) := do
  let (loaded, usable) ← file.load Content.ofYaml
  return (loaded.table, usable)

end SymbolFile

end Formula
