import Formula.Document.SymbolFile
import Mathlib.Data.List.Forall2

/-!
# Loading symbol files

What becomes of a symbol file is decided in stages: its bytes are read as a document, the
document lists declarations, a declaration describes a symbol, and the commands of the
declarations have to be texts or bytes.  A failure before the last stage leaves the built-in
symbols.  In a JSON file every command is a text.  Any reader of YAML texts will do.
-/

namespace Formula

open Document

/-! ### Lists of values -/

/-- Values for the elements of a list make a list. -/
theorem exists_forall₂_iff {α β : Type} {R : α → β → Prop} {l : List α} :
  (∃ l', List.Forall₂ R l l') ↔ ∀ a ∈ l, ∃ b, R a b
  := by
  induction l with
  | nil => simp
  | cons a l ih =>
    rw [List.forall_mem_cons, ← ih]
    simp only [List.forall₂_cons_left_iff]
    constructor
    · rintro ⟨l', b, bs, hb, hbs, -⟩
      exact ⟨⟨b, hb⟩, bs, hbs⟩
    · rintro ⟨⟨b, hb⟩, bs, hbs⟩
      exact ⟨b :: bs, b, bs, hb, hbs, rfl⟩

/-- A list is mapped if every value is. -/
theorem mapM_eq_some_iff {α β : Type} {f : α → Option β} {l : List α} {l' : List β} :
  l.mapM f = some l' ↔ List.Forall₂ (fun a b => f a = some b) l l'
  := by
  induction l generalizing l' with
  | nil => simp [eq_comm]
  | cons a l ih =>
    rw [List.mapM_cons]
    simp only [Option.bind_eq_bind, Option.bind_eq_some_iff, ih, List.forall₂_cons_left_iff]
    constructor
    · rintro ⟨b, hb, bs, hbs, hl'⟩
      exact ⟨b, bs, hb, hbs, (Option.some.inj hl').symm⟩
    · rintro ⟨b, bs, hb, hbs, rfl⟩
      exact ⟨b, hb, bs, hbs, rfl⟩

/-! ### Keys of mappings -/

namespace Document

section

variable {α : Type} {P : Atom → Prop} {Q : α → Prop} {entries : List (Atom × α)}

/-- The keys and the values of entries have certain properties. -/
def EachEntry (P : Atom → Prop) (Q : α → Prop) (entries : List (Atom × α)) : Prop :=
  ∀ e ∈ entries, P e.1 ∧ Q e.2

theorem eachEntry_nil :
  EachEntry P Q []
  := List.forall_mem_nil _

theorem eachEntry_cons {key : Atom} {value : α} :
  EachEntry P Q ((key, value) :: entries) ↔ (P key ∧ Q value) ∧ EachEntry P Q entries
  := List.forall_mem_cons

/-- What entries have in common they keep when one more is put in. -/
theorem EachEntry.put {key : Atom} {value : α} (h : EachEntry P Q entries) (hkey : P key)
    (hvalue : Q value) :
  EachEntry P Q (put key value entries)
  := by
  induction entries with
  | nil => exact eachEntry_cons.2 ⟨⟨hkey, hvalue⟩, eachEntry_nil⟩
  | cons first rest ih =>
    obtain ⟨k, v⟩ := first
    obtain ⟨hfirst, hrest⟩ := eachEntry_cons.1 h
    rw [Document.put]
    split
    · apply eachEntry_cons.2 ⟨⟨hfirst.1, hvalue⟩, hrest⟩
    · apply eachEntry_cons.2 ⟨hfirst, ih hrest⟩

/-- What entries have in common they have when they are put in one after the other. -/
theorem EachEntry.foldl_put (h : EachEntry P Q entries) {known : List (Atom × α)}
    (hknown : EachEntry P Q known) :
  EachEntry P Q (entries.foldl (fun known (key, value) => Document.put key value known) known)
  := by
  induction entries generalizing known with
  | nil => exact hknown
  | cons first rest ih =>
    obtain ⟨key, value⟩ := first
    obtain ⟨hfirst, hrest⟩ := eachEntry_cons.1 h
    apply ih hrest
    apply hknown.put hfirst.1 hfirst.2

end

/-- A document without numbered parts, in which all keys are texts. -/
inductive HasTextKeys : Document → Prop
  | atom (a : Atom) : HasTextKeys (.atom a)
  | list {items : List Document} : (∀ d ∈ items, HasTextKeys d) → HasTextKeys (.list items)
  | mapping {entries : List (Atom × Document)} : (∀ e ∈ entries, ∃ s, e.1 = .text s) →
    (∀ e ∈ entries, HasTextKeys e.2) → HasTextKeys (.mapping entries)

/-- Entries with texts for their keys, and for the keys in their values. -/
abbrev TextEntries : List (Atom × Document) → Prop :=
  EachEntry (fun key => ∃ s, key = .text s) HasTextKeys

theorem TextEntries.ofEntries {entries : List (Atom × Document)} (h : TextEntries entries) :
  HasTextKeys (.ofEntries entries)
  := by
  have hall := h.foldl_put eachEntry_nil
  apply HasTextKeys.mapping
  · intro e he
    exact (hall e he).1
  · intro e he
    exact (hall e he).2

theorem HasTextKeys.textEntries {parts : Parts} {d : Document} {entries : List (Atom × Document)}
    (h : d.HasTextKeys) (hd : d.entries? parts = some entries) :
  TextEntries entries
  := by
  cases h with
  | mapping hkeys hvalues =>
    obtain rfl := Option.some.inj hd
    intro e he
    exact ⟨hkeys e he, hvalues e he⟩
  | _ => contradiction

/-- The value of a key is the value of an entry. -/
theorem exists_mem_of_lookup {key : Text} {entries : List (Atom × Document)} {d : Document}
    (h : lookup key entries = some d) :
  ∃ k, (k, d) ∈ entries
  := by
  obtain ⟨⟨k, _⟩, hfind, rfl⟩ := Option.map_eq_some_iff.1 h
  exact ⟨k, List.mem_of_find?_eq_some hfind⟩

end Document

namespace Json

theorem exists_atom_of_word? {s rest : Text} {d : Document} (h : word? s = some (d, rest)) :
  ∃ a, d = .atom a
  := by
  obtain ⟨⟨word, a⟩, -, hword⟩ := List.exists_of_findSome?_eq_some h
  obtain ⟨after, -, heq⟩ := Option.map_eq_some_iff.1 hword
  exact ⟨a, (Prod.mk.inj heq).1.symm⟩

theorem exists_atom_of_number? {s rest : Text} {d : Document} (h : number? s = some (d, rest)) :
  ∃ a, d = .atom a
  := by
  obtain ⟨⟨whole, after⟩, -, h⟩ := Option.bind_eq_some_iff.1 h
  dsimp only at h
  split at h
  · obtain ⟨n, -, h⟩ := Option.bind_eq_some_iff.1 h
    exact ⟨_, (Prod.mk.inj (Option.some.inj h)).1.symm⟩
  · exact ⟨_, (Prod.mk.inj (Option.some.inj h)).1.symm⟩

/-- What the three readers that call each other read has texts for its keys. -/
structure ReadsTextKeys (fuel : Nat) : Prop where
  value : ∀ s d rest, value? fuel s = some (d, rest) → d.HasTextKeys
  items : ∀ s ds rest, items? fuel s = some (ds, rest) → ∀ d ∈ ds, Document.HasTextKeys d
  entries : ∀ s es rest, entries? fuel s = some (es, rest) → TextEntries es

namespace ReadsTextKeys

variable {fuel : Nat} {s rest : Text}

theorem value_succ {d : Document} (ih : ReadsTextKeys fuel)
    (h : value? (fuel + 1) s = some (d, rest)) :
  d.HasTextKeys
  := by
  unfold value? at h
  split at h
  · obtain ⟨⟨t, after⟩, -, heq⟩ := Option.map_eq_some_iff.1 h
    obtain ⟨rfl, -⟩ := Prod.mk.inj heq
    apply HasTextKeys.atom
  · split at h
    · obtain ⟨rfl, -⟩ := Prod.mk.inj (Option.some.inj h)
      apply HasTextKeys.list (by simp)
    · obtain ⟨⟨ds, after⟩, hds, heq⟩ := Option.map_eq_some_iff.1 h
      obtain ⟨rfl, -⟩ := Prod.mk.inj heq
      apply HasTextKeys.list (ih.items _ _ _ hds)
  · split at h
    · obtain ⟨rfl, -⟩ := Prod.mk.inj (Option.some.inj h)
      apply HasTextKeys.mapping <;> simp
    · obtain ⟨⟨es, after⟩, hes, heq⟩ := Option.map_eq_some_iff.1 h
      obtain ⟨rfl, -⟩ := Prod.mk.inj heq
      apply (ih.entries _ _ _ hes).ofEntries
  · obtain ⟨a, rfl⟩ : ∃ a, d = .atom a := by
      rcases Option.or_eq_some_iff.1 h with hword | ⟨-, hnumber⟩
      · apply exists_atom_of_word? hword
      · apply exists_atom_of_number? hnumber
    apply HasTextKeys.atom

theorem items_succ {ds : List Document} (ih : ReadsTextKeys fuel)
    (h : items? (fuel + 1) s = some (ds, rest)) :
  ∀ d ∈ ds, Document.HasTextKeys d
  := by
  unfold items? at h
  obtain ⟨⟨d, after⟩, hd, h⟩ := Option.bind_eq_some_iff.1 h
  have hfirst := ih.value _ _ _ hd
  dsimp only at h
  split at h
  · obtain ⟨⟨ds', rest'⟩, hds, h⟩ := Option.bind_eq_some_iff.1 h
    obtain ⟨rfl, -⟩ := Prod.mk.inj (Option.some.inj h)
    apply List.forall_mem_cons.2 ⟨hfirst, ih.items _ _ _ hds⟩
  · obtain ⟨rfl, -⟩ := Prod.mk.inj (Option.some.inj h)
    apply List.forall_mem_singleton.2 hfirst
  · contradiction

theorem entries_succ {es : List (Atom × Document)} (ih : ReadsTextKeys fuel)
    (h : entries? (fuel + 1) s = some (es, rest)) :
  TextEntries es
  := by
  unfold entries? at h
  obtain ⟨quote, -, h⟩ := Option.bind_eq_some_iff.1 h
  obtain ⟨⟨key, after⟩, -, h⟩ := Option.bind_eq_some_iff.1 h
  obtain ⟨colon, -, h⟩ := Option.bind_eq_some_iff.1 h
  obtain ⟨⟨d, after⟩, hd, h⟩ := Option.bind_eq_some_iff.1 h
  have hfirst := ih.value _ _ _ hd
  dsimp only at h
  split at h
  · obtain ⟨⟨es', rest'⟩, hes, h⟩ := Option.bind_eq_some_iff.1 h
    obtain ⟨rfl, -⟩ := Prod.mk.inj (Option.some.inj h)
    apply eachEntry_cons.2 ⟨⟨⟨key, rfl⟩, hfirst⟩, ih.entries _ _ _ hes⟩
  · obtain ⟨rfl, -⟩ := Prod.mk.inj (Option.some.inj h)
    apply eachEntry_cons.2 ⟨⟨⟨key, rfl⟩, hfirst⟩, eachEntry_nil⟩
  · contradiction

end ReadsTextKeys

/-- The keys that are read are texts.  The induction is on the fuel that the readers hand on. -/
theorem readsTextKeys (fuel : Nat) : ReadsTextKeys fuel
  := by
  induction fuel with
  | zero => constructor <;> simp [value?, items?, entries?]
  | succ fuel ih =>
    constructor
    · intro s d rest h
      apply ih.value_succ h
    · intro s ds rest h
      apply ih.items_succ h
    · intro s es rest h
      apply ih.entries_succ h

end Json

/-- The keys of a document that is read from a JSON text are texts. -/
theorem Content.hasTextKeys_ofJson? {s : Text} {c : Content} (h : ofJson? s = some c) :
  c.root.HasTextKeys
  := by
  obtain ⟨⟨root, rest⟩, hroot, h⟩ := Option.bind_eq_some_iff.1 h
  dsimp only at h
  split at h
  · obtain rfl := Option.some.inj h
    exact (Json.readsTextKeys _).value _ _ _ hroot
  · contradiction

namespace SymbolFile

variable {c : Content} {parts : Parts} {description : Description}

/-! ### Declarations -/

/-- The entries of a mapping describe a symbol: its glyph, its category unless it is a custom
one, and its flags, which are off unless they are set. -/
structure Fields (parts : Parts) (entries : List (Atom × Document)) (description : Description) :
    Prop where
  glyph : ∃ d, lookup "unicode".toList entries = some d ∧ d.write parts = some description.glyph
  category :
    (lookup "category".toList entries = none ∧ description.category = "custom".toList)
      ∨ ∃ d, lookup "category".toList entries = some d
        ∧ d.write parts = some description.category
  italic : description.italic = true
    ↔ ∃ d, lookup "italic".toList entries = some d ∧ d.holds parts = true
  spaced : description.spaced = true
    ↔ ∃ d, lookup "operator".toList entries = some d ∧ d.holds parts = true
  largeOperator : description.largeOperator = false

/-- A value that describes a symbol is a mapping whose entries do so. -/
def Describes (parts : Parts) (d : Document) (description : Description) : Prop :=
  ∃ entries, d.entries? parts = some entries ∧ Fields parts entries description

/-- The entries for symbols that a document lists, if it does.  A document that holds nothing and
one without an entry for symbols list none. -/
inductive Lists (c : Content) : List (Atom × Document) → Prop
  | nothing : c.root.holds c.parts = false → Lists c []
  | undeclared {entries : List (Atom × Document)} : c.root.holds c.parts = true →
    c.root.entries? c.parts = some entries → lookup "symbols".toList entries = none → Lists c []
  | declared {entries ds : List (Atom × Document)} {d : Document} :
    c.root.holds c.parts = true → c.root.entries? c.parts = some entries →
    lookup "symbols".toList entries = some d → d.entries? c.parts = some ds → Lists c ds

/-- A document lists entries for symbols, and each of them describes one. -/
def Usable (c : Content) : Prop :=
  ∃ ds, Lists c ds ∧ ∀ d ∈ ds, ∃ description, Describes c.parts d.2 description

/-- An entry declares a symbol by its command. -/
def Declares (parts : Parts) (d : Atom × Document) (e : Atom × Description) : Prop :=
  e.1 = d.1 ∧ Describes parts d.2 e.2

/-- The category is the one that is given, and else the custom one. -/
theorem category_eq_some_iff {entries : List (Atom × Document)} {category : Text} :
  ((lookup "category".toList entries).getD (.atom (.text "custom".toList))).write parts
      = some category
    ↔ (lookup "category".toList entries = none ∧ category = "custom".toList)
      ∨ ∃ d, lookup "category".toList entries = some d ∧ d.write parts = some category
  := by
  cases lookup "category".toList entries with
  | none => simp [Document.write, Atom.write, eq_comm]
  | some d => simp

/-- A flag is set if it has a value that counts as true. -/
theorem flag_iff {entries : List (Atom × Document)} {key : Text} :
  (lookup key entries).any (Document.holds parts) = true
    ↔ ∃ d, lookup key entries = some d ∧ d.holds parts = true
  := by
  cases lookup key entries <;> simp

theorem describe?_eq_some_iff {d : Document} :
  describe? parts d = some description ↔ Describes parts d description
  := by
  simp only [describe?, Option.bind_eq_bind, Option.bind_eq_some_iff]
  constructor
  · rintro ⟨entries, hentries, u, hu, glyph, hglyph, category, hcategory, heq⟩
    obtain rfl := Option.some.inj heq
    exact ⟨entries, hentries, ⟨u, hu, hglyph⟩, category_eq_some_iff.1 hcategory, flag_iff, flag_iff,
      rfl⟩
  · rintro ⟨entries, hentries, hfields⟩
    obtain ⟨u, hu, hglyph⟩ := hfields.glyph
    refine ⟨entries, hentries, u, hu, _, hglyph, _, category_eq_some_iff.2 hfields.category, ?_⟩
    have hitalic := Bool.eq_iff_iff.2 (hfields.italic.trans flag_iff.symm)
    have hspaced := Bool.eq_iff_iff.2 (hfields.spaced.trans flag_iff.symm)
    have hlarge := hfields.largeOperator
    cases description
    subst hlarge
    simp only at hitalic hspaced
    rw [hitalic, hspaced]
    rfl

theorem lists_iff {ds : List (Atom × Document)} :
  Lists c ds ↔ listed? c = some ds
  := by
  constructor
  · intro h
    rw [listed?]
    cases h with
    | nothing hroot => rw [hroot]; rfl
    | undeclared hroot hentries hsymbols =>
      rw [if_pos hroot, hentries]
      simp only [Option.bind_eq_bind, Option.bind_some, hsymbols]
    | declared hroot hentries hsymbols hd =>
      rw [if_pos hroot, hentries]
      simp only [Option.bind_eq_bind, Option.bind_some, hsymbols, hd]
  · intro h
    rw [listed?] at h
    split at h
    · rename_i hroot
      obtain ⟨entries, hentries, hsymbols⟩ := Option.bind_eq_some_iff.1 h
      split at hsymbols
      · rename_i d hd
        apply Lists.declared hroot hentries hd hsymbols
      · rename_i hnone
        obtain rfl := Option.some.inj hsymbols
        apply Lists.undeclared hroot hentries hnone
    · rename_i hroot
      obtain rfl := Option.some.inj h
      apply Lists.nothing
      simpa using hroot

/-- An entry is read as the declaration that it makes. -/
theorem declares_iff {d : Atom × Document} {e : Atom × Description} :
  Declares parts d e ↔ (do return (d.1, ← describe? parts d.2) : Option _) = some e
  := by
  simp only [Declares, ← describe?_eq_some_iff, Option.bind_eq_bind, Option.bind_eq_some_iff]
  constructor
  · rintro ⟨hcommand, hdescription⟩
    exact ⟨e.2, hdescription, congrArg some (Prod.ext hcommand.symm rfl)⟩
  · rintro ⟨description, hdescription, he⟩
    obtain rfl := Option.some.inj he
    exact ⟨rfl, hdescription⟩

/-- A document declares what the entries declare that it lists. -/
theorem declarations?_eq_some_iff {extra : List (Atom × Description)} :
  declarations? c = some extra ↔ ∃ ds, Lists c ds ∧ List.Forall₂ (Declares c.parts) ds extra
  := by
  have hdeclares : Declares c.parts
      = fun d e => (do return (d.1, ← describe? c.parts d.2) : Option _) = some e := by
    funext d e
    exact propext declares_iff
  rw [declarations?, Option.bind_eq_bind, Option.bind_eq_some_iff]
  simp only [lists_iff, hdeclares, mapM_eq_some_iff]

/-- A document is usable if it declares anything, be it nothing at all. -/
theorem usable_iff :
  Usable c ↔ ∃ extra, declarations? c = some extra
  := by
  have hdeclares : ∀ d : Atom × Document,
      (∃ description, Describes c.parts d.2 description) ↔ ∃ e, Declares c.parts d e := by
    intro d
    constructor
    · rintro ⟨description, h⟩
      exact ⟨(d.1, description), rfl, h⟩
    · rintro ⟨e, -, h⟩
      exact ⟨e.2, h⟩
  simp only [declarations?_eq_some_iff, exists_comm (α := List (Atom × Description)),
    exists_and_left, exists_forall₂_iff, Usable, hdeclares]

/-! ### Known symbols

Where the commands of all further symbols are texts, glyphs are looked up among the known symbols
as they are in the table. -/

/-- Declarations whose commands are texts. -/
abbrev TextCommands : List (Atom × Description) → Prop :=
  EachEntry (fun command => ∃ s, command = .text s) fun _ => True

namespace Loaded

variable {extra : List (Atom × Description)} (h : TextCommands extra) (glyph : Text)
include h

theorem textCommands_withExtra :
  TextCommands (withExtra extra).symbols
  := by
  apply EachEntry.foldl_put _ eachEntry_nil
  intro e he
  rcases List.mem_append.1 he with hbuiltin | hextra
  · obtain ⟨info, -, rfl⟩ := List.mem_map.1 hbuiltin
    exact ⟨⟨info.command, rfl⟩, trivial⟩
  · exact h e hextra

theorem symbols_eq_map_entry :
  (withExtra extra).symbols = (withExtra extra).table.symbols.map entry
  := by
  have hentry : ∀ e ∈ (withExtra extra).symbols, (symbol? e).map entry = some e := by
    rintro ⟨command, description⟩ he
    obtain ⟨⟨s, rfl⟩, -⟩ := textCommands_withExtra h _ he
    rfl
  rw [table_symbols, List.map_filterMap, List.filterMap_congr hentry, List.filterMap_some]

theorem symbols_glyphTable :
  (withExtra extra).glyphTable.symbols
    = (withExtra extra).table.symbols.map fun info => { info with command := [] }
  := by
  calc
    (withExtra extra).glyphTable.symbols
    _ = (withExtra extra).symbols.map fun e => e.2.symbol [] := rfl
    _ = ((withExtra extra).table.symbols.map entry).map fun e => e.2.symbol [] := by
      rw [← symbols_eq_map_entry h]
    _ = (withExtra extra).table.symbols.map fun info => { info with command := [] } :=
      List.map_map

theorem symbolFor?_glyphTable :
  (withExtra extra).glyphTable.symbolFor? glyph
    = ((withExtra extra).table.symbolFor? glyph).map fun info => { info with command := [] }
  := by
  rw [SymbolTable.symbolFor?, symbols_glyphTable h, List.find?_map]
  rfl

/-- A glyph has the command that it has in the table. -/
theorem commandFor?_withExtra :
  (withExtra extra).commandFor? glyph = ((withExtra extra).table.commandFor? glyph).map .text
  := by
  rw [commandFor?, symbols_eq_map_entry h, List.find?_map, SymbolTable.commandFor?,
    Option.map_map, Option.map_map]
  rfl

/-- The operators are those of the table. -/
theorem isOperator_withExtra :
  (withExtra extra).isOperator glyph = (withExtra extra).table.isOperator glyph
  := by
  rw [isOperator, SymbolTable.isOperator, symbols_glyphTable h, List.any_map]
  rfl

/-- The texts that are slanted are those of the table. -/
theorem isDefaultItalic_withExtra :
  (withExtra extra).isDefaultItalic glyph = (withExtra extra).table.isDefaultItalic glyph
  := by
  rw [isDefaultItalic, SymbolTable.isDefaultItalic, symbolFor?_glyphTable h,
    SymbolTable.isDefaultItalic]
  cases (withExtra extra).table.symbolFor? glyph <;> rfl

end Loaded

/-! ### Loading -/

variable {ofYaml : Text → Except Yaml.Flaw Content} {file : SymbolFile}

/-- What is known after a file was loaded: the built-in symbols alone if it cannot be read or is
not usable, and else also those that it declares, one for each entry that it lists. -/
inductive Loads (ofYaml : Text → Except Yaml.Flaw Content) (file : SymbolFile) :
    Loaded × Bool → Prop
  | unreadable : file.read ofYaml = .error .unreadable → Loads ofYaml file (.builtin, false)
  | unusable {c : Content} : file.read ofYaml = .ok c → ¬ Usable c →
    Loads ofYaml file (.builtin, false)
  | extended {c : Content} {ds : List (Atom × Document)} {extra : List (Atom × Description)} :
    file.read ofYaml = .ok c → Lists c ds → List.Forall₂ (Declares c.parts) ds extra →
    Loads ofYaml file (.withExtra extra, true)

theorem load_of_unreadable (h : file.read ofYaml = .error .unreadable) :
  file.load ofYaml = .ok (.builtin, false)
  := by
  rw [load, h]

theorem load_of_not_usable (h : file.read ofYaml = .ok c) (hc : ¬ Usable c) :
  file.load ofYaml = .ok (.builtin, false)
  := by
  have hnone : declarations? c = none := by
    rw [Option.eq_none_iff_forall_ne_some]
    exact fun extra hextra => hc (usable_iff.2 ⟨extra, hextra⟩)
  rw [load, h]
  simp only [hnone]

/-- What is declared is known if all commands are texts and bytes, and else it is refused. -/
theorem load_of_declared {extra : List (Atom × Description)} (h : file.read ofYaml = .ok c)
    (hextra : declarations? c = some extra) :
  file.load ofYaml = if extra.all fun e => isCommand e.1 then .ok (.withExtra extra, true)
    else .error .commandNotText
  := by
  rw [load, h]
  simp only [hextra]

/-- The commands that are declared are those that are listed. -/
theorem all_isCommand_iff {ds : List (Atom × Document)} {extra : List (Atom × Description)}
    (h : List.Forall₂ (Declares c.parts) ds extra) :
  (extra.all fun e => isCommand e.1) = true ↔ ∀ d ∈ ds, isCommand d.1 = true
  := by
  induction h with
  | nil => simp
  | cons hd _ ih => rw [List.all_cons, Bool.and_eq_true, ih, hd.1, List.forall_mem_cons]

/-- A usable file is refused if, and only if, one of its commands is neither a text nor bytes. -/
theorem load_eq_error_iff {ds : List (Atom × Document)} (h : file.read ofYaml = .ok c)
    (hds : Lists c ds) (hc : Usable c) :
  file.load ofYaml = .error .commandNotText ↔ ∃ d ∈ ds, isCommand d.1 = false
  := by
  obtain ⟨extra, hextra⟩ := usable_iff.1 hc
  obtain ⟨ds', hds', hdeclares⟩ := declarations?_eq_some_iff.1 hextra
  obtain rfl : ds = ds' := Option.some.inj ((lists_iff.1 hds).symm.trans (lists_iff.1 hds'))
  have hall := all_isCommand_iff hdeclares
  constructor
  · intro herror
    by_contra hnone
    have hcommands : ∀ d ∈ ds, isCommand d.1 = true := by
      intro d hd
      exact eq_true_of_ne_false fun hcommand => hnone ⟨d, hd, hcommand⟩
    rw [load_of_declared h hextra, if_pos (hall.2 hcommands)] at herror
    contradiction
  · rintro ⟨d, hd, hcommand⟩
    rw [load_of_declared h hextra, if_neg]
    intro hcommands
    rw [hall.1 hcommands d hd] at hcommand
    contradiction

/-- A file with a number for a command. -/
def numberFile : SymbolFile where
  name := "t.yaml".toList
  content := some "symbols:\n  1:\n    unicode: x\n".toUTF8

example : (match numberFile.load Content.ofYaml with
    | .error fault => some fault
    | .ok _ => none) = some .commandNotText
  := by
  decide +kernel

/-- Where all keys are texts, so are the commands. -/
theorem Lists.exists_text {ds : List (Atom × Document)} (h : Lists c ds)
    (hc : c.root.HasTextKeys) :
  ∀ d ∈ ds, ∃ command, d.1 = .text command
  := by
  cases h with
  | nothing => simp
  | undeclared => simp
  | declared _ hentries hsymbols hds =>
    obtain ⟨k, hk⟩ := exists_mem_of_lookup hsymbols
    have hd := (hc.textEntries hentries _ hk).2
    intro d hmem
    exact (hd.textEntries hds d hmem).1

/-- A file that is not YAML is not readable, or has texts for keys. -/
theorem read_of_not_isYaml (ofYaml : Text → Except Yaml.Flaw Content)
    (h : file.isYaml = false) :
  file.read ofYaml = .error .unreadable
    ∨ ∃ c, file.read ofYaml = .ok c ∧ c.root.HasTextKeys
  := by
  rw [read]
  cases file.text? with
  | none => exact .inl rfl
  | some s =>
    cases hcontent : Content.ofJson? s with
    | none =>
      left
      simp only [Yaml.readable, h, Bool.false_eq_true, if_false, bind, Except.bind, hcontent]
    | some c =>
      right
      refine ⟨c, ?_, Content.hasTextKeys_ofJson? hcontent⟩
      simp only [Yaml.readable, h, Bool.false_eq_true, if_false, bind, Except.bind, hcontent]

/-- The commands that a JSON file lists are texts. -/
theorem isCommand_of_not_isYaml {ds : List (Atom × Document)} (hfile : file.isYaml = false)
    (h : file.read ofYaml = .ok c) (hds : Lists c ds) :
  ∀ d ∈ ds, isCommand d.1 = true
  := by
  obtain hunreadable | ⟨c', hc', hkeys⟩ := read_of_not_isYaml ofYaml hfile
  · rw [h] at hunreadable
    contradiction
  · obtain rfl := Except.ok.inj (h.symm.trans hc')
    intro d hd
    obtain ⟨command, hcommand⟩ := hds.exists_text hkeys d hd
    rw [hcommand]
    rfl

/-- A file is loaded as it should be, unless the reader of YAML texts runs into a flaw of its own,
or a command of a usable YAML file is neither a text nor bytes. -/
theorem exists_loads (hread : ∀ flaw, file.read ofYaml = .error flaw → flaw = .unreadable)
    (hcommand : file.isYaml = true → ∀ c ds, file.read ofYaml = .ok c → Usable c → Lists c ds →
      ∀ d ∈ ds, isCommand d.1 = true) :
  ∃ loaded, file.load ofYaml = .ok loaded ∧ Loads ofYaml file loaded
  := by
  cases h : file.read ofYaml with
  | error flaw =>
    obtain rfl := hread flaw h
    exact ⟨_, load_of_unreadable h, .unreadable h⟩
  | ok c =>
    by_cases hc : Usable c
    · obtain ⟨extra, hextra⟩ := usable_iff.1 hc
      obtain ⟨ds, hds, hdeclares⟩ := declarations?_eq_some_iff.1 hextra
      have hall : ∀ d ∈ ds, isCommand d.1 = true := by
        cases hyaml : file.isYaml with
        | true => exact hcommand hyaml c ds h hc hds
        | false => exact isCommand_of_not_isYaml hyaml h hds
      refine ⟨(.withExtra extra, true), ?_, .extended h hds hdeclares⟩
      rw [load_of_declared h hextra, if_pos ((all_isCommand_iff hdeclares).2 hall)]
    · exact ⟨_, load_of_not_usable h hc, .unusable h hc⟩

/-- A YAML file with one further operator. -/
def operatorFile : SymbolFile where
  name := "symbols.yaml".toList
  content := some "symbols:\n  \\between:\n    unicode: ≬\n    operator: yes\n".toUTF8

/-- The commands of a document that was read, if it lists any. -/
def commands : Except Yaml.Flaw Content → Option (List Atom)
  | .ok c => (listed? c).map (List.map (·.1))
  | .error _ => none

theorem exists_loads_operatorFile :
  ((∀ flaw, operatorFile.read Content.ofYaml = .error flaw → flaw = .unreadable)
    ∧ (operatorFile.isYaml = true → ∀ c ds, operatorFile.read Content.ofYaml = .ok c →
      Usable c → Lists c ds → ∀ d ∈ ds, isCommand d.1 = true))
  ∧ ∃ loaded, operatorFile.load Content.ofYaml = .ok loaded
    ∧ Loads Content.ofYaml operatorFile loaded
  := by
  have hcommands : commands (operatorFile.read Content.ofYaml)
      = some [.text "\\between".toList] := by
    decide +kernel
  have hread : ∀ flaw, operatorFile.read Content.ofYaml = .error flaw → flaw = .unreadable := by
    intro flaw h
    rw [h] at hcommands
    contradiction
  have hcommand : operatorFile.isYaml = true → ∀ c ds, operatorFile.read Content.ofYaml = .ok c →
      Usable c → Lists c ds → ∀ d ∈ ds, isCommand d.1 = true := by
    intro _ c ds h _ hds d hd
    rw [h, commands, lists_iff.1 hds, Option.map_some] at hcommands
    have hmem := List.mem_map_of_mem hd (f := (·.1))
    rw [Option.some.inj hcommands, List.mem_singleton] at hmem
    rw [hmem]
    rfl
  exact ⟨⟨hread, hcommand⟩, exists_loads hread hcommand⟩

end SymbolFile

end Formula
