import Formula.Proofs.Dispatch

/-!
# Further symbols

A table may have further symbols besides the built-in ones.  If their commands are known to no
reader, then only the reader of symbols takes them, and every text that does not begin with one
of them is read as it is read with the built-in symbols alone.
-/

namespace Formula

/-- What is found only depends on the spellings that stand first. -/
theorem Spellings.longest?_congr {l l' : List Text} {s : Text}
    (h : ∀ sp rest, Stands sp s rest → (sp ∈ l ↔ sp ∈ l')) :
  (ofList l).longest? s = (ofList l').longest? s
  := by
  apply Option.ext
  rintro ⟨sp, rest⟩
  rw [longest?_eq_some_iff, longest?_eq_some_iff]
  constructor
  · rintro ⟨hne, hsp, hstands, hmax⟩
    refine ⟨hne, (h sp rest hstands).1 hsp, hstands, ?_⟩
    intro sp' hsp' rest' hstands'
    apply hmax sp' ((h sp' rest' hstands').2 hsp') rest' hstands'
  · rintro ⟨hne, hsp, hstands, hmax⟩
    refine ⟨hne, (h sp rest hstands).2 hsp, hstands, ?_⟩
    intro sp' hsp' rest' hstands'
    apply hmax sp' ((h sp' rest' hstands').1 hsp') rest' hstands'

namespace SymbolTable

/-- The commands of the symbols of a table. -/
def commands (t : SymbolTable) : List Text := t.symbols.map (·.command)

/-- The table has the built-in symbols, and further ones with commands of their own. -/
class IsExtension (t : SymbolTable) : Prop where
  builtin_subset : builtinSymbols ⊆ t.symbols
  nodup : t.commands.Nodup
  own : ∀ command ∈ t.commands, command ∉ Reading.symbolCommands →
    isCommand command = true ∧ command ∉ Reading.knownSpellings.flatten

section WithExtra

variable {extra : List SymbolInfo} (hnodup : (extra.map (·.command)).Nodup)
  (hown : ∀ info ∈ extra, info.command ∉ Reading.knownSpellings.flatten)

include hown in
/-- The command of a further symbol is not that of a built-in one. -/
theorem command_not_mem_symbolCommands {info : SymbolInfo} (h : info ∈ extra) :
  info.command ∉ Reading.symbolCommands
  := by
  intro hmem
  apply hown info h
  apply List.mem_flatten_of_mem _ hmem
  simp [Reading.knownSpellings, Reading.heads]

include hnodup hown

theorem nodup_append_extra :
  ((builtinSymbols ++ extra).map (·.command)).Nodup
  := by
  rw [List.map_append]
  apply Reading.nodup_symbolCommands.append hnodup
  intro command hbuiltin hextra
  obtain ⟨info, hinfo, rfl⟩ := List.mem_map.1 hextra
  apply command_not_mem_symbolCommands hown hinfo hbuiltin

/-- The further symbols are in the table. -/
theorem subset_withExtra :
  extra ⊆ (withExtra extra).symbols
  := by
  rw [symbols_withExtra (nodup_append_extra hnodup hown)]
  apply List.subset_append_right

/-- The built-in symbols with further ones, of which the commands are different and known to
no reader. -/
theorem isExtension_withExtra (hcommand : ∀ info ∈ extra, isCommand info.command = true) :
  (withExtra extra).IsExtension
  := by
  have hall := nodup_append_extra hnodup hown
  have hsymbols := symbols_withExtra hall
  constructor
  · rw [hsymbols]
    apply List.subset_append_left
  · rw [commands, hsymbols]
    apply hall
  · intro command hmem hnot
    rw [commands, hsymbols, List.map_append, List.mem_append] at hmem
    rcases hmem with hmem | hmem
    · contradiction
    · obtain ⟨info, hinfo, rfl⟩ := List.mem_map.1 hmem
      exact ⟨hcommand info hinfo, hown info hinfo⟩

end WithExtra

instance : builtin.IsExtension :=
  isExtension_withExtra (by simp) (by simp) (by simp)

variable {t : SymbolTable} {s name rest : Text} {c : Char}

theorem spellings_eq_commands : t.spellings = .ofList t.commands := t.spellings_eq

theorem commands_builtin :
  builtin.commands = Reading.symbolCommands
  := by
  rw [commands, symbols_builtin]
  rfl

/-- No command of a further symbol stands at the beginning of the text. -/
def Misses (t : SymbolTable) (s : Text) : Prop :=
  ∀ command ∈ t.commands, command ∉ Reading.symbolCommands →
    ∀ rest, ¬ Spellings.Stands command s rest

theorem misses_builtin : builtin.Misses s
  := by
  intro command hmem hnot
  rw [commands_builtin] at hmem
  contradiction

/-- The symbol of a command is the one that was declared with it. -/
theorem find?_of_mem {info : SymbolInfo} (hnodup : t.commands.Nodup) (h : info ∈ t.symbols) :
  t.find? info.command = some info
  := by
  rw [find?]
  cases hfind : t.symbols.find? (·.command = info.command) with
  | none =>
    have := List.find?_eq_none.1 hfind info h
    simp at this
  | some found =>
    have hcommand := List.find?_some hfind
    simp only [decide_eq_true_eq] at hcommand
    congr 1
    apply List.inj_on_of_nodup_map hnodup (List.mem_of_find?_eq_some hfind) h hcommand

section Extension

variable [t.IsExtension]

theorem symbolCommands_subset : Reading.symbolCommands ⊆ t.commands
  := List.map_subset _ IsExtension.builtin_subset

theorem find?_command {info : SymbolInfo} (h : info ∈ t.symbols) :
  t.find? info.command = some info
  := find?_of_mem IsExtension.nodup h

/-- The command that a glyph is written with denotes the glyph. -/
theorem glyphOf?_commandFor? {glyph command : Text} (h : t.commandFor? glyph = some command) :
  command ∈ t.commands ∧ t.glyphOf? command = some glyph
  := by
  obtain ⟨info, hinfo, rfl⟩ := Option.map_eq_some_iff.1 h
  rw [symbolFor?] at hinfo
  have hmem := List.mem_of_find?_eq_some hinfo
  have hglyph := List.find?_some hinfo
  simp only [Bool.and_eq_true, decide_eq_true_eq] at hglyph
  constructor
  · apply List.mem_map.2 ⟨info, hmem, rfl⟩
  · rw [glyphOf?, find?_command hmem, Option.map_some, hglyph.1]

/-- A backslash is written with a command. -/
theorem commandFor?_backslash : ∃ command, t.commandFor? ['\\'] = some command
  := by
  obtain ⟨info, hinfo, h⟩ := List.any_eq_true.1 Reading.heads_checked.2.2.2.2.2.2.1
  rw [commandFor?, symbolFor?]
  cases hfind : t.symbols.find? fun info => info.glyph = ['\\'] && !info.largeOperator with
  | none => exact absurd h (List.find?_eq_none.1 hfind info (IsExtension.builtin_subset hinfo))
  | some found => exact ⟨found.command, rfl⟩

namespace Misses

/-- The command of a further symbol begins with a backslash. -/
theorem of_ne (h : c ≠ '\\') : t.Misses (c :: s)
  := by
  intro command hmem hnot rest hstands
  obtain ⟨name, rfl, -⟩ := exists_of_isCommand (IsExtension.own command hmem hnot).1
  apply h (List.cons.inj hstands.1).1

/-- A letter follows the backslash of a further symbol. -/
theorem escape (h : Text.isLetter c = false) : t.Misses ('\\' :: c :: s)
  := by
  intro command hmem hnot rest hstands
  obtain ⟨name, rfl, hname⟩ := exists_of_isCommand (IsExtension.own command hmem hnot).1
  cases name with
  | nil => contradiction
  | cons d ds =>
    obtain ⟨rfl, -⟩ := List.cons.inj (List.cons.inj hstands.1).2
    simp [Text.isLetters, h] at hname

/-- A known command is not that of a further symbol. -/
theorem command (hname : Text.isLetters name = true)
    (hrest : Text.startsWithLetter rest = false)
    (hknown : '\\' :: name ∈ Reading.knownSpellings.flatten) :
  t.Misses ('\\' :: (name ++ rest))
  := by
  intro command hmem hnot rest' hstands
  obtain ⟨hcommand, hown⟩ := IsExtension.own command hmem hnot
  obtain ⟨name', rfl, hname'⟩ := exists_of_isCommand hcommand
  have hbare : '\\' :: name' ≠ ['\\'] := by
    rintro heq
    obtain rfl := (List.cons.inj heq).2
    contradiction
  have heq := Spellings.nameOf?_of_stands hname hrest (List.cons_ne_nil _ _) hbare hstands
  rw [nameOf?_command hname'] at heq
  rw [Option.some.inj heq] at hown
  contradiction

end Misses

end Extension

/-! ### The end of a command -/

/-- Whether the text begins with a letter in braces. -/
def startsWithBracedLetter : Text → Bool
  | '{' :: c :: _ => Text.isLetter c
  | _ => false

/-- No command of the table goes on with the text.  Only the command of blackboard letters has
more than a name, and that is a letter in braces. -/
def EndsBefore (t : SymbolTable) (s : Text) : Prop :=
  "\\mathbb".toList ∈ t.commands → startsWithBracedLetter s = false

namespace EndsBefore

theorem nil : t.EndsBefore [] := fun _ => rfl

theorem of_ne (h : c ≠ '{') : t.EndsBefore (c :: s)
  := by
  intro _
  unfold startsWithBracedLetter
  split
  · rename_i heq
    apply absurd (List.cons.inj heq).1 h
  · rfl

theorem brace (h : Text.isLetter c = false) : t.EndsBefore ('{' :: c :: s) := fun _ => h

end EndsBefore

theorem endsBefore_builtin : builtin.EndsBefore s
  := by
  intro hmem
  rw [commands_builtin] at hmem
  have hspelling := Reading.heads_checked.2.2.2.2.2.1 _ hmem
  exact absurd hspelling (by decide)

end SymbolTable

/-! ### The step with further symbols -/

namespace Reading

variable {t : SymbolTable} {nested : Nested} {s cs : Text} {c : Char} {b : Build (Item × Text)}

/-- Only the reader of symbols depends on the table. -/
theorem forall_readers_eq (t : SymbolTable) (nested : Nested) (s : Text) :
  (∀ r ∈ readers.take 12, r t nested s = r .builtin nested s)
    ∧ ∀ r ∈ readers.drop 13, r t nested s = r .builtin nested s
  := by
  simp only [readers, List.take_succ_cons, List.take_zero, List.drop_succ_cons, List.drop_zero,
    List.forall_mem_cons]
  simp only [style, derivative, fraction, root, environment, largeOperator, integral, function,
    escape, emphasis, wrapper, accent, script, bracket, spacing, group]
  simp

theorem readers_split : readers = readers.take 12 ++ symbol :: readers.drop 13 := rfl

variable [t.IsExtension]

theorem longest?_eq_builtin (h : t.Misses s) :
  t.spellings.longest? s = (Spellings.ofList symbolCommands).longest? s
  := by
  rw [SymbolTable.spellings_eq_commands]
  apply Spellings.longest?_congr
  intro command rest hstands
  constructor
  · intro hmem
    by_contra hnot
    apply h command hmem hnot rest hstands
  · intro hmem
    apply SymbolTable.symbolCommands_subset hmem

/-- A built-in command denotes the same glyph in every table. -/
theorem glyphOf?_eq_builtin {command : Text} (h : command ∈ symbolCommands) :
  t.glyphOf? command = SymbolTable.builtin.glyphOf? command
  := by
  obtain ⟨info, hinfo, rfl⟩ := List.mem_map.1 h
  have hglyph : ∀ (t : SymbolTable) [t.IsExtension], t.glyphOf? info.command = some info.glyph := by
    intro t _
    rw [SymbolTable.glyphOf?,
      SymbolTable.find?_command (SymbolTable.IsExtension.builtin_subset hinfo)]
    rfl
  rw [hglyph, hglyph]

/-- Where no further symbol stands, the same symbol is read. -/
theorem symbol_eq_builtin (h : t.Misses s) :
  symbol t nested s = symbol .builtin nested s
  := by
  rw [symbol, symbol, longest?_eq_builtin h, longest?_eq_builtin SymbolTable.misses_builtin]
  apply Option.bind_congr
  rintro ⟨command, rest⟩ hfound
  dsimp only
  rw [glyphOf?_eq_builtin (Spellings.longest?_eq_some_iff.1 hfound).2.1]

/-- Where no further symbol stands, the same item is read. -/
theorem step_eq_builtin (h : t.Misses (c :: cs)) :
  step t nested c cs = step .builtin nested c cs
  := by
  obtain ⟨hbefore, hafter⟩ := forall_readers_eq t nested (c :: cs)
  have hreaders : ∀ r ∈ readers, r t nested (c :: cs) = r .builtin nested (c :: cs) := by
    intro r hr
    rw [readers_split, List.mem_append, List.mem_cons] at hr
    rcases hr with hr | hr | hr
    · apply hbefore r hr
    · rw [hr]
      apply symbol_eq_builtin h
    · apply hafter r hr
  rw [step, step, ← List.head?_filterMap, ← List.head?_filterMap, List.filterMap_congr hreaders]

omit [t.IsExtension] in
/-- A symbol is read where no reader before that of symbols takes the item. -/
theorem step_symbol (hfree : ∀ l ∈ heads.take 12, Free l (c :: cs))
    (hb : symbol t nested (c :: cs) = some b) :
  step t nested c cs = b
  := by
  have hnone : ∀ r ∈ readers.take 12, r t nested (c :: cs) = none := by
    intro r hr
    rw [(forall_readers_eq t nested (c :: cs)).1 r hr]
    apply forall_take_eq_none forall₂_passes hfree r hr
  rw [step, readers_split, List.findSome?_append, List.findSome?_eq_none_iff.2 hnone,
    List.findSome?_cons]
  simp only [hb, Option.none_or, Option.getD_some]

end Reading

end Formula
