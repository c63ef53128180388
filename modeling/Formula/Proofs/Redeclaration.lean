import Formula.Proofs.Extension
import Mathlib.Data.List.Induction

/-!
# Redeclared symbols

A table keeps every command in the place of its first declaration, with what was declared with
it last.  A declaration may so take the glyph of another command, or leave a glyph without the
command that it was written with; the looking up of glyphs and the looking up of commands
belong together all the same.
-/

namespace Formula

namespace SymbolTable

variable {t : SymbolTable} {symbols declarations extra : List SymbolInfo} {info : SymbolInfo}
  {command glyph : Text}

/-! ### Declarations in a row -/

/-- A known command keeps its place, and a new one comes last. -/
theorem map_command_declare :
  (declare symbols info).map (·.command)
    = if info.command ∈ symbols.map (·.command) then symbols.map (·.command)
      else symbols.map (·.command) ++ [info.command]
  := by
  induction symbols with
  | nil => rfl
  | cons known rest ih =>
    rw [declare]
    split
    · rename_i hknown
      simp [hknown]
    · rename_i hknown
      rw [List.map_cons, ih, List.map_cons]
      simp only [List.mem_cons, Ne.symm hknown, false_or]
      split <;> rfl

/-- A command stands for what is declared with it, and the other commands are left alone. -/
theorem find?_declare :
  (declare symbols info).find? (·.command = command)
    = if info.command = command then some info else symbols.find? (·.command = command)
  := by
  induction symbols with
  | nil =>
    rw [declare, List.find?_singleton]
    simp
  | cons known rest ih =>
    rw [declare]
    split
    · rename_i hknown
      rw [List.find?_cons, List.find?_cons, hknown]
      by_cases h : info.command = command <;> simp [h]
    · rename_i hknown
      rw [List.find?_cons, ih, List.find?_cons]
      by_cases h : known.command = command
      · have hinfo : info.command ≠ command := fun hinfo => hknown (h.trans hinfo.symm)
        simp [h, hinfo]
      · simp [h]

/-- The commands stand in the order in which they are declared for the first time. -/
theorem commands_ofList (declarations : List SymbolInfo) :
  (ofList declarations).commands = (declarations.map (·.command)).eraseDups
  := by
  rw [commands, symbols_ofList]
  induction declarations using List.reverseRecOn with
  | nil => rfl
  | append_singleton before info ih =>
    rw [List.foldl_append, List.foldl_cons, List.foldl_nil, map_command_declare, ih,
      List.map_append, List.map_singleton, eraseDups_concat]
    simp only [List.mem_eraseDups]

/-- A command stands for what is declared with it last. -/
theorem find?_ofList (declarations : List SymbolInfo) (command : Text) :
  (ofList declarations).find? command = declarations.reverse.find? (·.command = command)
  := by
  rw [find?, symbols_ofList]
  induction declarations using List.reverseRecOn with
  | nil => rfl
  | append_singleton before info ih =>
    rw [List.foldl_append, List.foldl_cons, List.foldl_nil, find?_declare, ih,
      List.reverse_append, List.reverse_singleton, List.singleton_append, List.find?_cons]
    by_cases h : info.command = command <;> simp [h]

theorem nodup_ofList (declarations : List SymbolInfo) :
  (ofList declarations).commands.Nodup
  := by
  rw [commands_ofList]
  apply nodup_eraseDups

/-- The symbols of a table are among its declarations. -/
theorem mem_of_mem_ofList (h : info ∈ (ofList declarations).symbols) :
  info ∈ declarations
  := by
  have hfind := find?_of_mem (nodup_ofList declarations) h
  rw [find?_ofList] at hfind
  apply List.mem_reverse.1 (List.mem_of_find?_eq_some hfind)

/-- None of the built-in symbols is a large operator. -/
theorem largeOperator_builtinSymbols : ∀ info ∈ builtinSymbols, info.largeOperator = false
  := by
  intro info hinfo
  obtain ⟨group, -, hinfo⟩ := List.mem_flatMap.1 hinfo
  obtain ⟨entry, -, rfl⟩ := List.mem_map.1 hinfo
  rfl

/-! ### Glyphs -/

section Glyphs

variable (hlarge : ∀ info ∈ t.symbols, info.largeOperator = false)

include hlarge

/-- The symbol that a glyph is written with is the one of the first command that denotes the
glyph. -/
theorem commandFor?_eq_find? (hnodup : t.commands.Nodup) (glyph : Text) :
  t.commandFor? glyph = t.commands.find? fun command => t.glyphOf? command = some glyph
  := by
  rw [commandFor?, symbolFor?, commands, List.find?_map, ← List.head?_filter, ← List.head?_filter]
  congr 2
  apply List.filter_congr
  intro info hinfo
  rw [Function.comp_apply, glyphOf?, find?_of_mem hnodup hinfo, hlarge info hinfo]
  simp

/-- A glyph that a command denotes is written with a command. -/
theorem isSome_commandFor? (h : t.glyphOf? command = some glyph) :
  (t.commandFor? glyph).isSome
  := by
  obtain ⟨info, hinfo, rfl⟩ := Option.map_eq_some_iff.1 h
  have hmem := List.mem_of_find?_eq_some hinfo
  rw [commandFor?, Option.isSome_map, symbolFor?, List.find?_isSome]
  exact ⟨info, hmem, by simp [hlarge info hmem]⟩

end Glyphs

/-- Whether a glyph that a command is written for is slanted is what the command was declared with
last. -/
theorem isDefaultItalic_of_commandFor? (hnodup : t.commands.Nodup)
    (h : t.commandFor? glyph = some command) :
  ∃ info, t.find? command = some info ∧ t.isDefaultItalic glyph = info.italic
  := by
  obtain ⟨info, hinfo, rfl⟩ := Option.map_eq_some_iff.1 h
  refine ⟨info, find?_of_mem hnodup (List.mem_of_find?_eq_some hinfo), ?_⟩
  rw [isDefaultItalic, hinfo]

/-- The operators are some ASCII characters, and the glyphs of the commands that were declared
last with spaces around them. -/
theorem isOperator_iff (hnodup : t.commands.Nodup) (glyph : Text) :
  t.isOperator glyph = true
    ↔ (∃ c ∈ asciiOperators, glyph = [c])
      ∨ ∃ command info, t.find? command = some info ∧ info.glyph = glyph ∧ info.spaced = true
  := by
  simp only [isOperator, Bool.or_eq_true, List.any_eq_true, decide_eq_true_eq, Bool.and_eq_true]
  apply or_congr_right
  constructor
  · rintro ⟨info, hinfo, hspaced, hglyph⟩
    exact ⟨_, info, find?_of_mem hnodup hinfo, hglyph, hspaced⟩
  · rintro ⟨command, info, hinfo, hglyph, hspaced⟩
    exact ⟨info, List.mem_of_find?_eq_some hinfo, hspaced, hglyph⟩

/-! ### Overriding -/

/-- The symbol that a command is declared with last: by the last further symbol with the command,
or else by the built-in one. -/
def lastDeclared? (extra : List SymbolInfo) (command : Text) : Option SymbolInfo :=
  (extra.reverse.find? (·.command = command)).or (builtinSymbols.find? (·.command = command))

/-- The glyph that a command is declared with last. -/
def lastGlyph? (extra : List SymbolInfo) (command : Text) : Option Text :=
  (lastDeclared? extra command).map (·.glyph)

/-- The commands in the order in which they are declared for the first time, the built-in ones
before the further ones. -/
def firstDeclared (extra : List SymbolInfo) : List Text :=
  ((builtinSymbols ++ extra).map (·.command)).eraseDups

/-- The look-ups of a table follow the declarations of the built-in symbols and then the further
ones, and belong together. -/
structure Follows (t : SymbolTable) (extra : List SymbolInfo) : Prop where
  glyphOf? : ∀ command, t.glyphOf? command = lastGlyph? extra command
  commandFor? : ∀ glyph, t.commandFor? glyph
    = (firstDeclared extra).find? fun command => lastGlyph? extra command = some glyph
  glyphOf?_commandFor? : ∀ glyph command, t.commandFor? glyph = some command →
    t.glyphOf? command = some glyph
  isSome_commandFor? : ∀ command glyph, t.glyphOf? command = some glyph →
    (t.commandFor? glyph).isSome
  isOperator : ∀ glyph, t.isOperator glyph = true
    ↔ (∃ c ∈ ['+', '-', '=', '<', '>'], glyph = [c])
      ∨ ∃ command info, lastDeclared? extra command = some info ∧ info.glyph = glyph
        ∧ info.spaced = true
  isDefaultItalic : ∀ glyph command, t.commandFor? glyph = some command →
    ∃ info, lastDeclared? extra command = some info ∧ t.isDefaultItalic glyph = info.italic

/-- A command of the table with further symbols stands for what it is declared with last. -/
theorem find?_withExtra (extra : List SymbolInfo) (command : Text) :
  (withExtra extra).find? command = lastDeclared? extra command
  := by
  have hreverse : builtin.find? command = builtinSymbols.reverse.find? (·.command = command) := by
    rw [builtin, withExtra, find?_ofList, List.append_nil]
    rfl
  rw [find?, symbols_builtin] at hreverse
  rw [withExtra, find?_ofList, List.reverse_append, List.find?_append, ← builtinSymbols,
    lastDeclared?, hreverse]

/-- Whatever symbols are declared besides the built-in ones and instead of them, the table follows
the declarations. -/
theorem follows_withExtra (h : ∀ info ∈ extra, info.largeOperator = false) :
  (withExtra extra).Follows extra
  := by
  have hnodup : (withExtra extra).commands.Nodup := nodup_ofList _
  have hlarge : ∀ info ∈ (withExtra extra).symbols, info.largeOperator = false := by
    intro info hinfo
    rcases List.mem_append.1 (mem_of_mem_ofList hinfo) with hbuiltin | hextra
    · apply largeOperator_builtinSymbols info hbuiltin
    · apply h info hextra
  have hglyph : ∀ command, (withExtra extra).glyphOf? command = lastGlyph? extra command := by
    intro command
    rw [SymbolTable.glyphOf?, find?_withExtra, lastGlyph?]
  constructor
  case glyphOf? => apply hglyph
  case commandFor? =>
    intro glyph
    rw [commandFor?_eq_find? hlarge hnodup, withExtra, commands_ofList, ← withExtra]
    simp only [hglyph]
    rfl
  case glyphOf?_commandFor? =>
    intro glyph command hcommand
    rw [commandFor?_eq_find? hlarge hnodup] at hcommand
    have hfound := List.find?_some hcommand
    apply of_decide_eq_true hfound
  case isSome_commandFor? =>
    intro command glyph hcommand
    apply isSome_commandFor? hlarge hcommand
  case isOperator =>
    intro glyph
    rw [isOperator_iff hnodup]
    simp only [find?_withExtra]
    rfl
  case isDefaultItalic =>
    intro glyph command hcommand
    rw [← find?_withExtra]
    apply isDefaultItalic_of_commandFor? hnodup hcommand

/-- The further symbols are declared one after the other among the built-in ones. -/
theorem symbols_withExtra_foldl (extra : List SymbolInfo) :
  (withExtra extra).symbols = extra.foldl declare builtinSymbols
  := by
  have hbuiltin : builtinSymbols.foldl declare [] = builtinSymbols := by
    rw [← symbols_ofList, ← List.append_nil builtinSymbols]
    apply symbols_builtin
  rw [withExtra, symbols_ofList, List.foldl_append, ← builtinSymbols, hbuiltin]

/-- The letter alpha is declared anew as an operator with another glyph, and its former glyph goes
to a further command, which is declared twice. -/
def exchanged : List SymbolInfo :=
  [{ command := "\\alpha".toList, glyph := ['β'], spaced := true },
    { command := "\\own".toList, glyph := ['γ'] },
    { command := "\\own".toList, glyph := ['α'], italic := true }]

theorem follows_withExtra_exchanged :
  (∀ info ∈ exchanged, info.largeOperator = false)
    ∧ (withExtra exchanged).Follows exchanged
    ∧ (withExtra exchanged).commandFor? ['β'] = some "\\alpha".toList
    ∧ (withExtra exchanged).commandFor? ['α'] = some "\\own".toList
    ∧ (withExtra exchanged).commandFor? ['γ'] = some "\\gamma".toList
    ∧ (withExtra exchanged).isOperator ['β'] = true
  := by
  have hlarge : ∀ info ∈ exchanged, info.largeOperator = false := by decide
  refine ⟨hlarge, follows_withExtra hlarge, ?_⟩
  simp only [commandFor?, symbolFor?, isOperator, symbols_withExtra_foldl]
  decide +kernel

end SymbolTable

end Formula
