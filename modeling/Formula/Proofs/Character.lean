import Formula.Proofs.Command
import Formula.Writing.TextRun

/-!
# Written characters

However a character of a text is written, as itself, as an escape or as the command of a
symbol, it is read as that character.
-/

namespace Formula

open Build Markup

/-- The text node of one character, without identifier. -/
def charNode (c : Char) : Node := .plain 0 (.text [c] {} none)

variable {t : SymbolTable} {cell : Bool} {c : Char} {sp rest : Text}

/-- A new text of one character. -/
theorem gives_char (c : Char) (rest : Text) :
  Gives (do return (.nodes [← Build.text [c]], rest)) [charNode c] rest
  := by
  apply Returns.bind (P := fun n => n.bare = charNode c)
  · apply meets_text
    intro i
    rw [Node.bare_mk]
    rfl
  · intro n hn
    apply Returns.pure
    exact ⟨[n], rfl, by rw [List.map_singleton, hn]⟩

/-! ### Characters as themselves -/

/-- A character that begins nothing else is written as itself. -/
theorem spells_plain [t.IsExtension] (hblank : Text.isBlank c = false)
    (hc : c ∉ ['\\', '{', '}', '^', '_']) (hcell : cell = true → c ≠ '&') :
  Spells t cell [c] [charNode c]
  := by
  have hother : c ∉ ['\\', '{', '^', '_'] := by
    intro h
    apply hc
    revert h
    simp only [List.mem_cons, List.not_mem_nil, or_false]
    rintro (h | h | h | h) <;> simp [h]
  simp only [List.mem_cons, List.not_mem_nil, or_false, not_or] at hc
  obtain ⟨hback, hopen, hclose, hsup, hsub⟩ := hc
  constructor
  · refine ⟨c, [], rfl, hblank, ?_⟩
    unfold ScriptSide.ofMarker?
    split <;> simp_all
  · refine ⟨[], c, rfl, hback, ?_⟩
    rintro rfl
    contradiction
  · apply Opens.of_ne hback
  · apply Closed.plain
    · simp [hback, hopen, hclose]
    · simpa [eq_comm] using hcell
  · intro rest
    apply SymbolTable.EndsBefore.of_ne hopen
  · intro rest _ _ _
    rw [List.singleton_append, Reading.item_cons,
      Reading.step_eq_builtin (SymbolTable.Misses.of_ne hback), Reading.step_plain hother,
      Reading.literal, if_neg hback]
    apply gives_char

/-! ### Escapes -/

/-- The escaped spellings that are written. -/
def writtenEscapes : List Text := "\x7b\x7d#&%~^_".toList.filterMap Escape.spelling?

theorem mem_writtenEscapes (h : Escape.spelling? c = some sp) :
  sp ∈ writtenEscapes
  := by
  apply List.mem_filterMap.2
  refine ⟨c, ?_, h⟩
  unfold Escape.spelling? at h
  split at h
  all_goals first
    | decide
    | contradiction

/-- What is computed about the written escapes: none is the beginning of another escape, none
begins a style, and no earlier reader takes one. -/
theorem writtenEscapes_checked : ∀ sp ∈ writtenEscapes,
    (∀ sp' ∈ Escape.table.commands, sp <+: sp' → sp' = sp)
      ∧ (∀ sp' ∈ Escape.table.commands, ¬ sp' <+: '{' :: sp ∧ ¬ '{' :: sp <+: sp')
      ∧ (∀ sp' ∈ styleCommands.commands, ¬ sp' <+: sp ∧ ¬ sp <+: sp')
      ∧ (∀ l ∈ Reading.heads.tail.take 7, ∀ sp' ∈ l, ¬ sp' <+: sp ∧ ¬ sp <+: sp')
      ∧ sp.getLast?.any Text.isLetter = false ∧ sp ≠ []
      ∧ (sp.head? = some '{' → ∀ sp' ∈ styleCommands.commands,
          ¬ sp' <+: sp.tail ∧ ¬ sp.tail <+: sp')
      ∧ (sp.head? = some '{' ∨ sp.head? = some '\\')
      ∧ (sp.head? = some '{' → sp.tail.head? = some '\\')
  := by
  decide +kernel

/-- A written escape is found as a whole. -/
theorem longest?_escape (h : Escape.spelling? c = some sp) (rest : Text) :
  Escape.table.longest? (sp ++ rest) = some (sp, c, rest)
  := by
  obtain ⟨hmax, -, -, -, hlast, hne, -⟩ := writtenEscapes_checked sp (mem_writtenEscapes h)
  have hlookup := Escape.lookup_spelling? h
  apply CommandTable.longest?_of_spellings _ hlookup
  rw [CommandTable.spellings_eq_ofList]
  apply Spellings.longest?_append hne (CommandTable.mem_commands_of_lookup hlookup)
  · rw [Spellings.boundary, hlast]
    rfl
  · intro sp' hsp' hprefix
    by_contra hlt
    have := List.prefix_of_prefix_length_le (List.prefix_append sp rest) hprefix (by omega)
    rw [hmax sp' hsp' this] at hlt
    apply hlt (Nat.le_refl _)

variable [t.IsExtension]

/-- No further symbol begins a written escape. -/
theorem misses_escape (h : Escape.spelling? c = some sp) (rest : Text) :
  t.Misses (sp ++ rest)
  := by
  have hmem := CommandTable.mem_commands_of_lookup (Escape.lookup_spelling? h)
  have hlist : Escape.table.commands ∈ Reading.heads.take 12 := by simp [Reading.heads]
  unfold Escape.spelling? at h
  split at h <;> simp only [Option.some.injEq, reduceCtorEq] at h <;> subst h
  · exact SymbolTable.Misses.escape rfl
  · exact SymbolTable.Misses.escape rfl
  · exact SymbolTable.Misses.escape rfl
  · apply @SymbolTable.Misses.command t "text".toList ("\x7b＆\x7d".toList ++ rest) _ rfl rfl
    apply Reading.mem_knownSpellings_of_nameOf? rfl hlist hmem rfl
  · exact SymbolTable.Misses.escape rfl
  · apply @SymbolTable.Misses.command t "textasciitilde".toList ("\x7b\x7d".toList ++ rest) _
      rfl rfl
    apply Reading.mem_knownSpellings_of_nameOf? rfl hlist hmem rfl
  · exact SymbolTable.Misses.of_ne (by decide)
  · exact SymbolTable.Misses.of_ne (by decide)

theorem gives_escape (h : Escape.spelling? c = some sp) (rest : Text) :
  Gives (Reading.item t (sp ++ rest)) [charNode c] rest
  := by
  obtain ⟨-, -, hstyle, hfree, -, hne, hbrace, hhead, hback⟩ :=
    writtenEscapes_checked sp (mem_writtenEscapes h)
  have hlongest := longest?_escape h rest
  have hmisses := misses_escape (t := t) h rest
  have hread : ∀ nested, Reading.escape .builtin nested (sp ++ rest)
      = some (do return (.nodes [← Build.text [c]], rest)) := by
    intro nested
    rw [Reading.escape, hlongest]
    rfl
  cases sp with
  | nil => contradiction
  | cons d ds =>
    rw [List.cons_append] at hread hmisses ⊢
    rw [Reading.item_cons, Reading.step_eq_builtin hmisses]
    rcases hhead with hd | hd
    · obtain rfl := Option.some.inj hd
      rw [Reading.step_brace (k := 7) rfl _ _ (hread _)]
      · apply gives_char
      · have hds : Text.skipBlanks (ds ++ rest) = ds ++ rest := by
          cases ds with
          | nil => simp at hback
          | cons e es =>
            obtain rfl := Option.some.inj (hback rfl)
            rfl
        rw [hds]
        apply Reading.free_of_start (hbrace rfl)
      · intro l hl
        apply Reading.free_of_start (p := '{' :: ds) (hfree l hl)
    · obtain rfl := Option.some.inj hd
      rw [Reading.step_eq (k := 8) rfl _ (hread _)]
      · apply gives_char
      · intro l hl
        apply Reading.free_of_start (p := '\\' :: ds)
        have hcons : Reading.heads.take 8
            = (['{'] :: styleCommands.commands) :: Reading.heads.tail.take 7 := rfl
        rw [hcons, List.mem_cons] at hl
        rcases hl with rfl | hl
        · intro sp' hsp'
          rcases List.mem_cons.1 hsp' with rfl | hsp'
          · simp
          · apply hstyle sp' hsp'
        · apply hfree l hl

/-- A written escape is a single item. -/
theorem spells_escape (h : Escape.spelling? c = some sp) :
  Spells t cell sp [charNode c]
  := by
  obtain ⟨-, hopens, hstyle, -, -, hne, -, hhead, hback⟩ :=
    writtenEscapes_checked sp (mem_writtenEscapes h)
  constructor
  · unfold Escape.spelling? at h
    split at h <;> simp only [Option.some.injEq, reduceCtorEq] at h <;> subst h <;>
      exact ⟨_, _, rfl, by decide, rfl⟩
  · unfold Escape.spelling? at h
    split at h <;> simp only [Option.some.injEq, reduceCtorEq] at h <;> subst h
    · exact Whole.concat (a := ['\\']) (by decide) (by decide)
    · exact Whole.concat (a := ['\\']) (by decide) (by decide)
    · exact Whole.concat (a := ['\\']) (by decide) (by decide)
    · exact Whole.concat (a := "\\text\x7b＆".toList) (by decide) (by decide)
    · exact Whole.concat (a := ['\\']) (by decide) (by decide)
    · exact Whole.concat (a := "\\textasciitilde\x7b".toList) (by decide) (by decide)
    · exact Whole.concat (a := "\x7b\\text\x7b^\x7d".toList) (by decide) (by decide)
    · exact Whole.concat (a := "\x7b\\_".toList) (by decide) (by decide)
  · intro rest _
    constructor
    · apply Reading.free_of_start (p := '{' :: sp) hopens
    · apply Reading.free_of_start hstyle
  · unfold Escape.spelling? at h
    split at h <;> simp only [Option.some.injEq, reduceCtorEq] at h <;> subst h
    · exact Closed.escape (by decide) (by decide)
    · exact Closed.escape (by decide) (by decide)
    · exact Closed.escape (by decide) (by decide)
    · exact (Closed.command "text".toList (by decide)).append
        (Closed.braced (m := ['＆']) (Closed.plain (by decide) (by decide)))
        (Follow.cons (by decide))
    · exact Closed.escape (by decide) (by decide)
    · exact (Closed.command "textasciitilde".toList (by decide)).append
        (Closed.braced (m := []) Closed.nil) (Follow.cons (by decide))
    · exact Closed.braced (m := "\\text\x7b^\x7d".toList)
        ((Closed.command "text".toList (by decide)).append
          (Closed.braced (m := ['^']) (Closed.plain (by decide) (by decide)))
          (Follow.cons (by decide)))
    · exact Closed.braced (m := ['\\', '_']) (Closed.escape (by decide) (by decide))
  · intro rest
    cases sp with
    | nil => contradiction
    | cons d ds =>
      rcases hhead with hd | hd
      · obtain rfl := Option.some.inj hd
        cases ds with
        | nil => simp at hback
        | cons e es =>
          obtain rfl := Option.some.inj (hback rfl)
          apply SymbolTable.EndsBefore.brace rfl
      · obtain rfl := Option.some.inj hd
        apply SymbolTable.EndsBefore.of_ne (by decide)
  · intro rest _ _ _
    apply gives_escape h

end Formula
