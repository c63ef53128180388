import Formula.Proofs.Assembly
import Formula.Proofs.TypedText

/-!
# Typed text with further symbols

Typed text is read as it is written also when the table has further symbols, whatever their
glyphs are: a glyph of a further symbol may be a letter, a digit, an operator, a blank or the
glyph of a built-in symbol.
-/

namespace Formula

open Writing

variable {config : Config} {n : Node} {ns : List Node}

/-- A typed text has no wrappers and no color that could be misread. -/
theorem Node.IsTyped.isDecorated (h : n.IsTyped) :
  n.IsDecorated
  where
  outer := by simp [h.outer_eq_nil]
  nodup := by simp [h.outer_eq_nil]
  color hshape := by
    obtain ⟨v, bold, italic, textMode, scale, htyped⟩ := h.shape
    rw [htyped] at hshape
    cases hshape
    simp

/-- Typed texts are read as what stands inside of their wrappers. -/
theorem reread_typed (h : ∀ n ∈ ns, n.IsTyped) :
  ns.flatMap Node.reread = ns.flatMap Node.inside
  := List.flatMap_congr fun n hn => Node.reread_of_outer (h n hn).outer_eq_nil

/-- Rereading typed texts keeps their canonical form. -/
theorem canonicalForm_reread_typed (h : ∀ n ∈ ns, n.IsTyped) :
  canonicalForm (ns.flatMap Node.reread) = canonicalForm ns
  := by
  apply canonicalForm_flatMap
  intro n hn
  obtain ⟨v, bold, italic, textMode, scale, hshape⟩ := (h n hn).shape
  obtain ⟨l, s⟩ := n
  obtain rfl : s = _ := hshape
  apply KeepsForm.text (h _ hn).isDecorated

/-- Typed texts have a canonical form. -/
theorem exists_canonicalForm_typed (h : ∀ n ∈ ns, n.IsTyped) :
  ∃ forms, canonicalForm ns = .ok forms
  := by
  apply exists_canonicalForm
  intro n hn o ho
  rw [walk_typed h] at hn
  obtain ⟨v, bold, italic, textMode, scale, hshape⟩ := (h n hn).shape
  rw [hshape] at ho
  contradiction

namespace SymbolTable

variable (t : SymbolTable)

/-- A character that typed text may have: the glyph of a symbol, the space, or any character
that is neither blank nor the fullwidth ampersand. -/
def Types (c : Char) : Prop :=
  (t.commandFor? [c]).isSome = true ∨ c = ' ' ∨ (Text.isBlank c = false ∧ c ≠ '＆')

variable {t}

theorem Types.writes {c : Char} (h : t.Types c) :
  t.Writes c
  := by
  rcases h with h | rfl | ⟨hblank, -⟩
  · apply Or.inl h
  · apply Or.inr rfl
  · apply Or.inr
    simp [isTextChar, hblank]

/-- The glyphs of symbols are typed. -/
theorem types_of_mem {info : SymbolInfo} {c : Char} (h : info ∈ t.symbols)
    (hglyph : info.glyph = [c]) (hlarge : info.largeOperator = false) :
  t.Types c
  := by
  left
  rw [commandFor?, Option.isSome_map, symbolFor?, List.find?_isSome]
  refine ⟨info, h, ?_⟩
  simp [hglyph, hlarge]

/-- An ampersand is only typed with a command. -/
theorem Types.ne_ampersand {c : Char} (h : t.Types c) (hnone : t.commandFor? ['＆'] = none) :
  c ≠ '＆'
  := by
  rintro rfl
  rcases h with h | h | ⟨-, h⟩
  · rw [hnone] at h
    contradiction
  · contradiction
  · contradiction

end SymbolTable

section Write

variable {settings : Settings} [settings.table.IsExtension]

/-- Typed texts are written, and what is written spells what they are reread as. -/
theorem exists_writePieces_typed (h : ∀ n ∈ ns, n.IsTyped)
    (hchars : ∀ n ∈ ns, ∀ c ∈ n.shape.value, settings.table.Types c) (tm : Bool) :
  ∃ m, writePieces settings tm (ns.map (piece settings)) = .ok m
    ∧ Spelled settings.table false false m (ns.flatMap Node.reread)
  := by
  apply exists_writePieces
    (R := fun m g => Spelled settings.table false false m (g.flatMap Node.reread))
  · intro tm parts nss hparts
    rw [← flatten_map_flatMap]
    apply Spelled.join (separator_separator (by simp))
    rw [List.forall₂_map_right_iff]
    apply hparts
  · intro n hn w hw
    rw [(h n hn).outer_eq_nil] at hw
    contradiction
  · intro r hne hsubset f hformat tm
    have hvalue : ∀ c ∈ r.flatMap (·.shape.value), settings.table.Types c := by
      intro c hc
      obtain ⟨n, hn, hc⟩ := List.mem_flatMap.1 hc
      apply hchars n (hsubset hn) c hc
    rw [reread_typed fun n hn => h n (hsubset hn), inside_run hformat]
    apply spelled_textRun (fun c hc => (hvalue c hc).writes) _ _ (by simp)
    · obtain ⟨n, hn⟩ := List.exists_mem_of_ne_nil r hne
      obtain ⟨v, scale, hshape⟩ := hformat n hn
      apply (h n (hsubset hn)).isDecorated.color hshape
    · intro hnone _ heq
      apply (hvalue '＆' (by rw [heq]; simp)).ne_ampersand hnone rfl
  · intro n hn htext
    obtain ⟨v, bold, italic, textMode, scale, hshape⟩ := (h n hn).shape
    rw [hshape] at htext
    contradiction

end Write

/-- Typed texts are equivalent to what their markup is read as, with the same further symbols. -/
theorem exists_equivalent_withExtra {extra : List SymbolInfo}
    (hcommand : ∀ info ∈ extra, isCommand info.command = true)
    (hnodup : (extra.map (·.command)).Nodup)
    (hown : ∀ info ∈ extra, info.command ∉ Reading.knownSpellings.flatten)
    (h : ∀ n ∈ ns, n.IsTyped)
    (hchars : ∀ n ∈ ns, ∀ c ∈ n.shape.value, (SymbolTable.withExtra extra).Types c)
    (supply : Supply) :
  ∃ markup again, toMarkup (.withExtra extra) config.write ns = .ok markup
    ∧ ((ofMarkup (.withExtra extra) config markup).runOn supply).1 = .ok again
    ∧ equivalent again ns = .ok true
  := by
  have := SymbolTable.isExtension_withExtra hnodup hown hcommand
  obtain ⟨m, hm, hspelled⟩ := @exists_writePieces_typed ns
    ⟨.withExtra extra, config.write.structural, config.write.sizing, maxBracketDepth ns⟩
    this h hchars false
  obtain ⟨again, hagain, hequivalent⟩ := @Spelled.exists_again config _ _ _
    hspelled.trimMarkup (canonicalForm_reread_typed h) (exists_canonicalForm_typed h) supply
  refine ⟨trimMarkup m, again, ?_, hagain, hequivalent⟩
  rw [toMarkup, hm]
  rfl

/-- Symbols that denote a letter, a blank, the fullwidth ampersand, an operator and a glyph of a
built-in symbol. -/
def furtherSymbols : List SymbolInfo :=
  [{ command := "\\a".toList, glyph := ['a'], spaced := true },
    { command := "\\t".toList, glyph := ['\t'] },
    { command := "\\A".toList, glyph := ['＆'] },
    { command := "\\p".toList, glyph := ['+'], italic := true },
    { command := "\\L".toList, glyph := ['≤'] }]

/-- Texts with the glyphs of the further symbols, one of them an ampersand alone in text
mode. -/
def extendedTexts : List Node :=
  [Node.plain 1 (.text "a\tb ≤".toList { bold := true } none),
    Node.plain 2 (.text ['＆'] { textMode := true } none),
    Node.plain 3 (.text "+a".toList { italic := some false } none)]

theorem exists_equivalent_extendedTexts :
  (∀ info ∈ furtherSymbols, isCommand info.command = true)
    ∧ (furtherSymbols.map (·.command)).Nodup
    ∧ (∀ info ∈ furtherSymbols, info.command ∉ Reading.knownSpellings.flatten)
    ∧ (∀ n ∈ extendedTexts, n.IsTyped)
    ∧ (∀ n ∈ extendedTexts, ∀ c ∈ n.shape.value, (SymbolTable.withExtra furtherSymbols).Types c)
    ∧ ∃ markup again, toMarkup (.withExtra furtherSymbols) {} extendedTexts = .ok markup
      ∧ ((ofMarkup (.withExtra furtherSymbols) {} markup).runOn {}).1 = .ok again
      ∧ equivalent again extendedTexts = .ok true
  := by
  have hcommand : ∀ info ∈ furtherSymbols, isCommand info.command = true := by decide
  have hnodup : (furtherSymbols.map (·.command)).Nodup := by decide
  have hown : ∀ info ∈ furtherSymbols, info.command ∉ Reading.knownSpellings.flatten := by
    intro info hinfo
    obtain ⟨c, hc, hletter⟩ : ∃ c, info.command = ['\\', c] ∧ Text.isLetter c = true := by
      simp only [furtherSymbols, List.mem_cons, List.not_mem_nil, or_false] at hinfo
      rcases hinfo with rfl | rfl | rfl | rfl | rfl <;> exact ⟨_, rfl, by decide⟩
    rw [hc]
    apply Reading.letter_not_mem_knownSpellings hletter
  have htyped : ∀ n ∈ extendedTexts, n.IsTyped := by
    intro n hn
    simp only [extendedTexts, List.mem_cons, List.not_mem_nil, or_false] at hn
    rcases hn with rfl | rfl | rfl <;> exact ⟨rfl, _, _, _, _, _, rfl⟩
  have hchars : ∀ n ∈ extendedTexts, ∀ c ∈ n.shape.value,
      (SymbolTable.withExtra furtherSymbols).Types c := by
    have hcases : ∀ n ∈ extendedTexts, ∀ c ∈ n.shape.value,
        (∃ info ∈ furtherSymbols, info.glyph = [c] ∧ info.largeOperator = false)
          ∨ c = ' ' ∨ (Text.isBlank c = false ∧ c ≠ '＆') := by decide
    have hsymbols : furtherSymbols ⊆ (SymbolTable.withExtra furtherSymbols).symbols :=
      SymbolTable.subset_withExtra hnodup hown
    intro n hn c hc
    rcases hcases n hn c hc with ⟨info, hinfo, hglyph, hlarge⟩ | htyped
    · apply SymbolTable.types_of_mem (hsymbols hinfo) hglyph hlarge
    · apply Or.inr htyped
  exact ⟨hcommand, hnodup, hown, htyped, hchars,
    @exists_equivalent_withExtra {} _ _ hcommand hnodup hown htyped hchars {}⟩

end Formula
