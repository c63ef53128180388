import Formula.Proofs.Fragment
import Formula.Proofs.Vocabulary
import Mathlib.Data.List.Forall2

/-!
# Which reader takes an item

The readers are tried in a fixed order, and every one of them only takes an item that
begins with one of its spellings, which `Reading.heads` lists; the reader of an item is the
first one that none of the earlier spellings keeps from it.
-/

namespace Formula

namespace Reading

/-- No spelling of the list stands at the beginning of the text. -/
def Free (l : List Text) (s : Text) : Prop :=
  ∀ sp ∈ l, sp ≠ [] → ∀ rest, ¬ Spellings.Stands sp s rest

variable {l : List Text} {s name rest : Text}

theorem Free.longest?_eq_none (h : Free l s) :
  (Spellings.ofList l).longest? s = none
  := Spellings.longest?_eq_none_iff.2 h

theorem Free.table_eq_none {α : Type} {t : CommandTable α} (h : Free t.commands s) :
  t.longest? s = none
  := by
  apply CommandTable.longest?_eq_none
  rw [t.spellings_eq_ofList]
  apply h.longest?_eq_none

theorem Free.mono {l' : List Text} (h : Free l s) (hl : l' ⊆ l) :
  Free l' s
  := fun sp hsp => h sp (hl hsp)

/-- A text is free of spellings that all disagree with its beginning. -/
theorem free_of_start {p : Text} (h : ∀ sp ∈ l, ¬ sp <+: p ∧ ¬ p <+: sp) :
  Free l (p ++ rest)
  := Spellings.longest?_eq_none_iff.1 (Spellings.longest?_append_eq_none h)

/-- A command is free of spellings that all have other names. -/
theorem free_of_name (hname : Text.isLetters name = true)
    (hrest : Text.startsWithLetter rest = false)
    (h : ∀ sp ∈ l, sp ≠ ['\\'] ∧ Text.nameOf? sp ≠ some name) :
  Free l ('\\' :: (name ++ rest))
  := Spellings.longest?_eq_none_iff.1 (Spellings.longest?_name_eq_none hname hrest h)

/-- A spelling of the list does not stand at the beginning of a text that is free of it. -/
theorem Free.not_stands (h : Free l s) (sp rest : Text) (hsp : sp ∈ l) (hne : sp ≠ []) :
  ¬ Spellings.Stands sp s rest
  := h sp hsp hne rest

/-! ### Passing over -/

/-- A reader passes over the texts in which none of its spellings stands first. -/
def Passes (r : Reader) (l : List Text) : Prop :=
  ∀ nested s, Free l s → r .builtin nested s = none

theorem passes_style : Passes style (['{'] :: styleCommands.commands)
  := by
  intro nested s hs
  unfold style
  split
  · rename_i cs
    exact absurd ⟨rfl, rfl⟩ (hs.not_stands ['{'] cs (by simp) (by simp))
  · have := hs.mono (List.subset_cons_self _ _)
    rw [this.table_eq_none, Option.map_none]

theorem passes_root : Passes root ["\\sqrt".toList]
  := by
  intro nested s hs
  rw [root, Option.map_eq_none_iff, Markup.command?]
  cases h : Text.after? "\\sqrt".toList s with
  | none => rfl
  | some rest =>
    have hstands := hs.not_stands _ rest List.mem_cons_self (by decide)
    rw [Spellings.Stands, not_and] at hstands
    have := hstands (Text.after?_eq_some_iff.1 h)
    simp_all [Spellings.boundary]

theorem passes_environment : Passes environment ["\\begin".toList]
  := by
  intro nested s hs
  rw [environment, Markup.beginEnvironment?]
  cases h : Text.after? "\\begin".toList s with
  | none => rfl
  | some rest =>
    have hstands := hs.not_stands _ rest List.mem_cons_self (by decide)
    rw [Spellings.Stands, not_and] at hstands
    have hletter := hstands (Text.after?_eq_some_iff.1 h)
    cases rest with
    | nil => simp [Spellings.boundary, Text.startsWithLetter] at hletter
    | cons c cs =>
      have hc : Text.isLetter c = true := by
        by_contra hc
        simp [Spellings.boundary, Text.startsWithLetter, hc] at hletter
      have hblank : Text.isMarginBlank c = false :=
        Text.isMarginBlank_of_not_isBlank (Text.isBlank_of_isLetter hc)
      have hbrace : c ≠ '{' := by
        rintro rfl
        contradiction
      simp [Text.skipMargin, hblank, Text.after?_cons, hbrace]

theorem passes_function :
  Passes function ("\\operatorname".toList :: FunctionInfo.table.commands)
  := by
  intro nested s hs
  have hname : operatorName? s = none := by
    rw [operatorName?]
    cases h : Text.after? "\\operatorname".toList s with
    | none => rfl
    | some rest =>
      have hstands := hs.not_stands _ rest List.mem_cons_self (by decide)
      rw [Spellings.Stands, not_and] at hstands
      have hletter := hstands (Text.after?_eq_some_iff.1 h)
      have hstart : Text.startsWithLetter rest = true := by
        by_contra hc
        simp [Spellings.boundary, hc] at hletter
      cases rest with
      | nil => contradiction
      | cons c cs =>
        have hstar : c ≠ '*' := by
          rintro rfl
          contradiction
        simp only [Option.bind_eq_bind, Option.bind_some]
        split
        · simp_all
        · simp [hstart]
  have htable := hs.mono (List.subset_cons_self _ _)
  rw [function, hname, htable.table_eq_none]
  rfl

theorem passes_script : Passes script [['^'], ['_']]
  := by
  intro nested s hs
  cases s with
  | nil => rfl
  | cons c cs =>
    rw [script, Option.map_eq_none_iff]
    cases h : ScriptSide.ofMarker? c with
    | none => rfl
    | some side =>
      obtain rfl := ScriptSide.ofMarker?_eq_some_iff.1 h
      cases side with
      | superscript =>
        exact absurd ⟨rfl, rfl⟩ (hs.not_stands ['^'] cs (by simp) (by simp))
      | subscript =>
        exact absurd ⟨rfl, rfl⟩ (hs.not_stands ['_'] cs (by simp) (by simp))

theorem passes_spacing : Passes spacing (['\\', ' '] :: spacingCommands)
  := by
  intro nested s hs
  rw [spacing]
  cases h : Text.after? ['\\', ' '] s with
  | none =>
    have hignored := hs.mono (List.subset_cons_self _ _)
    simp only [Option.map_eq_none_iff]
    apply hignored.longest?_eq_none
  | some rest =>
    exact absurd ⟨Text.after?_eq_some_iff.1 h, rfl⟩
      (hs.not_stands ['\\', ' '] rest (by simp) (by simp))

theorem passes_group : Passes group [['{']]
  := by
  intro nested s hs
  unfold group
  split
  · rename_i cs
    exact absurd ⟨rfl, rfl⟩ (hs.not_stands ['{'] cs (by simp) (by simp))
  · rfl

theorem passes_symbol : Passes symbol symbolCommands
  := by
  intro nested s hs
  rw [symbol, SymbolTable.spellings_builtin]
  have := hs.longest?_eq_none
  rw [symbolCommands] at this
  simp [this]

/-- A reader that looks its command up in a table passes over all other texts. -/
theorem passes_table {α : Type} (t : CommandTable α) {r : Reader}
    (h : ∀ nested s, t.longest? s = none → r .builtin nested s = none) :
  Passes r t.commands
  := fun nested s hs => h nested s hs.table_eq_none

/-- Every reader passes over the texts in which none of its spellings stands first. -/
theorem forall₂_passes : List.Forall₂ Passes readers heads
  := by
  unfold readers heads
  refine .cons passes_style (.cons ?_ (.cons ?_ (.cons passes_root (.cons passes_environment
    (.cons ?_ (.cons ?_ (.cons passes_function (.cons ?_ (.cons ?_ (.cons ?_ (.cons ?_
    (.cons passes_symbol (.cons passes_script (.cons ?_ (.cons passes_spacing
    (.cons passes_group .nil))))))))))))))))
  all_goals first
    | apply passes_table
      intro nested s h
      simp only [derivative, fraction, largeOperator, integral, escape, emphasis, wrapper,
        accent, h, Option.map_none]
    | intro nested s h
      simp only [bracket, Delimiter.leftSizes, h.longest?_eq_none, Option.map_none]

/-! ### The step -/

variable {nested : Nested} {c : Char} {cs : Text} {k : Nat} {r : Reader}
  {b : Build (Item × Text)}

/-- The first `k` readers pass over a text that is free of their spellings. -/
theorem forall_take_eq_none {rs : List Reader} {ls : List (List Text)}
    (h : List.Forall₂ Passes rs ls) (hfree : ∀ l ∈ ls.take k, Free l s) :
  ∀ r ∈ rs.take k, r .builtin nested s = none
  := by
  induction h generalizing k with
  | nil => simp
  | cons hr hrs ih =>
    cases k with
    | zero => simp
    | succ k =>
      simp only [List.take_succ_cons, List.mem_cons, forall_eq_or_imp] at hfree ⊢
      constructor
      · apply hr nested s hfree.1
      · apply ih hfree.2

/-- An item is read by a reader when it is free of the spellings of the earlier ones. -/
theorem step_eq (hr : readers[k]? = some r) (hfree : ∀ l ∈ heads.take k, Free l (c :: cs))
    (hb : r .builtin nested (c :: cs) = some b) :
  step .builtin nested c cs = b
  := by
  have hnone := @forall_take_eq_none _ nested _ _ _ forall₂_passes hfree
  obtain ⟨hk, rfl⟩ := List.getElem?_eq_some_iff.1 hr
  have hsplit : readers = readers.take k ++ readers[k] :: readers.drop (k + 1) := by
    rw [List.getElem_cons_drop, List.take_append_drop]
  rw [step, hsplit, List.findSome?_append, List.findSome?_eq_none_iff.2 hnone,
    List.findSome?_cons]
  simp only [hb, Option.none_or, Option.getD_some]

/-- A character that no reader takes is text. -/
theorem step_eq_literal (hfree : ∀ l ∈ heads, Free l (c :: cs)) :
  step .builtin nested c cs = literal c cs
  := by
  have hnone := @forall_take_eq_none _ nested 17 _ _ forall₂_passes hfree
  have hall : readers.take 17 = readers := rfl
  rw [hall] at hnone
  rw [step, List.findSome?_eq_none_iff.2 hnone, Option.getD_none]

/-! ### Commands -/

/-- A text that begins with a spelling of a reader is free of those of the earlier ones. -/
theorem free_of_nameOf? {sp : Text} (hname : Text.isLetters name = true)
    (htext : name.code ≠ Text.code "text".toList) (hk : heads[k]? = some l) (hmem : sp ∈ l)
    (hsp : Text.nameOf? sp = some name) (hrest : Text.startsWithLetter rest = false) :
  ∀ l' ∈ heads.take k, Free l' ('\\' :: (name ++ rest))
  := by
  intro l' hl'
  apply free_of_name hname hrest
  intro sp' hsp'
  apply nameOf?_ne hname htext hk hmem hsp hl' hsp'

/-- A command is read by the first reader that has it. -/
theorem step_name (hr : readers[k]? = some r) (hk : heads[k]? = some l)
    (hmem : '\\' :: name ∈ l) (hname : Text.isLetters name = true)
    (htext : name.code ≠ Text.code "text".toList)
    (hrest : Text.startsWithLetter rest = false)
    (hb : r .builtin nested ('\\' :: (name ++ rest)) = some b) :
  step .builtin nested '\\' (name ++ rest) = b
  := by
  apply step_eq hr _ hb
  apply free_of_nameOf? hname htext hk hmem (nameOf?_command hname) hrest

/-- An escaped character is free of spellings that do not begin with it. -/
theorem free_of_take (h : ∀ l ∈ heads.take k, ∀ sp ∈ l, sp.take 2 ≠ ['\\', c]) :
  ∀ l ∈ heads.take k, Free l ('\\' :: c :: rest)
  := by
  intro l hl sp hsp hne rest' hstands
  have hs := hstands.1
  match sp with
  | [] => contradiction
  | [d] =>
    obtain ⟨rfl, -⟩ := List.cons.inj hs
    apply (heads_checked.2.2.1 l (List.mem_of_mem_take hl) _ hsp).1 rfl
  | d :: e :: sp =>
    obtain ⟨rfl, htail⟩ := List.cons.inj hs
    obtain ⟨rfl, -⟩ := List.cons.inj htail
    apply h l hl _ hsp rfl

/-- A control space is free of the spellings that come before spacing. -/
theorem free_control_space : ∀ l ∈ heads.take 15, Free l ('\\' :: ' ' :: rest)
  := free_of_take heads_checked.2.2.2.2.1

/-- An escaped dollar sign is free of the spellings that come before symbols. -/
theorem free_escaped_dollar : ∀ l ∈ heads.take 12, Free l ('\\' :: '$' :: rest)
  := free_of_take fun l hl sp hsp => (heads_checked.2.2.2.1 l hl sp hsp).1

/-- A character that begins no spelling is text. -/
theorem step_plain (hc : c ∉ ['\\', '{', '^', '_']) :
  step .builtin nested c cs = literal c cs
  := by
  apply step_eq_literal
  intro l hl sp hsp hne rest hstands
  obtain ⟨d, hd, hhead⟩ := (heads_checked.2.2.1 l hl sp hsp).2
  cases sp with
  | nil => contradiction
  | cons e es =>
    obtain ⟨rfl, -⟩ := List.cons.inj hstands.1
    obtain rfl := Option.some.inj hhead
    contradiction

/-! ### Groups -/

/-- A group that no style begins is not read as a style. -/
theorem style_brace (h : Free styleCommands.commands (Text.skipBlanks cs)) :
  style .builtin nested ('{' :: cs) = none
  := by
  rw [style]
  simp only [h.table_eq_none, Option.map_none]

/-- A text that begins with a brace is read by a reader when no style begins the group and the
text is free of the spellings of the readers between. -/
theorem step_brace (hr : readers[k + 1]? = some r)
    (hstyle : Free styleCommands.commands (Text.skipBlanks cs))
    (hfree : ∀ l ∈ heads.tail.take k, Free l ('{' :: cs))
    (hb : r .builtin nested ('{' :: cs) = some b) :
  step .builtin nested '{' cs = b
  := by
  have hnone : ∀ r ∈ readers.tail.take k, r .builtin nested ('{' :: cs) = none := by
    apply forall_take_eq_none _ hfree
    have hall : List.Forall₂ Passes (style :: readers.tail)
        ((['{'] :: styleCommands.commands) :: heads.tail) := forall₂_passes
    apply (List.forall₂_cons.1 hall).2
  have htail : readers.tail[k]? = some r := by
    rw [List.getElem?_tail]
    apply hr
  obtain ⟨hk, rfl⟩ := List.getElem?_eq_some_iff.1 htail
  have hsplit : readers.tail
      = readers.tail.take k ++ readers.tail[k] :: readers.tail.drop (k + 1) := by
    rw [List.getElem_cons_drop, List.take_append_drop]
  have hcons : readers = style :: readers.tail := rfl
  rw [step, hcons, List.findSome?_cons, style_brace hstyle, hsplit, List.findSome?_append,
    List.findSome?_eq_none_iff.2 hnone, List.findSome?_cons]
  simp only [hb, Option.none_or, Option.getD_some]

/-- A group that neither a style nor an escape begins is read as a group. -/
theorem free_of_escape (h : Free Escape.table.commands ('{' :: cs)) :
  ∀ l ∈ heads.tail.take 15, Free l ('{' :: cs)
  := by
  intro l hl sp hsp hne rest hstands
  cases sp with
  | nil => contradiction
  | cons d ds =>
    obtain ⟨rfl, -⟩ := List.cons.inj hstands.1
    apply h _ (heads_checked.2.2.2.2.2.2.2.1 l hl _ hsp rfl) hne rest hstands

end Reading

end Formula
