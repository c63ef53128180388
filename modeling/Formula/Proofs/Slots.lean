import Formula.Proofs.PlainText

/-!
# Written slots

A slot is written as a group, as trimmed content, as a script or as an order.  If its nodes
are read as they are written, then so is the slot.
-/

namespace Formula

open Build Markup Writing

variable {settings : Settings} {cell : Bool} {m : Text} {a s : List Node}

/-! ### Groups, contents and scripts -/

/-- A slot is read from the group that it is written as. -/
theorem Written.group (h : Written settings a) (tm : Bool) :
  ∃ content, writeGroup settings tm (a.map (piece settings)) = .ok (braced content)
    ∧ content ≠ [] ∧ Spelled .builtin false false content (a.flatMap Node.reread)
  := by
  obtain ⟨m, hm, hspelled⟩ := h tm false false (by simp) (by simp)
  obtain ⟨content, hgroup, hne, hcontent⟩ := hspelled.group
  refine ⟨content, ?_, hne, hcontent⟩
  rw [writeGroup, hm, ← hgroup]
  rfl

/-- A slot is read from the content that it is written as. -/
theorem Written.content (h : Written settings a) (tm : Bool)
    (hcell : cell = true → ∀ n ∈ a, Node.exposes settings.structural n = false) :
  ∃ m, writeContent settings tm (a.map (piece settings)) = .ok m
    ∧ Spelled .builtin false cell m (a.flatMap Node.reread)
  := by
  obtain ⟨m, hm, hspelled⟩ := h tm false cell (by simp) hcell
  refine ⟨_, ?_, hspelled.trimMarkup⟩
  rw [writeContent, hm]
  rfl

/-- A slot that may be absent is read from the script that it is written as. -/
theorem exists_script {p : Option (List Node)} (h : ∀ a ∈ p, Written settings a) (tm : Bool)
    (side : ScriptSide) :
  ∃ q, writeScript settings tm side (p.map (List.map (piece settings))) = .ok (scriptText side q)
    ∧ SlotSpelled q (p.map (List.flatMap Node.reread))
  := by
  cases p with
  | none => exact ⟨none, rfl, Option.Rel.none⟩
  | some a =>
    obtain ⟨content, hcontent, -, hspelled⟩ := (h a rfl).group tm
    refine ⟨some content, ?_, Option.Rel.some hspelled⟩
    rw [Option.map_some, writeScript, hcontent]
    rfl

/-! ### Orders -/

/-- Trimming takes off spaces only. -/
theorem mem_trimMarkup {c : Char} (hc : c ≠ ' ') (h : c ∈ m) :
  c ∈ trimMarkup m
  := by
  have hend : ∀ s : Text, c ∈ s → c ∈ trimEndReversed s := by
    intro s hs
    fun_induction trimEndReversed s with
    | case1 => apply hs
    | case2 cs _ ih =>
      rcases List.mem_cons.1 hs with rfl | hs
      · contradiction
      · apply ih hs
    | case3 => apply hs
  rw [trimMarkup, List.mem_reverse]
  apply hend
  rw [List.mem_reverse]
  clear hend
  induction m with
  | nil => contradiction
  | cons d ds ih =>
    rw [List.dropWhile_cons]
    split
    · rename_i hd
      rcases List.mem_cons.1 h with rfl | h
      · apply absurd (of_decide_eq_true hd) hc
      · apply ih h
    · apply h

theorem mem_orSpace {c : Char} (h : c ∈ m) :
  c ∈ orSpace m
  := by
  rw [orSpace]
  split
  · rename_i hempty
    rw [List.isEmpty_iff.1 hempty] at h
    contradiction
  · apply h

/-- Siblings whose content is letters and digits between blanks are that text. -/
theorem plainText?_of_content {tm : Bool} {p : Char → Bool}
    (hp : ∀ c, p c = true → Text.isBlank c = true)
    (hwrite : writeContent settings tm (s.map (piece settings)) = .ok m)
    (hspelled : Spelled .builtin false cell (orSpace m) (s.flatMap Node.reread))
    (hw : ∀ c ∈ Text.trimBoth p (orSpace m), isPlainChar c = true) :
  plainText? s = some (Text.trimBoth p (orSpace m))
  := by
  rcases hpieces : writePieces settings tm (s.map (piece settings)) with e | m'
  · rw [writeContent, hpieces] at hwrite
    cases hwrite
  · rw [writeContent, hpieces] at hwrite
    obtain rfl := Except.ok.inj hwrite
    apply plainText?_of_reread hpieces _ (eq_map_charNode_of_trimBoth hp hspelled hw)
    intro hback
    obtain ⟨front, back, hm, hfront, hback'⟩ := exists_trimBoth p (orSpace (trimMarkup m'))
    have hmem := mem_orSpace (mem_trimMarkup (by decide) hback)
    rw [hm] at hmem
    rcases List.mem_append.1 hmem with hmem | hmem
    · apply absurd (hp _ (hfront _ hmem)) (by decide)
    · rcases List.mem_append.1 hmem with hmem | hmem
      · apply absurd (hw _ hmem) (by decide)
      · apply absurd (hp _ (hback' _ hmem)) (by decide)

theorem trimMarkup_of_isPlainChar (h : ∀ c ∈ m, isPlainChar c = true) :
  trimMarkup m = m
  := by
  have hspace : ∀ c ∈ m, c ≠ ' ' := fun c hc => ne_of_isPlainChar (h c hc) (by decide)
  have hdrop : m.dropWhile (· = ' ') = m := by
    rw [List.dropWhile_eq_self_iff]
    intro hlength
    apply hspace _ (List.getElem_mem hlength) ∘ of_decide_eq_true
  rw [trimMarkup, hdrop]
  cases hrev : m.reverse with
  | nil => rw [List.reverse_eq_nil_iff.1 hrev]; rfl
  | cons c cs =>
    have hc : c ∈ m := by
      rw [← List.mem_reverse, hrev]
      apply List.mem_cons_self
    rw [trimEndReversed_of_ne (hspace c hc), ← hrev, List.reverse_reverse]

theorem isPlainChar_of_isPlain (h : Numeral.isPlain m = true) :
  ∀ c ∈ m, isPlainChar c = true
  := by
  intro c hc
  rw [isPlainChar, (Numeral.all_isDigit_of_isPlain h).2 c hc, Bool.true_or]

/-- The order of a legible derivative is written, unless it is that of a first derivative, and
read as it is written. -/
theorem exists_order (htable : settings.table = .builtin) {o : Order Node} (hlegible : o.Legible)
    (hslot : ∀ s ∈ o.slot?, Written settings s) (tm : Bool)
    (hcell : cell = true → ∀ s ∈ o.slot?, ∀ n ∈ s, Node.exposes settings.structural n = false) :
  ∃ order, WrittenOrder cell order (o.reread id Node.reread)
    ∧ isFirstOrder (Shape.mapSlotsOr.order (List.map (piece settings)) o) = order.isNone
    ∧ ∀ m ∈ order,
      writeOrder settings tm (Shape.mapSlotsOr.order (List.map (piece settings)) o) = .ok m
  := by
  cases o with
  | number n =>
    obtain ⟨hpos, hwritable⟩ := hlegible
    by_cases hn : n = 1
    · subst hn
      exact ⟨none, WrittenOrder.first, rfl, by simp⟩
    · obtain ⟨hplain, hread⟩ := Numeral.read_write hpos hwritable
      obtain ⟨hne, hdigits⟩ := Numeral.all_isDigit_of_isPlain hplain
      rw [Numeral.read_digits hne hdigits] at hread
      split at hread
      · cases hread
      · rename_i hlength
        have hspelled := @OrderSpelled.number cell _ hplain (Nat.le_of_not_lt hlength)
        rw [Except.ok.inj hread, Int.toNat_of_nonneg (by omega)] at hspelled
        refine ⟨some (Numeral.write n), WrittenOrder.written hspelled, ?_, ?_⟩
        · simp [isFirstOrder, Shape.mapSlotsOr.order, hn]
        · intro m hm
          obtain rfl := Option.some.inj hm
          simp only [Shape.mapSlotsOr.order, writeOrder, hwritable]
          rfl
  | sequence s =>
    obtain ⟨m, hm, hspelled⟩ := (hslot s rfl).content tm fun h => hcell h s rfl
    have hwrite : ∀ order ∈ some (orSpace m), writeOrder settings tm
        (Shape.mapSlotsOr.order (List.map (piece settings)) (.sequence s)) = .ok order := by
      intro order horder
      obtain rfl := Option.some.inj horder
      rw [Shape.mapSlotsOr.order, writeOrder, hm]
      rfl
    refine ⟨some (orSpace m), WrittenOrder.written ?_, rfl, hwrite⟩
    rw [Order.reread, List.map_id]
    cases hnumeral : numeral? s with
    | some digits =>
      obtain ⟨hplain, hisPlain⟩ := Option.filter_eq_some_iff.1 hnumeral
      have hchars := isPlainChar_of_isPlain hisPlain
      have hpieces := @writePieces_of_plainText? settings tm _ _ htable hplain hchars
      rw [writeContent, hpieces] at hm
      obtain rfl : trimMarkup digits = m := Except.ok.inj hm
      have hdigits : orSpace (trimMarkup digits) = digits := by
        rw [trimMarkup_of_isPlainChar hchars, orSpace, if_neg]
        rw [List.isEmpty_iff]
        apply (Numeral.all_isDigit_of_isPlain hisPlain).1
      rw [hdigits]
      apply OrderSpelled.number hisPlain (hlegible digits hnumeral)
    | none =>
      apply OrderSpelled.sequence hspelled.orSpace
      rw [numericOrder?_eq, if_neg]
      intro hplain
      have hchars := isPlainChar_of_isPlain hplain
      have htext := plainText?_of_content (fun c hc => by
        rw [Text.isMarginBlank, Bool.and_eq_true] at hc
        apply hc.1) hm hspelled.orSpace hchars
      rw [numeral?, htext, Option.filter_some, if_pos hplain] at hnumeral
      contradiction

end Formula
