import Formula.Reading.Sequence

/-!
# What is left of a text

Every piece of markup is read from the beginning of a text, and leaves an ending of it.  What
is read together with what is left is never longer than the text.
-/

namespace Formula

variable {s u a rest : Text}

/-- An ending of a text that is not all of it. -/
theorem suffix_of_length_lt {c : Char} {cs : Text} (h : rest <:+ c :: cs)
    (hlength : rest.length < (c :: cs).length) :
  rest <:+ cs
  := by
  obtain rfl | h := List.suffix_cons_iff.1 h
  · exact absurd hlength (Nat.lt_irrefl _)
  · exact h

namespace Text

theorem skipBlanks_suffix (s : Text) : skipBlanks s <:+ s := List.dropWhile_suffix _

theorem skipMargin_suffix (s : Text) : skipMargin s <:+ s := List.dropWhile_suffix _

theorem suffix_of_skipBlanks_cons {c : Char} {cs : Text} (h : skipBlanks s = c :: cs) :
  cs <:+ s
  := (List.suffix_cons c cs).trans (h ▸ skipBlanks_suffix s)

theorem suffix_of_after? {start : Text} (h : after? start s = some rest) :
  rest <:+ s
  := ⟨start, (after?_eq_some_iff.1 h).symm⟩

theorem tail_of_after? {start : Text} {c : Char} {cs : Text} (hne : start ≠ [])
    (h : after? start (c :: cs) = some rest) :
  rest <:+ cs
  := by
  obtain ⟨d, ds, rfl⟩ := List.exists_cons_of_ne_nil hne
  rw [after?_cons] at h
  split at h
  · apply suffix_of_after? h
  · cases h

theorem length_of_beforeEnd? {ending : Text} (h : beforeEnd? ending s = some a) :
  a.length ≤ s.length
  := by
  obtain ⟨u, hu, rfl⟩ := Option.map_eq_some_iff.1 h
  simpa using (suffix_of_after? hu).length_le

end Text

theorem Spellings.suffix_of_longest? {t : Spellings} {spelling : Text}
    (h : t.longest? s = some (spelling, rest)) :
  rest <:+ s
  := ⟨spelling, (eq_append_of_longest? h).2.symm⟩

theorem CommandTable.suffix_of_longest? {α : Type} {t : CommandTable α} {command : Text} {x : α}
    (h : t.longest? s = some (command, x, rest)) :
  rest <:+ s
  := by
  simp only [longest?, Option.bind_eq_bind, Option.pure_def, Option.bind_eq_some_iff,
    Option.some.injEq, Prod.mk.injEq] at h
  obtain ⟨⟨_, _⟩, hl, _, _, -, -, rfl⟩ := h
  apply Spellings.suffix_of_longest? hl

/-- What follows a spelling is an ending of what follows its first character. -/
theorem Spellings.tail_of_longest? {t : Spellings} {c : Char} {cs spelling : Text}
    (h : t.longest? (c :: cs) = some (spelling, rest)) :
  rest <:+ cs
  := suffix_of_length_lt (suffix_of_longest? h) (length_lt_of_longest? h)

theorem CommandTable.tail_of_longest? {α : Type} {t : CommandTable α} {c : Char}
    {cs command : Text} {x : α} (h : t.longest? (c :: cs) = some (command, x, rest)) :
  rest <:+ cs
  := suffix_of_length_lt (suffix_of_longest? h) (length_lt_of_longest? h)

namespace Markup

open Text

/-! ### Groups and arguments -/

theorem suffix_of_untilBrace {depth : Nat} (h : untilBrace depth s = some (a, rest)) :
  rest <:+ s
  := by
  fun_induction untilBrace depth s generalizing a rest <;>
    simp only [map_prepend_eq_some_iff, Option.some.injEq, Prod.mk.injEq, reduceCtorEq] at h <;>
    grind [List.suffix_cons_iff]

theorem group_suffix (s : Text) :
  (group s).2 <:+ s
  := by
  unfold group
  cases h : untilBrace 0 s with
  | none => apply List.nil_suffix
  | some p => apply suffix_of_untilBrace h

theorem suffix_of_untilSquare {depth braces : Nat}
    (h : untilSquare depth braces s = some (a, rest)) :
  rest <:+ s
  := by
  fun_induction untilSquare depth braces s generalizing a rest <;>
    simp only [map_prepend_eq_some_iff, Option.some.injEq, Prod.mk.injEq, reduceCtorEq] at h <;>
    grind [List.suffix_cons_iff]

theorem optional_suffix (s : Text) :
  (optional s).2 <:+ s
  := by
  unfold optional
  split
  · rename_i cs heq
    apply List.IsSuffix.trans _ (suffix_of_skipBlanks_cons heq)
    cases h : untilSquare 0 0 cs with
    | none => apply List.nil_suffix
    | some p => apply suffix_of_untilSquare h
  · apply List.suffix_rfl

theorem suffix_of_commandName (h : commandName s = some (a, rest)) :
  rest <:+ s
  := by
  cases s with
  | nil => cases h
  | cons c cs =>
    simp only [commandName] at h
    split at h
    · obtain ⟨-, rfl⟩ := Prod.mk.inj (Option.some.inj h)
      apply List.dropWhile_suffix
    · obtain ⟨-, rfl⟩ := Prod.mk.inj (Option.some.inj h)
      apply List.suffix_cons

theorem argument_suffix (s : Text) :
  (argument s).2 <:+ s
  := by
  unfold argument
  split
  · apply List.nil_suffix
  · rename_i cs heq
    apply (group_suffix cs).trans (suffix_of_skipBlanks_cons heq)
  · rename_i cs heq
    split
    · rename_i h
      apply (suffix_of_commandName h).trans (suffix_of_skipBlanks_cons heq)
    · apply suffix_of_skipBlanks_cons heq
  · rename_i heq
    apply suffix_of_skipBlanks_cons heq

/-- An optional argument in an ending of a text, and what follows it. -/
theorem optional_cases {content? : Option Text} (hs : s <:+ u)
    (h : optional s = (content?, rest)) :
  rest <:+ u ∧ (content?.getD []).length ≤ u.length
  := by
  have hrest := optional_suffix s
  have hlength := length_optional_le s
  rw [h] at hrest hlength
  exact ⟨hrest.trans hs, Nat.le_trans (Nat.le_of_add_right_le hlength) hs.length_le⟩

/-- An argument in an ending of a text, and what follows it. -/
theorem argument_cases (hs : s <:+ u) (h : argument s = (a, rest)) :
  rest <:+ u ∧ a.length ≤ u.length
  := by
  have hrest := argument_suffix s
  have hlength := length_argument_le s
  rw [h] at hrest hlength
  exact ⟨hrest.trans hs, Nat.le_trans (Nat.le_of_add_right_le hlength) hs.length_le⟩

theorem suffix_of_scriptMarker? {side : ScriptSide} (h : scriptMarker? s = some (side, rest)) :
  rest <:+ s
  := by
  unfold scriptMarker? at h
  split at h
  · cases h
  · rename_i heq
    simp only [Option.map_eq_some_iff, Prod.mk.injEq] at h
    obtain ⟨_, -, -, rfl⟩ := h
    apply suffix_of_skipBlanks_cons heq

/-- A group in an ending of a text, and what follows it. -/
theorem group_cases (hs : s <:+ u) (h : group s = (a, rest)) :
  rest <:+ u ∧ a.length ≤ u.length
  := by
  have hrest := group_suffix s
  have hlength := length_group_le s
  rw [h] at hrest hlength
  exact ⟨hrest.trans hs, Nat.le_trans (Nat.le_of_add_right_le hlength) hs.length_le⟩

/-- The group that stands next in an ending of a text, and what follows it. -/
theorem nextGroup?_cases (hs : s <:+ u) (h : nextGroup? s = some (a, rest)) :
  rest <:+ u ∧ a.length ≤ u.length
  := by
  unfold nextGroup? at h
  split at h
  · rename_i cs heq
    apply group_cases ((suffix_of_skipBlanks_cons heq).trans hs) (Option.some.inj h)
  · cases h

theorem suffix_of_command? {command : Text} (h : command? command s = some rest) :
  rest <:+ s
  := by
  simp only [command?, Option.bind_eq_bind, Option.bind_eq_some_iff] at h
  obtain ⟨u, hu, h⟩ := h
  split at h
  · cases h
  · cases h
    apply suffix_of_after? hu

theorem tail_of_command? {command : Text} {c : Char} {cs : Text} (hne : command ≠ [])
    (h : command? command (c :: cs) = some rest) :
  rest <:+ cs
  := by
  simp only [command?, Option.bind_eq_bind, Option.bind_eq_some_iff] at h
  obtain ⟨u, hu, h⟩ := h
  split at h <;> cases h
  apply tail_of_after? hne hu

/-! ### Brackets -/

theorem suffix_of_sizeCommand? {opening : Bool} (h : sizeCommand? s = some (opening, rest)) :
  rest <:+ s
  := by
  unfold sizeCommand? at h
  split at h
  · rename_i cs
    have hletters : cs.dropWhile Text.isLetter <:+ '\\' :: cs :=
      (List.dropWhile_suffix _).trans (List.suffix_cons _ _)
    grind
  · cases h

theorem suffix_of_untilClosing {depth : Nat} (h : untilClosing depth s = some (a, rest)) :
  rest <:+ s
  := by
  fun_induction untilClosing depth s generalizing a rest
  case case1 => cases h
  case case3 hrest =>
    obtain ⟨-, rfl⟩ := Prod.mk.inj (Option.some.inj h)
    apply suffix_of_sizeCommand? hrest
  all_goals
    simp only [map_prepend_eq_some_iff] at h
    grind [List.suffix_cons_iff]

/-- The content of a sized bracket in an ending of a text, and what follows it. -/
theorem untilClosing_cases {depth : Nat} (hs : s <:+ u)
    (h : untilClosing depth s = some (a, rest)) :
  rest <:+ u ∧ a.length ≤ u.length
  := by
  have hlength := length_of_untilClosing h
  refine ⟨(suffix_of_untilClosing h).trans hs, Nat.le_trans ?_ hs.length_le⟩
  omega

theorem suffix_of_delimiter (h : delimiter s = (a, rest)) :
  rest <:+ s
  := by
  unfold delimiter at h
  split at h
  · cases h
    apply List.nil_suffix
  · rename_i d ds heq
    have hs : d :: ds <:+ s := heq ▸ skipBlanks_suffix s
    split at h
    · rename_i hlongest
      cases h
      apply (CommandTable.suffix_of_longest? hlongest).trans hs
    · split at h <;> cases h
      · apply hs
      · apply (List.suffix_cons _ _).trans hs

/-! ### Environments -/

theorem suffix_of_afterMarker? {marker name : Text}
    (h : afterMarker? marker name s = some rest) :
  rest <:+ s
  := by
  simp only [afterMarker?, Option.bind_eq_bind, Option.bind_eq_some_iff] at h
  obtain ⟨u, hu, h⟩ := h
  apply ((suffix_of_after? h).trans (skipMargin_suffix u)).trans (suffix_of_after? hu)

theorem suffix_of_untilEnd {name : Text} {depth : Nat}
    (h : untilEnd name depth s = some (a, rest)) :
  rest <:+ s
  := by
  fun_induction untilEnd name depth s generalizing a rest
  case case1 => cases h
  case case3 hrest =>
    obtain ⟨-, rfl⟩ := Prod.mk.inj (Option.some.inj h)
    apply suffix_of_afterMarker? hrest
  all_goals
    simp only [map_prepend_eq_some_iff] at h
    grind [List.suffix_cons_iff]

theorem environmentBody_suffix (name s : Text) :
  (environmentBody name s).2 <:+ s
  := by
  unfold environmentBody
  cases h : untilEnd name 0 s with
  | none => apply List.nil_suffix
  | some p => apply suffix_of_untilEnd h

/-- The body of an environment in an ending of a text, and what follows it. -/
theorem environmentBody_cases {name : Text} (hs : s <:+ u)
    (h : environmentBody name s = (a, rest)) :
  rest <:+ u ∧ a.length ≤ u.length
  := by
  have hrest := environmentBody_suffix name s
  have hlength := length_environmentBody_le name s
  rw [h] at hrest hlength
  exact ⟨hrest.trans hs, Nat.le_trans (Nat.le_of_add_right_le hlength) hs.length_le⟩

theorem tail_of_beginEnvironment? {c : Char} {cs name : Text}
    (h : beginEnvironment? (c :: cs) = some (name, rest)) :
  rest <:+ cs
  := by
  simp only [beginEnvironment?, Option.bind_eq_bind, Option.bind_eq_some_iff] at h
  obtain ⟨u, hu, v, hv, w, hw, h⟩ := h
  split at h <;> cases h
  have hu' : u <:+ cs := tail_of_after? (by decide) hu
  apply ((suffix_of_after? hw).trans (List.dropWhile_suffix _)).trans
  apply ((suffix_of_after? hv).trans (skipMargin_suffix u)).trans hu'

/-- What is added to a cell is added to all that is in the cells. -/
theorem flatten_addToCell (front : Text) (rows : List (List Text)) :
  (addToCell front rows).flatten.flatten = front ++ rows.flatten.flatten
  := by
  fun_cases addToCell front rows <;> simp

theorem flatten_beginCell (rows : List (List Text)) :
  (beginCell rows).flatten.flatten = rows.flatten.flatten
  := by
  fun_cases beginCell rows <;> simp

/-- The cells hold no more than the body that they are cut from. -/
theorem flatten_splitRows_sublist (depth : Int) (s : Text) :
  (splitRows depth s).flatten.flatten.Sublist s
  := by
  fun_induction splitRows depth s with
  | case1 | case2 => simp
  | case3 depth c cs hc ih => simpa using (ih.cons c).cons _
  | case4 depth c cs hc ih => simpa [flatten_addToCell] using ih
  | case5 depth cs ih | case6 depth cs ih => simpa [flatten_addToCell] using ih
  | case7 depth c cs _ _ _ _ hc ih => simpa [flatten_beginCell] using ih.cons c
  | case8 depth c cs _ _ _ _ hc ih => simpa [flatten_addToCell] using ih

theorem length_le_of_mem_splitRows {depth : Int} {row : List Text} {cell : Text}
    (hrow : row ∈ splitRows depth s) (hcell : cell ∈ row) :
  cell.length ≤ s.length
  := by
  have hmem := List.mem_flatten_of_mem hrow hcell
  apply ((List.sublist_flatten_of_mem hmem).trans (flatten_splitRows_sublist depth s)).length_le

end Markup

namespace Reading

open Markup Text

theorem tail_of_operatorName? {c : Char} {cs : Text} {star : Bool}
    (h : operatorName? (c :: cs) = some (star, rest)) :
  rest <:+ cs
  := by
  simp only [operatorName?, Option.bind_eq_bind, Option.bind_eq_some_iff] at h
  obtain ⟨u, hu, h⟩ := h
  have hu' := tail_of_after? (by decide) hu
  split at h
  · split at h <;> cases h
    · apply hu'
    · apply (List.suffix_cons _ _).trans hu'
  · split at h <;> cases h
    apply hu'

/-- The group after a solidus in an ending of a text, and what follows it. -/
theorem afterSolidus?_cases (hs : s <:+ u) (h : afterSolidus? s = some (a, rest)) :
  rest <:+ u ∧ a.length ≤ u.length
  := by
  unfold afterSolidus? at h
  split at h
  · rename_i cs heq
    apply nextGroup?_cases ((suffix_of_skipBlanks_cons heq).trans hs) h
  · cases h

theorem suffix_of_columnSpecification {kind : GridKind} {declared : Nat}
    (h : columnSpecification kind s = (declared, rest)) :
  rest <:+ s
  := by
  unfold columnSpecification at h
  split at h <;> cases h
  · rename_i hgroup
    apply (nextGroup?_cases List.suffix_rfl hgroup).1
  · apply List.suffix_rfl

theorem suffix_of_colorOf {kind : WrapperKind} {color : Option Text}
    (h : colorOf kind s = (color, rest)) :
  rest <:+ s
  := by
  unfold colorOf at h
  split at h <;> cases h
  · apply argument_suffix
  · apply List.suffix_rfl

end Reading

namespace Differential

open Markup Text

/-- The parts of a differential are no longer than its text. -/
theorem lengths_of_split? {d : Differential} (h : split? s = some d) :
  (d.order.getD []).length ≤ s.length ∧ d.rest.length ≤ s.length
  := by
  have hs := length_skipMargin_le s
  have hsign : ∀ isPartial u, ((split?.afterSign isPartial u).order.getD []).length ≤ u.length
      ∧ (split?.afterSign isPartial u).rest.length ≤ u.length := by
    intro isPartial u
    unfold split?.afterSign
    split
    · rename_i cs heq
      have hcs := (suffix_of_skipBlanks_cons heq).length_le
      have := length_argument_le cs
      dsimp only [Option.getD_some]
      omega
    · simpa using length_skipBlanks_le u
  rw [split?] at h
  split at h
  · rename_i u hu
    cases h
    have := (suffix_of_command? hu).length_le
    have := hsign true u
    omega
  · obtain ⟨u, hu, rfl⟩ := Option.map_eq_some_iff.1 h
    have := (suffix_of_after? hu).length_le
    have := hsign false u
    omega

theorem length_differentials_le (numerator denominator : Differential) :
  (differentials numerator denominator).length ≤ denominator.rest.length
  := by
  unfold differentials
  split
  · apply Nat.le_refl
  · rename_i order _
    dsimp only
    cases h : beforeEnd? (['^', '{'] ++ order ++ ['}']) (trimEnd isBlank denominator.rest) with
    | none => apply Nat.le_refl
    | some back =>
      apply Nat.le_trans (length_of_beforeEnd? h)
      rw [trimEnd, List.length_reverse, ← denominator.rest.length_reverse]
      apply (List.dropWhile_suffix _).length_le

theorem lengths_of_pair? {numerator denominator : Text} {longForm : Bool}
    {top bottom : Differential} (h : pair? numerator denominator longForm = some (top, bottom)) :
  (top.order.getD []).length ≤ numerator.length ∧ top.rest.length ≤ numerator.length
    ∧ (differentials top bottom).length ≤ denominator.length
  := by
  simp only [pair?, Option.bind_eq_bind, Option.bind_eq_some_iff] at h
  obtain ⟨d, hd, e, he, h⟩ := h
  split at h
  · cases h
  · cases h
    obtain ⟨horder, hrest⟩ := lengths_of_split? hd
    exact ⟨horder, hrest, Nat.le_trans (length_differentials_le _ _) (lengths_of_split? he).2⟩

end Differential

end Formula
