import Formula.Proofs.Spelled

/-!
# Joining and trimming

What the writer does to pieces of markup keeps what they spell: trimming takes off blanks
only, joining puts a separator where a command name would run into a letter, and collapsing
spaces leaves every item as it is.
-/

namespace Formula

open Markup

namespace Writing

variable {s front : Text}

/-! ### Trimming -/

/-- The markup with a space on either side. -/
def padded (s : Text) : Text := [' '] ++ s ++ [' ']

/-- The markup without the spaces at its end. -/
def trimEndSpaces (s : Text) : Text := (trimEndReversed s.reverse).reverse

theorem trimMarkup_eq (s : Text) :
  trimMarkup s = trimEndSpaces (s.dropWhile (· = ' '))
  := rfl

theorem trimEndReversed_of_ne {c : Char} {cs : Text} (h : c ≠ ' ') :
  trimEndReversed (c :: cs) = c :: cs
  := by
  rw [trimEndReversed.eq_def]
  split <;> simp_all

theorem trimEndReversed_space {cs : Text} (h : cs.head? ≠ some '\\') :
  trimEndReversed (' ' :: cs) = trimEndReversed cs
  := by
  rw [trimEndReversed.eq_def]
  split <;> simp_all

/-- Spaces in front of a text are dropped with the spaces of the text. -/
theorem trimEndReversed_spaces {spaces : Text} (hspaces : ∀ c ∈ spaces, c = ' ')
    (h : s.head? ≠ some '\\') :
  trimEndReversed (spaces ++ s) = trimEndReversed s
  := by
  induction spaces with
  | nil => rfl
  | cons c cs ih =>
    obtain rfl := hspaces c List.mem_cons_self
    have htail : ∀ c ∈ cs, c = ' ' := fun c hc => hspaces c (List.mem_cons_of_mem _ hc)
    rw [List.cons_append, trimEndReversed_space, ih htail]
    cases cs with
    | nil => apply h
    | cons c cs =>
      obtain rfl := htail c List.mem_cons_self
      simp

/-- What is left after trimming keeps what stands behind it. -/
theorem trimEndReversed_append (h : trimEndReversed s ≠ []) :
  trimEndReversed (s ++ front) = trimEndReversed s ++ front
  := by
  fun_induction trimEndReversed s with
  | case1 cs => rfl
  | case2 cs hcs ih =>
    rw [List.cons_append, trimEndReversed_space, ih h]
    cases cs with
    | nil => contradiction
    | cons c cs =>
      rintro hc
      obtain rfl := Option.some.inj hc
      apply hcs cs rfl
  | case3 s h₁ h₂ =>
    cases s with
    | nil => contradiction
    | cons c cs =>
      rw [List.cons_append]
      apply trimEndReversed_of_ne
      rintro rfl
      apply h₂ cs rfl

/-- A text of which trimming leaves nothing consists of spaces. -/
theorem eq_space_of_trimEndReversed (h : trimEndReversed s = []) :
  ∀ c ∈ s, c = ' '
  := by
  fun_induction trimEndReversed s with
  | case1 => contradiction
  | case2 cs _ ih =>
    intro c hc
    rcases List.mem_cons.1 hc with rfl | hc
    · rfl
    · apply ih h c hc
  | case3 => simp [h]

/-- A space in front stays if anything is left behind it. -/
theorem trimEndSpaces_space :
  trimEndSpaces (' ' :: s) = if trimEndSpaces s = [] then [] else ' ' :: trimEndSpaces s
  := by
  simp only [trimEndSpaces, List.reverse_cons, List.reverse_eq_nil_iff]
  split
  · rename_i h
    rw [trimEndReversed_spaces (eq_space_of_trimEndReversed h) (by simp)]
    rfl
  · rename_i h
    rw [trimEndReversed_append h, List.reverse_append, List.reverse_singleton,
      List.singleton_append]

/-- What is left after trimming the end is a beginning of the text. -/
theorem isPrefix_trimEndSpaces (s : Text) :
  trimEndSpaces s <+: s
  := by
  have h : trimEndReversed s.reverse <:+ s.reverse := by
    generalize s.reverse = r
    fun_induction trimEndReversed r with
    | case1 => apply List.suffix_refl
    | case2 _ _ ih => apply ih.trans (List.suffix_cons _ _)
    | case3 => apply List.suffix_refl
  rw [← List.reverse_prefix, List.reverse_reverse] at h
  apply h

theorem endsInCommand_of_endsInName (h : endsInName s = true) :
  endsInCommand s = true
  := by
  rw [endsInName] at h
  rw [endsInCommand]
  split
  · rename_i heq
    rw [heq] at h
    contradiction
  · apply h

/-- What appending parts and separating them keeps, joining them keeps. -/
theorem rel_join {α : Type} {R : Text → List α → Prop} {separator : Text} (hnil : R [] [])
    (happend : ∀ {a b as bs}, R a as → R b bs → Follow a b → R (a ++ b) (as ++ bs))
    (hsep : ∀ {a b as bs}, R a as → R b bs → R (a ++ separator ++ b) (as ++ bs))
    {parts : List Text} {xss : List (List α)} (h : List.Forall₂ R parts xss) :
  R (join separator parts) xss.flatten
  := by
  suffices hstep : ∀ joined xs, R joined xs →
      R (parts.foldl (fun joined part =>
        if Text.startsWithLetter part && endsInCommand joined then joined ++ separator ++ part
        else joined ++ part) joined) (xs ++ xss.flatten) by
    apply hstep [] [] hnil
  induction h with
  | nil =>
    intro joined xs hjoined
    simpa using hjoined
  | cons hpart _ ih =>
    intro joined xs hjoined
    rw [List.foldl_cons, List.flatten_cons, ← List.append_assoc]
    apply ih
    split
    · apply hsep hjoined hpart
    · rename_i hnot
      apply happend hjoined hpart
      intro hends
      rw [endsInCommand_of_endsInName hends, Bool.and_true, Bool.not_eq_true] at hnot
      apply hnot

end Writing

open Writing

variable {t : SymbolTable} {keep cell : Bool} {a b m core : Text} {ns ns' : List Node}

theorem Whole.head?_reverse (h : Whole core) (front : Text) :
  (core.reverse ++ front).head? ≠ some '\\'
  := by
  obtain ⟨before, c, rfl, hc, -⟩ := h
  simp [hc]

theorem Whole.trimEndReversed (h : Whole core) (front : Text) :
  Writing.trimEndReversed (core.reverse ++ front) = core.reverse ++ front
  := by
  obtain ⟨before, c, rfl, -, hspace⟩ := h
  by_cases hc : c = ' '
  · obtain ⟨before, rfl⟩ := hspace hc
    simp [hc, Writing.trimEndReversed]
  · simp only [List.reverse_append, List.reverse_cons, List.reverse_nil, List.nil_append,
      List.cons_append]
    apply trimEndReversed_of_ne hc

/-- Trimming a text that ends with a whole item and more only trims what is more. -/
theorem Whole.trimEndSpaces_append (h : Whole core) (m : Text) :
  trimEndSpaces (core ++ m) = core ++ trimEndSpaces m
  := by
  rw [trimEndSpaces, trimEndSpaces, List.reverse_append]
  by_cases hm : Writing.trimEndReversed m.reverse = []
  · have hcore := h.head?_reverse []
    rw [List.append_nil] at hcore
    have hwhole := h.trimEndReversed []
    rw [List.append_nil] at hwhole
    rw [trimEndReversed_spaces (eq_space_of_trimEndReversed hm) hcore, hwhole, hm]
    simp
  · rw [trimEndReversed_append hm]
    simp

theorem Whole.append (h : Whole b) :
  Whole (a ++ b)
  := by
  obtain ⟨front, c, rfl, hc, hspace⟩ := h
  refine ⟨a ++ front, c, by simp, hc, ?_⟩
  intro hspace'
  obtain ⟨before, rfl⟩ := hspace hspace'
  exact ⟨a ++ before, by simp⟩

theorem Whole.concat {c : Char} (hc : c ≠ '\\') (hspace : c ≠ ' ') :
  Whole (a ++ [c])
  := ⟨a, c, rfl, hc, fun h => absurd h hspace⟩

theorem Whole.command {name : Text} (h : Text.isLetters name = true) :
  Whole ('\\' :: name)
  := by
  simp only [Text.isLetters, Bool.and_eq_true, List.all_eq_true, Bool.not_eq_true',
    List.isEmpty_eq_false_iff] at h
  obtain ⟨hne, hletters⟩ := h
  obtain ⟨front, c, rfl⟩ := List.eq_nil_or_concat' name |>.resolve_left hne
  have hc := hletters c (by simp)
  apply Whole.concat (a := '\\' :: front)
  · rintro rfl
    contradiction
  · rintro rfl
    contradiction

namespace Spelled

/-- Nothing is spelled by the empty markup. -/
theorem eq_nil (h : Spelled t keep cell [] ns) :
  ns = []
  := by
  generalize hm : ([] : Text) = m at h
  cases h with
  | nil => rfl
  | blank _ _ => contradiction
  | item hcore _ _ => exact absurd (List.append_eq_nil_iff.1 hm.symm).1 hcore.ne_nil

theorem dropSpaces (h : Spelled t keep cell m ns) :
  Spelled t keep cell (m.dropWhile (· = ' ')) ns
  := by
  induction h with
  | nil => apply Spelled.nil
  | blank _ _ ih => apply ih
  | item hcore hfollow hm _ =>
    obtain ⟨c, cs, rfl, hblank, -⟩ := hcore.head
    have hc : c ≠ ' ' := by
      rintro rfl
      contradiction
    rw [List.cons_append, List.dropWhile_cons_of_neg (by simp [hc])]
    apply Spelled.item hcore hfollow hm

theorem trimEnd (h : Spelled t keep cell m ns) :
  Spelled t keep cell (trimEndSpaces m) ns
  := by
  induction h with
  | nil => apply Spelled.nil
  | blank hkeep _ ih =>
    rw [trimEndSpaces_space]
    split
    · rename_i hrest
      rw [hrest] at ih
      rw [ih.eq_nil]
      apply Spelled.nil
    · apply Spelled.blank hkeep ih
  | item hcore hfollow _ ih =>
    rw [hcore.whole.trimEndSpaces_append]
    apply Spelled.item hcore (hfollow.of_prefix (isPrefix_trimEndSpaces _)) ih

/-- Trimming keeps what is spelled. -/
theorem trimMarkup (h : Spelled t keep cell m ns) :
  Spelled t keep cell (Writing.trimMarkup m) ns
  := by
  rw [trimMarkup_eq]
  apply h.dropSpaces.trimEnd

/-- Blank markup spells nothing. -/
theorem eq_nil_of_isAllBlank (h : Spelled t keep cell m ns) (hblank : Text.isAllBlank m = true) :
  ns = []
  := by
  induction h with
  | nil => rfl
  | blank _ _ ih =>
    rw [Text.isAllBlank, List.all_cons, Bool.and_eq_true] at hblank
    apply ih hblank.2
  | item hcore _ _ _ =>
    obtain ⟨c, cs, rfl, hc, -⟩ := hcore.head
    simp [Text.isAllBlank, hc] at hblank

/-! ### Groups -/

/-- A space spells nothing. -/
theorem space : Spelled t false cell [' '] [] := .blank rfl .nil

/-- The content of a group spells what its body spells, and is never empty. -/
theorem group (h : Spelled t keep cell m ns) :
  ∃ content, Writing.group m = braced content ∧ content ≠ []
    ∧ Spelled t false false content ns
  := by
  cases hblank : Text.isAllBlank m with
  | true =>
    refine ⟨[' '], ?_, List.cons_ne_nil _ _, ?_⟩
    · rw [Writing.group, hblank]
      rfl
    · rw [h.eq_nil_of_isAllBlank hblank]
      apply Spelled.blank rfl .nil
  | false =>
    refine ⟨m, ?_, ?_, h.mono (by simp) (by simp)⟩
    · rw [Writing.group, hblank]
      rfl
    · rintro rfl
      cases hblank

theorem padded (h : Spelled t false cell m ns) :
  Spelled t false cell (Writing.padded m) ns
  := by
  have := (Spelled.blank rfl h).append (Spelled.blank rfl .nil) (Follow.cons rfl)
  rwa [List.append_nil] at this

theorem orSpace (h : Spelled t false cell m ns) :
  Spelled t false cell (Writing.orSpace m) ns
  := by
  rw [Writing.orSpace]
  cases m with
  | nil =>
    rw [h.eq_nil]
    apply space
  | cons c cs => apply h

/-! ### Joining -/

/-- A markup that spells nothing, may follow everything and may be followed by everything. -/
structure Separator (t : SymbolTable) (keep cell : Bool) (s : Text) : Prop where
  spelled : Spelled t keep cell s []
  follow : ∀ a b, Follow a (s ++ b)
  followed : ∀ b, Follow s b

/-- Joined parts spell what they spell one after the other. -/
theorem join {separator : Text} (hsep : Separator t keep cell separator) {parts : List Text}
    {nss : List (List Node)} (h : List.Forall₂ (Spelled t keep cell) parts nss) :
  Spelled t keep cell (Writing.join separator parts) nss.flatten
  := by
  apply rel_join Spelled.nil Spelled.append _ h
  intro a b as bs ha hb
  rw [List.append_assoc]
  apply ha.append (hsep.spelled.append hb (hsep.followed b)) (hsep.follow a b)

end Spelled

end Formula
