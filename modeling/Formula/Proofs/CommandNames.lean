import Formula.Converter
import Formula.Proofs.Joining
import Formula.Rendering.Layout

/-!
# The commands of a markup

What is told from a markup alone, the family of its derivatives and its layout, is told from the
names of its commands.  The commands of a markup that is put together are those of its parts, as
long as no letter is put behind a command name and nothing behind a lone backslash; trimming and
collapsing spaces keep them.
-/

namespace Formula

open Markup Writing

namespace Text

variable {a b s : Text}

/-- The letters after each backslash, in order. -/
def commandNames : Text → List Text
  | [] => []
  | c :: cs => if c = '\\' then cs.takeWhile isLetter :: commandNames cs else commandNames cs

theorem commandNames_cons_of_ne {c : Char} {cs : Text} (h : c ≠ '\\') :
  commandNames (c :: cs) = commandNames cs
  := if_neg h

/-- A text without backslashes has no commands. -/
theorem commandNames_plain (h : '\\' ∉ s) :
  commandNames s = []
  := by
  induction s with
  | nil => rfl
  | cons c cs ih =>
    simp only [List.mem_cons, not_or] at h
    rw [commandNames_cons_of_ne (Ne.symm h.1), ih h.2]

/-! ### Commands of parts -/

/-- A run of letters goes on behind a text only if the text is letters throughout. -/
theorem takeWhile_isLetter_of_dropWhile (h : a.dropWhile isLetter ≠ []) (b : Text) :
  (a ++ b).takeWhile isLetter = a.takeWhile isLetter
  := by
  have hnot : ¬ ∀ c ∈ a, isLetter c = true := fun hall => h (List.dropWhile_eq_nil_iff.2 hall)
  rw [List.takeWhile_append, if_neg]
  intro hlength
  apply hnot
  rw [← List.takeWhile_eq_self_iff]
  apply (List.takeWhile_prefix isLetter).eq_of_length hlength

/-- A text that begins with something other than a letter leaves the commands in front of it as
they are. -/
theorem commandNames_append_of_startsWithLetter (h : startsWithLetter b = false) :
  commandNames (a ++ b) = commandNames a ++ commandNames b
  := by
  have hname : ∀ cs : Text, (cs ++ b).takeWhile isLetter = cs.takeWhile isLetter := by
    intro cs
    rw [List.takeWhile_append]
    split
    · rename_i hall
      have hb : b.takeWhile isLetter = [] := by
        cases b with
        | nil => rfl
        | cons c cs =>
          have : isLetter c = false := h
          simp [this]
      rw [hb, List.append_nil, (List.takeWhile_prefix isLetter).eq_of_length hall]
    · rfl
  induction a with
  | nil => rfl
  | cons c cs ih =>
    rw [List.cons_append, commandNames, commandNames, ih, hname]
    split <;> rfl

/-- The commands of two parts are theirs if the second does not continue a command of the first,
and the first does not end with a backslash. -/
theorem commandNames_append (hfollow : Follow a b) (hlast : a.getLast? ≠ some '\\') :
  commandNames (a ++ b) = commandNames a ++ commandNames b
  := by
  cases hstart : startsWithLetter b with
  | false => apply commandNames_append_of_startsWithLetter hstart
  | true =>
    have hends : endsInName a = false := by
      by_contra h
      rw [hfollow (by simpa using h)] at hstart
      contradiction
    induction a with
    | nil => rfl
    | cons c cs ih =>
      have hrest : commandNames (cs ++ b) = commandNames cs ++ commandNames b := by
        apply ih (Follow.right (a := [c]) hfollow)
        · intro h
          apply hlast
          cases cs with
          | nil => contradiction
          | cons d ds => rwa [List.getLast?_cons_cons]
        · by_contra h
          rw [← List.singleton_append, endsInName_append (by simpa using h)] at hends
          contradiction
      rw [List.cons_append, commandNames, commandNames, hrest]
      by_cases hc : c = '\\'
      · subst hc
        -- The name after this backslash is stopped before the end of the first part.
        have hstop : cs.dropWhile isLetter ≠ [] := by
          intro hall
          cases cs with
          | nil => apply hlast rfl
          | cons d ds =>
            rw [endsInName_command] at hends
            · contradiction
            · simpa [isLetters] using List.dropWhile_eq_nil_iff.1 hall
        rw [if_pos rfl, if_pos rfl, takeWhile_isLetter_of_dropWhile hstop, List.cons_append]
      · rw [if_neg hc, if_neg hc]

/-! ### What is told from the commands -/

/-- A command is looked for among the names of the commands. -/
theorem containsCommand_iff {names : List Text} :
  containsCommand names s = true ↔ ∃ name ∈ commandNames s, name ∈ names
  := by
  induction s with
  | nil => simp [containsCommand, commandNames]
  | cons c cs ih =>
    rw [containsCommand, Bool.or_eq_true, ih, Bool.and_eq_true, beq_iff_eq, List.contains_iff_mem,
      commandNames]
    by_cases hc : c = '\\'
    · simp [hc]
    · simp [hc]

/-- A text begins with letters exactly when its first run of letters does. -/
theorem isPrefix_takeWhile_iff {name : Text} (h : ∀ c ∈ name, isLetter c = true) :
  name <+: s.takeWhile isLetter ↔ name <+: s
  := by
  constructor
  · intro hprefix
    apply hprefix.trans (List.takeWhile_prefix isLetter)
  · rintro ⟨rest, rfl⟩
    rw [List.takeWhile_append_of_pos h]
    apply List.prefix_append

/-- A command marker occurs in a text exactly when the name of some command begins with it. -/
theorem containsText_command_iff {name : Text} (h : ∀ c ∈ name, isLetter c = true) :
  containsText ('\\' :: name) s = true ↔ ∃ other ∈ commandNames s, name <+: other
  := by
  induction s with
  | nil => simp [containsText, commandNames]
  | cons c cs ih =>
    rw [containsText, Bool.or_eq_true, ih, Option.isSome_iff_exists, commandNames]
    by_cases hc : c = '\\'
    · subst hc
      rw [if_pos rfl, List.exists_mem_cons_iff, isPrefix_takeWhile_iff h]
      apply or_congr_left
      constructor
      · rintro ⟨rest, hrest⟩
        exact ⟨rest, ((List.cons.inj (after?_eq_some_iff.1 hrest)).2).symm⟩
      · rintro ⟨rest, rfl⟩
        exact ⟨rest, after?_eq_some_iff.2 rfl⟩
    · rw [if_neg hc, or_iff_right]
      rintro ⟨rest, hrest⟩
      apply hc (List.cons.inj (after?_eq_some_iff.1 hrest)).1

/-! ### Spaces -/

theorem commandNames_dropSpaces :
  commandNames (s.dropWhile (· = ' ')) = commandNames s
  := by
  induction s with
  | nil => rfl
  | cons c cs ih =>
    by_cases hc : c = ' '
    · subst hc
      rw [List.dropWhile_cons_of_pos (by simp), ih]
      rfl
    · rw [List.dropWhile_cons_of_neg (by simp [hc])]

/-- What trimming takes off the end are spaces. -/
theorem exists_trimEndSpaces (s : Text) :
  ∃ spaces, s = trimEndSpaces s ++ spaces ∧ ∀ c ∈ spaces, c = ' '
  := by
  have h : ∀ r : Text, ∃ spaces, r = spaces ++ trimEndReversed r ∧ ∀ c ∈ spaces, c = ' ' := by
    intro r
    fun_induction trimEndReversed r with
    | case1 cs => exact ⟨[], rfl, by simp⟩
    | case2 cs _ ih =>
      obtain ⟨spaces, hcs, hspaces⟩ := ih
      refine ⟨' ' :: spaces, by rw [List.cons_append, ← hcs], ?_⟩
      intro c hc
      rcases List.mem_cons.1 hc with rfl | hc
      · rfl
      · apply hspaces c hc
    | case3 => exact ⟨[], rfl, by simp⟩
  obtain ⟨spaces, hs, hspaces⟩ := h s.reverse
  refine ⟨spaces.reverse, ?_, fun c hc => hspaces c (List.mem_reverse.1 hc)⟩
  rw [trimEndSpaces, ← List.reverse_append, ← hs, List.reverse_reverse]

/-- Trimming keeps the commands. -/
theorem commandNames_trimMarkup :
  commandNames (trimMarkup s) = commandNames s
  := by
  obtain ⟨spaces, hs, hspaces⟩ := exists_trimEndSpaces (s.dropWhile (· = ' '))
  have hplain : commandNames spaces = [] := by
    apply commandNames_plain
    intro h
    cases hspaces _ h
  have hstart : startsWithLetter spaces = false := by
    cases spaces with
    | nil => rfl
    | cons c cs =>
      rw [hspaces c List.mem_cons_self]
      rfl
  rw [trimMarkup_eq, ← commandNames_dropSpaces (s := s)]
  conv_rhs => rw [hs, commandNames_append_of_startsWithLetter hstart, hplain, List.append_nil]

/-- Collapsing spaces keeps the commands. -/
theorem commandNames_collapseSpaces :
  commandNames (collapseSpaces s) = commandNames s
  := by
  have hname : ∀ s : Text, (collapseSpaces s).takeWhile isLetter = s.takeWhile isLetter := by
    intro s
    fun_induction collapseSpaces s with
    | case1 cs ih =>
      rw [ih]
      rfl
    | case2 c cs _ ih => rw [List.takeWhile_cons, List.takeWhile_cons, ih]
    | case3 => rfl
  fun_induction collapseSpaces s with
  | case1 cs ih =>
    rw [ih]
    rfl
  | case2 c cs _ ih => rw [commandNames, commandNames, ih, hname]
  | case3 => rfl

end Text

end Formula
