import Formula.Proofs.Environment

/-!
# Rows put together and cut again

`Markup.rowDepth?` follows the counting of open groups and environments through a text, as long
as no row and no cell ends in it.  Texts that leave nothing open and nothing closed can be put
together to rows of any lengths: the cells that the whole is cut into are these texts, each
with one space on either side.
-/

namespace Formula.Markup

open Writing

variable {a rest s marker : Text} {d e : Int}

/-- The number of groups and environments that are open after a text, where `depth` are open
before it.  There is none if a row or a cell ends in the text, or if a backslash ends it. -/
def rowDepth? : (depth : Int) → Text → Option Int
  | depth, [] => some depth
  | _, ['\\'] => none
  | depth, '\\' :: c :: cs =>
    if c = '\\' && depth == 0 then none
    else rowDepth? (depth + nestingStep ('\\' :: c :: cs)) cs
  | depth, '{' :: cs => rowDepth? (depth + 1) cs
  | depth, '}' :: cs => rowDepth? (depth - 1) cs
  | depth, c :: cs => if c = '&' && depth == 0 then none else rowDepth? depth cs

/-- A text in which no row and no cell ends, and that leaves as many groups and environments open
as there were before it. -/
def IsCell (s : Text) : Prop := rowDepth? 0 s = some 0

instance (s : Text) : Decidable (IsCell s) := inferInstanceAs (Decidable (_ = _))

/-! ### Commands at the end of a cell -/

/-- A command stands at the beginning of a text if its name is the run of letters there. -/
theorem isSome_command? (h : Text.isLetters marker = true) :
  (command? ('\\' :: marker) ('\\' :: s)).isSome = decide (s.takeWhile Text.isLetter = marker)
  := by
  rw [command?, Text.after?_cons, if_pos rfl]
  cases hafter : Text.after? marker s with
  | none =>
    symm
    apply decide_eq_false
    intro heq
    rw [← List.takeWhile_append_dropWhile (p := Text.isLetter) (l := s), heq,
      Text.after?_eq_some_iff.2 rfl] at hafter
    contradiction
  | some tail =>
    obtain rfl := Text.after?_eq_some_iff.1 hafter
    cases htail : Text.startsWithLetter tail with
    | false => simp [htail, Text.takeWhile_isLetter_append h htail]
    | true =>
      have hne : (marker ++ tail).takeWhile Text.isLetter ≠ marker := by
        cases tail with
        | nil => contradiction
        | cons c cs =>
          simp only [Text.isLetters, Bool.and_eq_true, List.all_eq_true] at h
          have hc : Text.isLetter c = true := htail
          rw [List.takeWhile_append_of_pos h.2, List.takeWhile_cons_of_pos hc]
          simp
      simp [htail, hne]

/-- A space behind a text does not change which environment a command of the text opens or
closes. -/
theorem nestingStep_append_space (s rest : Text) :
  nestingStep ('\\' :: (s ++ ' ' :: rest)) = nestingStep ('\\' :: s)
  := by
  have hname : (s ++ ' ' :: rest).takeWhile Text.isLetter = s.takeWhile Text.isLetter := by
    rw [List.takeWhile_append, List.takeWhile_cons_of_neg (by decide), List.append_nil]
    split
    · rename_i hlength
      exact ((List.takeWhile_prefix Text.isLetter).eq_of_length hlength).symm
    · rfl
  have hcommand : ∀ marker, Text.isLetters marker = true →
      (command? ('\\' :: marker) ('\\' :: (s ++ ' ' :: rest))).isSome
        = (command? ('\\' :: marker) ('\\' :: s)).isSome := by
    intro marker hmarker
    rw [isSome_command? hmarker, isSome_command? hmarker, hname]
  have hbegin : (command? "\\begin".toList ('\\' :: (s ++ ' ' :: rest))).isSome
      = (command? "\\begin".toList ('\\' :: s)).isSome := hcommand "begin".toList rfl
  have hend : (command? "\\end".toList ('\\' :: (s ++ ' ' :: rest))).isSome
      = (command? "\\end".toList ('\\' :: s)).isSome := hcommand "end".toList rfl
  rw [nestingStep, nestingStep, hbegin, hend]

/-! ### Cutting behind a cell -/

/-- The rows are looked for behind a text in which no row and no cell ends. -/
theorem splitRows_append_space (h : rowDepth? d a = some e) :
  splitRows d (a ++ ' ' :: rest) = addToCell a (splitRows e (' ' :: rest))
  := by
  fun_induction rowDepth? d a
  case case1 =>
    obtain rfl := Option.some.inj h
    rw [List.nil_append, addToCell_nil_splitRows]
  case case2 => contradiction
  case case3 => contradiction
  case case4 d c cs hrow ih =>
    have hstep := nestingStep_append_space (c :: cs) rest
    rw [List.cons_append] at hstep
    rw [List.cons_append, List.cons_append, splitRows, if_neg hrow, hstep, ih h,
      addToCell_addToCell]
    rfl
  case case5 d cs ih =>
    rw [List.cons_append, splitRows, ih h, addToCell_addToCell]
    rfl
  case case6 d cs ih =>
    rw [List.cons_append, splitRows, ih h, addToCell_addToCell]
    rfl
  case case7 => contradiction
  case case8 d c cs hend hescape hopen hclose hcell ih =>
    have hand : d = 0 → c ≠ '&' := by
      rintro rfl rfl
      simp at hcell
    rw [List.cons_append, splitRows_cons (ne_backslash hend hescape) ⟨hopen, hclose⟩ hand, ih h,
      addToCell_addToCell]
    rfl

/-- A cell with a space on either side stays together, whatever follows. -/
theorem IsCell.splitRows_padded (h : IsCell s) (rest : Text) :
  splitRows 0 (padded s ++ rest) = addToCell (padded s) (splitRows 0 rest)
  := by
  have hspace : ∀ tail, splitRows 0 (' ' :: tail) = addToCell [' '] (splitRows 0 tail) :=
    fun tail => splitRows_cons (by decide) (by decide) (by decide)
  have hpadded : padded s ++ rest = ' ' :: (s ++ ' ' :: rest) := by simp [padded]
  rw [hpadded, hspace, splitRows_append_space h, hspace, addToCell_addToCell,
    addToCell_addToCell]
  rfl

/-- The body that rows are put together to is cut into these rows, and every row into its cells,
with one space on either side of each. -/
theorem splitRows_rowsText {rows : List (List Text)} (hne : rows ≠ [])
    (hrows : ∀ row ∈ rows, row ≠ [] ∧ ∀ cell ∈ row, IsCell cell) :
  splitRows 0 (rowsText rows) = rows.map (List.map padded)
  := by
  apply splitRows_rowsText_of_forall hne
  intro row hrow
  obtain ⟨hcells, hclosed⟩ := hrows row hrow
  refine ⟨hcells, ?_⟩
  intro cell hcell
  apply (hclosed cell hcell).splitRows_padded

/-- Rows of different lengths, with an environment of a name that is no grid, escaped braces and a
control space in their cells. -/
theorem splitRows_rowsText_ragged :
  (∀ row ∈ [["\\begin\x7bx\x7da & b \\\\ c\\end\x7bx\x7d".toList, "\\\x7b\\\x7d\\ ".toList],
      [[]], ["\x7b&\x7d".toList]], row ≠ [] ∧ ∀ cell ∈ row, IsCell cell)
    ∧ splitRows 0 (rowsText [["\\begin\x7bx\x7da & b \\\\ c\\end\x7bx\x7d".toList,
        "\\\x7b\\\x7d\\ ".toList], [[]], ["\x7b&\x7d".toList]])
      = [[" \\begin\x7bx\x7da & b \\\\ c\\end\x7bx\x7d ".toList, " \\\x7b\\\x7d\\  ".toList],
        ["  ".toList], [" \x7b&\x7d ".toList]]
  := by
  have hrows : ∀ row ∈ [["\\begin\x7bx\x7da & b \\\\ c\\end\x7bx\x7d".toList,
      "\\\x7b\\\x7d\\ ".toList], [[]], ["\x7b&\x7d".toList]],
      row ≠ [] ∧ ∀ cell ∈ row, IsCell cell := by decide
  exact ⟨hrows, splitRows_rowsText (List.cons_ne_nil _ _) hrows⟩

end Formula.Markup
