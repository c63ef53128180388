import Formula.Markup.Closing
import Formula.Markup.Environment
import Formula.Proofs.Balance
import Formula.Proofs.Characters
import Formula.Proofs.Matching
import Formula.Writing.Fragment

/-!
# Closed fragments

A fragment of markup is closed when everything that is opened in it is closed in it again:
groups, sized brackets and environments.  The readers that look for a closing delimiter go
through a closed fragment as if it were a single character.  A fragment that ends with a
command name has to be followed by something that is not a letter.
-/

namespace Formula

namespace Markup

variable {a b m s rest name : Text} {cell : Bool}

/-! ### What may follow -/

/-- Whether the text ends with a command name. -/
def endsInName (s : Text) : Bool := Writing.endsInCommandReversed s.reverse

/-- What follows the text does not continue a command name. -/
def Follow (s rest : Text) : Prop := endsInName s = true → Text.startsWithLetter rest = false

theorem endsInName_append (h : endsInName b = true) :
  endsInName (a ++ b) = true
  := by
  simp only [endsInName, Writing.endsInCommandReversed, Bool.and_eq_true, beq_iff_eq,
    List.reverse_append, Bool.not_eq_true', List.isEmpty_eq_false_iff] at h ⊢
  obtain ⟨hne, hhead⟩ := h
  have hsplit := List.takeWhile_append_dropWhile (p := Text.isLetter) (l := b.reverse)
  rcases hdrop : b.reverse.dropWhile Text.isLetter with _ | ⟨c, cs⟩
  · simp [hdrop] at hhead
  · have hc : Text.isLetter c = false := by
      have := List.head?_dropWhile_not Text.isLetter b.reverse
      rw [hdrop] at this
      exact this
    have hpos : ∀ x ∈ b.reverse.takeWhile Text.isLetter, Text.isLetter x = true :=
      fun x hx => List.mem_takeWhile_imp hx
    rw [hdrop] at hsplit hhead
    have hall : b.reverse ++ a.reverse
        = b.reverse.takeWhile Text.isLetter ++ (c :: cs ++ a.reverse) := by
      rw [← List.append_assoc, hsplit]
    rw [hall, List.takeWhile_append_of_pos hpos, List.dropWhile_append_of_pos hpos]
    rw [List.cons_append, List.takeWhile_cons_of_neg (by simp [hc]),
      List.dropWhile_cons_of_neg (by simp [hc]), List.append_nil]
    constructor
    · apply hne
    · apply hhead

/-- A command ends with its name. -/
theorem endsInName_command (h : Text.isLetters name = true) :
  endsInName ('\\' :: name) = true
  := by
  simp only [Text.isLetters, Bool.and_eq_true, List.all_eq_true] at h
  have hpos : ∀ x ∈ name.reverse, Text.isLetter x = true :=
    fun x hx => h.2 x (List.mem_reverse.1 hx)
  rw [endsInName, Writing.endsInCommandReversed, List.reverse_cons,
    List.takeWhile_append_of_pos hpos, List.dropWhile_append_of_pos hpos,
    List.takeWhile_cons_of_neg (by decide), List.append_nil,
    List.dropWhile_cons_of_neg (by decide)]
  simpa using h.1

/-- A text that ends with something other than a letter does not end with a command name. -/
theorem endsInName_concat {c : Char} (h : Text.isLetter c = false) :
  endsInName (s ++ [c]) = false
  := by
  simp [endsInName, Writing.endsInCommandReversed, h]

namespace Follow

theorem nil_left : Follow [] rest := fun h => by contradiction

theorem nil_right : Follow s [] := fun _ => rfl

theorem cons {c : Char} (h : Text.isLetter c = false) : Follow s (c :: rest) := fun _ => h

theorem concat {c : Char} (h : Text.isLetter c = false) :
  Follow (s ++ [c]) rest
  := fun hs => by rw [endsInName_concat h] at hs; contradiction

theorem right (h : Follow (a ++ b) rest) : Follow b rest := fun hb => h (endsInName_append hb)

/-- What follows the first of two parts is the second, or what follows both. -/
theorem left (h : Follow (a ++ b) rest) (hab : Follow a b) :
  Follow a (b ++ rest)
  := by
  cases b with
  | nil => simpa using h
  | cons c cs => apply hab

/-- What follows may be cut short. -/
theorem of_prefix (h : Follow s rest) (hab : a <+: rest) :
  Follow s a
  := by
  obtain ⟨tail, rfl⟩ := hab
  cases a with
  | nil => apply nil_right
  | cons c cs => apply h

end Follow

/-! ### Sized brackets -/

/-- The end of a sized bracket is looked for behind the text. -/
def Sized (m : Text) : Prop :=
  ∀ d rest, Follow m rest → untilClosing d (m ++ rest) = (untilClosing d rest).map (prepend m)

theorem sizeCommand?_eq_none {c : Char} {cs : Text} (h : c ≠ '\\') :
  sizeCommand? (c :: cs) = none
  := by
  rw [sizeCommand?]
  simpa using h

theorem untilClosing_cons {d : Nat} {c : Char} {cs : Text}
    (h : sizeCommand? (c :: cs) = none) :
  untilClosing d (c :: cs) = (untilClosing d cs).map (prepend [c])
  := by
  rw [untilClosing.eq_def]
  simp only [h]

/-- The end of a sized bracket is looked for behind a text without backslashes. -/
theorem untilClosing_plain {d : Nat} (h : '\\' ∉ a) :
  untilClosing d (a ++ rest) = (untilClosing d rest).map (prepend a)
  := by
  induction a with
  | nil => simp
  | cons c cs ih =>
    simp only [List.mem_cons, not_or] at h
    rw [List.cons_append, untilClosing_cons (sizeCommand?_eq_none (Ne.symm h.1)), ih h.2,
      Option.map_map, prepend_comp_prepend, List.singleton_append]

theorem backslash_not_mem_letters (h : Text.isLetters name = true) :
  '\\' ∉ name
  := by
  intro hmem
  simp only [Text.isLetters, Bool.and_eq_true, List.all_eq_true] at h
  have := h.2 _ hmem
  contradiction

/-- The size commands are told by their names. -/
theorem sizeCommand?_command (hname : Text.isLetters name = true)
    (hrest : Text.startsWithLetter rest = false) :
  sizeCommand? ('\\' :: (name ++ rest)) =
    if Delimiter.sizeNames.any (·.1 = name) then some (true, rest)
    else if Delimiter.sizeNames.any (·.2 = name) then some (false, rest)
    else none
  := by
  rw [sizeCommand?, Text.takeWhile_isLetter_append hname hrest,
    Text.dropWhile_isLetter_append hname hrest]

/-- A size command opens a bracket. -/
theorem untilClosing_left {d : Nat} (hname : Text.isLetters name = true)
    (hrest : Text.startsWithLetter rest = false)
    (hleft : Delimiter.sizeNames.any (·.1 = name) = true) :
  untilClosing d ('\\' :: (name ++ rest))
    = (untilClosing (d + 1) rest).map (prepend ('\\' :: name))
  := by
  rw [untilClosing.eq_def]
  simp only [sizeCommand?_command hname hrest, hleft, if_true]
  rw [untilClosing_plain (backslash_not_mem_letters hname), Option.map_map,
    prepend_comp_prepend, List.singleton_append]

/-- A size command of the other side closes it again. -/
theorem untilClosing_right {d : Nat} (hname : Text.isLetters name = true)
    (hrest : Text.startsWithLetter rest = false)
    (hleft : Delimiter.sizeNames.any (·.1 = name) = false)
    (hright : Delimiter.sizeNames.any (·.2 = name) = true) :
  untilClosing (d + 1) ('\\' :: (name ++ rest))
    = (untilClosing d rest).map (prepend ('\\' :: name))
  := by
  rw [untilClosing.eq_def]
  simp only [sizeCommand?_command hname hrest, hleft, hright, Bool.false_eq_true, if_false,
    if_true]
  rw [untilClosing_plain (backslash_not_mem_letters hname), Option.map_map,
    prepend_comp_prepend, List.singleton_append]

theorem untilClosing_right_zero (hname : Text.isLetters name = true)
    (hrest : Text.startsWithLetter rest = false)
    (hleft : Delimiter.sizeNames.any (·.1 = name) = false)
    (hright : Delimiter.sizeNames.any (·.2 = name) = true) :
  untilClosing 0 ('\\' :: (name ++ rest)) = some ([], rest)
  := by
  rw [untilClosing.eq_def]
  simp [sizeCommand?_command hname hrest, hleft, hright]

namespace Sized

theorem append (ha : Sized a) (hb : Sized b) (hab : Follow a b) :
  Sized (a ++ b)
  := by
  intro d rest h
  rw [List.append_assoc, ha d _ (h.left hab), hb d _ h.right, Option.map_map,
    prepend_comp_prepend]

theorem plain (h : '\\' ∉ a) : Sized a := fun _ _ _ => untilClosing_plain h

theorem command (hname : Text.isLetters name = true)
    (hleft : Delimiter.sizeNames.any (·.1 = name) = false)
    (hright : Delimiter.sizeNames.any (·.2 = name) = false) :
  Sized ('\\' :: name)
  := by
  intro d rest h
  have hnone : sizeCommand? ('\\' :: (name ++ rest)) = none := by
    rw [sizeCommand?_command hname (h (endsInName_command hname)), hleft, hright]
    rfl
  rw [List.cons_append, untilClosing_cons hnone,
    untilClosing_plain (backslash_not_mem_letters hname), Option.map_map,
    prepend_comp_prepend, List.singleton_append]

theorem escape {c : Char} (hletter : Text.isLetter c = false) (h : c ≠ '\\') :
  Sized ['\\', c]
  := by
  intro d rest _
  have hnone : sizeCommand? ('\\' :: c :: rest) = none := by
    rw [sizeCommand?, List.takeWhile_cons, hletter]
    rfl
  rw [List.cons_append, List.singleton_append, untilClosing_cons hnone,
    untilClosing_cons (sizeCommand?_eq_none h), Option.map_map, prepend_comp_prepend]
  rfl

end Sized

/-! ### Environments -/

/-- The end of an environment is looked for behind the text, whatever the name between the braces
is. -/
def Ended (m : Text) : Prop :=
  ∀ name d rest, '}' ∉ name → Follow m rest →
    untilEnd name d (m ++ rest) = (untilEnd name d rest).map (prepend m)

theorem afterMarker?_eq_none {marker : Text} {c : Char} {cs : Text}
    (hmarker : marker.head? = some '\\') (h : c ≠ '\\') :
  afterMarker? marker name (c :: cs) = none
  := by
  cases marker with
  | nil => simp at hmarker
  | cons d ds =>
    obtain rfl := Option.some.inj hmarker
    simp [afterMarker?, Text.after?_cons, h]

theorem untilEnd_cons {d : Nat} {c : Char} {cs : Text}
    (hbegin : afterMarker? "\\begin".toList name (c :: cs) = none)
    (hend : afterMarker? "\\end".toList name (c :: cs) = none) :
  untilEnd name d (c :: cs) = (untilEnd name d cs).map (prepend [c])
  := by
  rw [untilEnd.eq_def]
  simp only [hbegin, hend, Option.isSome_none, Bool.false_eq_true, if_false]

/-- The end of an environment is looked for behind a text without backslashes. -/
theorem untilEnd_plain {d : Nat} (h : '\\' ∉ a) :
  untilEnd name d (a ++ rest) = (untilEnd name d rest).map (prepend a)
  := by
  induction a with
  | nil => simp
  | cons c cs ih =>
    simp only [List.mem_cons, not_or] at h
    rw [List.cons_append, untilEnd_cons (afterMarker?_eq_none rfl (Ne.symm h.1))
        (afterMarker?_eq_none rfl (Ne.symm h.1)), ih h.2,
      Option.map_map, prepend_comp_prepend, List.singleton_append]

/-- A command does not begin or end an environment when its name does not begin so. -/
theorem afterMarker?_command {marker env : Text} (h : ¬ marker <+: name ++ rest) :
  afterMarker? ('\\' :: marker) env ('\\' :: (name ++ rest)) = none
  := by
  rw [afterMarker?, Text.after?_cons, if_pos rfl]
  cases hafter : Text.after? marker (name ++ rest) with
  | none => rfl
  | some tail =>
    apply absurd _ h
    use tail
    apply (Text.after?_eq_some_iff.1 hafter).symm

/-- A run of letters does not begin what it does not begin by itself. -/
theorem not_prefix_append {marker : Text} (hmarker : Text.isLetters marker = true)
    (hrest : Text.startsWithLetter rest = false) (h : ¬ marker <+: name) :
  ¬ marker <+: name ++ rest
  := by
  rintro ⟨tail, htail⟩
  simp only [Text.isLetters, Bool.and_eq_true, List.all_eq_true] at hmarker
  rcases List.append_eq_append_iff.1 htail with ⟨as, rfl, -⟩ | ⟨as, rfl, hrest'⟩
  · apply h (List.prefix_append _ _)
  · cases as with
    | nil => simp at h
    | cons c cs =>
      have hc := hmarker.2 c (by simp)
      rw [hrest', List.cons_append, Text.startsWithLetter, hc] at hrest
      contradiction

/-- A command only begins or ends an environment if its name is that of the marker. -/
theorem afterMarker?_name {marker env : Text} (hmarker : Text.isLetters marker = true)
    (hname : Text.isLetters name = true) (hrest : Text.startsWithLetter rest = false)
    (h : marker ≠ name) :
  afterMarker? ('\\' :: marker) env ('\\' :: (name ++ rest)) = none
  := by
  rw [afterMarker?, Text.after?_cons, if_pos rfl]
  cases hafter : Text.after? marker (name ++ rest) with
  | none => rfl
  | some tail =>
    have hsplit := Text.after?_eq_some_iff.1 hafter
    cases htail : Text.startsWithLetter tail with
    | false =>
      have hwhole := Text.takeWhile_isLetter_append hname hrest
      rw [hsplit, Text.takeWhile_isLetter_append hmarker htail] at hwhole
      contradiction
    | true =>
      -- No brace can follow the marker, as a letter does.
      cases tail with
      | nil => contradiction
      | cons c cs =>
        have hblank : Text.isMarginBlank c = false :=
          Text.isMarginBlank_of_not_isBlank (Text.isBlank_of_isLetter htail)
        have hbrace : c ≠ '{' := by
          rintro rfl
          contradiction
        simp [Text.skipMargin, hblank, Text.after?_cons, hbrace]

/-- A backslash before something other than a letter is passed over. -/
theorem untilEnd_escape {d : Nat} {c : Char} (h : Text.isLetter c = false) :
  untilEnd name d ('\\' :: c :: rest) = (untilEnd name d (c :: rest)).map (prepend ['\\'])
  := by
  have hnone : ∀ marker : Text, Text.startsWithLetter marker = true →
      afterMarker? ('\\' :: marker) name ('\\' :: ([c] ++ rest)) = none := by
    intro marker hmarker
    apply afterMarker?_command
    rintro ⟨tail, htail⟩
    cases marker with
    | nil => contradiction
    | cons x xs =>
      obtain ⟨rfl, -⟩ := List.cons.inj htail
      rw [Text.startsWithLetter, h] at hmarker
      contradiction
  apply untilEnd_cons (hnone _ rfl) (hnone _ rfl)

namespace Ended

theorem append (ha : Ended a) (hb : Ended b) (hab : Follow a b) :
  Ended (a ++ b)
  := by
  intro name d rest hname h
  rw [List.append_assoc, ha name d _ hname (h.left hab), hb name d _ hname h.right,
    Option.map_map, prepend_comp_prepend]

theorem plain (h : '\\' ∉ a) : Ended a := fun _ _ _ _ _ => untilEnd_plain h

theorem command (hname : Text.isLetters name = true) (hbegin : "begin".toList ≠ name)
    (hend : "end".toList ≠ name) :
  Ended ('\\' :: name)
  := by
  intro env d rest _ h
  have hrest := h (endsInName_command hname)
  rw [List.cons_append, untilEnd_cons (afterMarker?_name rfl hname hrest hbegin)
      (afterMarker?_name rfl hname hrest hend),
    untilEnd_plain (backslash_not_mem_letters hname), Option.map_map,
    prepend_comp_prepend, List.singleton_append]

theorem escape {c : Char} (hletter : Text.isLetter c = false) (h : c ≠ '\\') :
  Ended ['\\', c]
  := by
  intro env d rest _ _
  rw [List.cons_append, List.singleton_append, untilEnd_escape hletter,
    ← List.singleton_append (x := c), untilEnd_plain (by simpa using Ne.symm h),
    Option.map_map, prepend_comp_prepend]
  rfl

end Ended

/-! ### Rows -/

/-- The rows and cells are looked for behind the text, inside groups and environments, and also
outside of them if `cell` holds. -/
def Rowed (cell : Bool) (m : Text) : Prop :=
  ∀ (d : Int) rest, 0 ≤ d → (d = 0 → cell = true) → Follow m rest →
    splitRows d (m ++ rest) = addToCell m (splitRows d rest)

theorem addToCell_addToCell (front back : Text) (rows : List (List Text)) :
  addToCell front (addToCell back rows) = addToCell (front ++ back) rows
  := by
  match rows with
  | [] => rfl
  | [] :: rows => rfl
  | (cell :: cells) :: rows => simp [addToCell]

/-- There is always a first row with a first cell. -/
theorem exists_splitRows (d : Int) (s : Text) :
  ∃ cell cells rows, splitRows d s = (cell :: cells) :: rows
  := by
  fun_induction splitRows d s
  case case1 => exact ⟨_, _, _, rfl⟩
  case case2 => exact ⟨_, _, _, rfl⟩
  case case3 => exact ⟨_, _, _, rfl⟩
  all_goals
    rename_i ih
    obtain ⟨cell, cells, rows, h⟩ := ih
    rw [h]
    exact ⟨_, _, _, rfl⟩

theorem addToCell_nil_splitRows (d : Int) (s : Text) :
  addToCell [] (splitRows d s) = splitRows d s
  := by
  obtain ⟨cell, cells, rows, h⟩ := exists_splitRows d s
  rw [h]
  rfl

theorem splitRows_cons {d : Int} {c : Char} {cs : Text} (h : c ≠ '\\')
    (hbrace : c ≠ '{' ∧ c ≠ '}') (hcell : d = 0 → c ≠ '&') :
  splitRows d (c :: cs) = addToCell [c] (splitRows d cs)
  := by
  rw [splitRows.eq_def]
  split <;> simp_all
  intro hc hd
  apply absurd hc (hcell hd)

/-- The rows are looked for behind a text without backslashes, braces and, outside of groups,
without ampersands. -/
theorem splitRows_plain {d : Int} (h : ∀ c ∈ a, c ≠ '\\' ∧ c ≠ '{' ∧ c ≠ '}')
    (hcell : d = 0 → '&' ∉ a) :
  splitRows d (a ++ rest) = addToCell a (splitRows d rest)
  := by
  induction a with
  | nil => rw [List.nil_append, addToCell_nil_splitRows]
  | cons c cs ih =>
    obtain ⟨h₁, h₂⟩ := h c List.mem_cons_self
    have hc : d = 0 → c ≠ '&' := by
      intro hd hc
      apply hcell hd
      simp [hc]
    rw [List.cons_append, splitRows_cons h₁ h₂ hc,
      ih (fun c hc => h c (List.mem_cons_of_mem _ hc))
        (fun hd hmem => hcell hd (List.mem_cons_of_mem _ hmem)),
      addToCell_addToCell, List.singleton_append]

theorem letters_plain (h : Text.isLetters name = true) :
  ∀ c ∈ name, c ≠ '\\' ∧ c ≠ '{' ∧ c ≠ '}'
  := by
  intro c hc
  simp only [Text.isLetters, Bool.and_eq_true, List.all_eq_true] at h
  have hletter := h.2 c hc
  refine ⟨?_, ?_, ?_⟩ <;>
  · rintro rfl
    contradiction

theorem ampersand_not_mem_letters (h : Text.isLetters name = true) :
  '&' ∉ name
  := by
  intro hmem
  simp only [Text.isLetters, Bool.and_eq_true, List.all_eq_true] at h
  have := h.2 _ hmem
  contradiction

/-- A command is recognised by its name. -/
theorem command?_command {command : Text} (hcommand : Text.isLetters command = true)
    (hname : Text.isLetters name = true) (hrest : Text.startsWithLetter rest = false) :
  command? ('\\' :: command) ('\\' :: (name ++ rest))
    = if command = name then some rest else none
  := by
  have hafter : Text.after? ('\\' :: command) ('\\' :: (name ++ rest))
      = Text.after? command (name ++ rest) := by
    rw [Text.after?_cons, if_pos rfl]
  rw [command?, hafter]
  cases h : Text.after? command (name ++ rest) with
  | none =>
    split
    · rename_i heq
      rw [heq, Text.after?_eq_some_iff.2 rfl] at h
      contradiction
    · rfl
  | some tail =>
    have hsplit := Text.after?_eq_some_iff.1 h
    cases htail : Text.startsWithLetter tail with
    | true =>
      split
      · rename_i heq
        rw [heq, List.append_cancel_left_eq] at hsplit
        rw [hsplit, htail] at hrest
        contradiction
      · simp [htail]
    | false =>
      have heq := Text.takeWhile_isLetter_append hname hrest
      rw [hsplit, Text.takeWhile_isLetter_append hcommand htail] at heq
      rw [heq, List.append_cancel_left_eq] at hsplit
      simp [htail, heq, hsplit]

/-- By how much a command changes the number of open environments is told by its name. -/
theorem nestingStep_command (hname : Text.isLetters name = true)
    (hrest : Text.startsWithLetter rest = false) :
  nestingStep ('\\' :: (name ++ rest))
    = if "begin".toList = name then 1 else if "end".toList = name then -1 else 0
  := by
  have hbegin := @command?_command _ _ "begin".toList rfl hname hrest
  have hend := @command?_command _ _ "end".toList rfl hname hrest
  rw [nestingStep]
  change (if (command? ('\\' :: "begin".toList) _).isSome then _
    else if (command? ('\\' :: "end".toList) _).isSome then _ else _) = _
  rw [hbegin, hend]
  split <;> simp

/-- The rows are looked for behind a command, with the environment that it opens or closes. -/
theorem splitRows_command {d : Int} (hname : Text.isLetters name = true)
    (hrest : Text.startsWithLetter rest = false) :
  splitRows d ('\\' :: (name ++ rest))
    = addToCell ('\\' :: name)
      (splitRows (d + if "begin".toList = name then 1 else if "end".toList = name then -1 else 0)
        rest)
  := by
  rw [← nestingStep_command hname hrest]
  cases name with
  | nil => contradiction
  | cons c cs =>
    have hc := (letters_plain hname c List.mem_cons_self).1
    have hand := ampersand_not_mem_letters hname
    rw [List.mem_cons, not_or] at hand
    rw [List.cons_append, splitRows.eq_def]
    simp only [hc, decide_false, Bool.false_and, Bool.false_eq_true, if_false]
    rw [splitRows_plain (fun c hc => letters_plain hname c (List.mem_cons_of_mem _ hc))
      (fun _ => hand.2), addToCell_addToCell]
    rfl

namespace Rowed

theorem append (ha : Rowed cell a) (hb : Rowed cell b) (hab : Follow a b) :
  Rowed cell (a ++ b)
  := by
  intro d rest hd hcell h
  rw [List.append_assoc, ha d _ hd hcell (h.left hab), hb d _ hd hcell h.right,
    addToCell_addToCell]

theorem mono {cell' : Bool} (h : Rowed cell m) (hcell : cell' = true → cell = true) :
  Rowed cell' m
  := fun d rest hd hd' => h d rest hd fun hzero => hcell (hd' hzero)

theorem plain (h : ∀ c ∈ a, c ≠ '\\' ∧ c ≠ '{' ∧ c ≠ '}') (hcell : cell = true → '&' ∉ a) :
  Rowed cell a
  := fun _ _ _ hd _ => splitRows_plain h fun hzero => hcell (hd hzero)

theorem command (hname : Text.isLetters name = true) (hbegin : "begin".toList ≠ name)
    (hend : "end".toList ≠ name) :
  Rowed cell ('\\' :: name)
  := by
  intro d rest _ _ h
  rw [List.cons_append, splitRows_command hname (h (endsInName_command hname)),
    if_neg hbegin, if_neg hend, Int.add_zero]

theorem escape {c : Char} (hletter : Text.isLetter c = false) (h : c ≠ '\\') :
  Rowed cell ['\\', c]
  := by
  intro d rest _ _ _
  have hstep : nestingStep ('\\' :: c :: rest) = 0 := by
    have hb : 'b' ≠ c := by
      rintro rfl
      contradiction
    have he : 'e' ≠ c := by
      rintro rfl
      contradiction
    simp [nestingStep, command?, Text.after?_cons, Ne.symm hb, Ne.symm he]
  rw [List.cons_append, List.singleton_append, splitRows.eq_def]
  simp [h, hstep]

theorem braced (h : Rowed false m) :
  Rowed cell (['{'] ++ m ++ ['}'])
  := by
  intro d rest hd _ _
  have hopen : splitRows d ('{' :: (m ++ '}' :: rest))
      = addToCell ['{'] (splitRows (d + 1) (m ++ '}' :: rest)) := by
    rw [splitRows.eq_def]
    rfl
  have hclose : splitRows (d + 1) ('}' :: rest)
      = addToCell ['}'] (splitRows d rest) := by
    rw [splitRows.eq_def]
    simp
  simp only [List.append_assoc, List.cons_append, List.nil_append]
  rw [hopen, h (d + 1) _ (by omega) (by omega) (Follow.cons rfl), hclose,
    addToCell_addToCell, addToCell_addToCell]
  rfl

end Rowed

/-! ### Closed fragments -/

/-- A fragment of markup through which every reader of a closing delimiter goes.  If `cell`
holds, the fragment may also stand in a cell outside of groups. -/
structure Closed (cell : Bool) (m : Text) : Prop where
  balanced : Balanced m
  sized : Sized m
  ended : Ended m
  rowed : Rowed cell m

namespace Closed

theorem append (ha : Closed cell a) (hb : Closed cell b) (hab : Follow a b) :
  Closed cell (a ++ b) where
  balanced := ha.balanced.append hb.balanced
  sized := ha.sized.append hb.sized hab
  ended := ha.ended.append hb.ended hab
  rowed := ha.rowed.append hb.rowed hab

theorem mono {cell' : Bool} (h : Closed cell m) (hcell : cell' = true → cell = true) :
  Closed cell' m
  := { h with rowed := h.rowed.mono hcell }

theorem plain (h : ∀ c ∈ a, c ≠ '\\' ∧ c ≠ '{' ∧ c ≠ '}') (hcell : cell = true → '&' ∉ a) :
  Closed cell a where
  balanced := braceDepth?_plain h
  sized := Sized.plain fun hmem => (h _ hmem).1 rfl
  ended := Ended.plain fun hmem => (h _ hmem).1 rfl
  rowed := Rowed.plain h hcell

theorem nil : Closed cell [] := plain (by simp) (by simp)

/-- The group of a closed fragment is closed; inside of it ampersands do not count. -/
theorem braced (h : Closed false m) :
  Closed cell (['{'] ++ m ++ ['}']) where
  balanced := h.balanced.braced
  sized := ((Sized.plain (by decide)).append h.sized (Follow.concat (s := []) rfl)).append
    (Sized.plain (by decide)) (Follow.cons rfl)
  ended := ((Ended.plain (by decide)).append h.ended (Follow.concat (s := []) rfl)).append
    (Ended.plain (by decide)) (Follow.cons rfl)
  rowed := h.rowed.braced

/-- A closed fragment may stand behind a group. -/
theorem braced_append (ha : Closed false a) (hb : Closed cell b) :
  Closed cell (Writing.braced a ++ b)
  := ha.braced.append hb (Follow.concat rfl)

/-- A group may stand behind a closed fragment. -/
theorem append_braced (ha : Closed cell a) (hb : Closed false b) :
  Closed cell (a ++ Writing.braced b)
  := ha.append hb.braced (Follow.cons rfl)

/-- A fragment between square brackets is closed when it is. -/
theorem bracketed (h : Closed cell m) :
  Closed cell (['['] ++ m ++ [']'])
  := by
  apply Closed.append _ (plain (by simp) (by simp)) (Follow.cons rfl)
  apply (plain (by simp) (by simp)).append h (Follow.concat (s := []) rfl)

end Closed

/-- A command name that neither sizes a bracket nor begins or ends an environment. -/
def isInertName (name : Text) : Bool :=
  Text.isLetters name && !Delimiter.sizeNames.any (·.1 = name)
    && !Delimiter.sizeNames.any (·.2 = name) && "begin".toList != name && "end".toList != name

theorem balanced_command (hname : Text.isLetters name = true) :
  Balanced ('\\' :: name)
  := by
  cases name with
  | nil => contradiction
  | cons c cs =>
    rw [Balanced, braceDepth?_escape]
    apply braceDepth?_plain fun c hc => letters_plain hname c (List.mem_cons_of_mem _ hc)

theorem Closed.command (name : Text) (h : isInertName name = true) :
  Closed cell ('\\' :: name)
  := by
  simp only [isInertName, Bool.and_eq_true, Bool.not_eq_true', bne_iff_ne] at h
  obtain ⟨⟨⟨⟨hname, hleft⟩, hright⟩, hbegin⟩, hend⟩ := h
  constructor
  · apply balanced_command hname
  · apply Sized.command hname hleft hright
  · apply Ended.command hname hbegin hend
  · apply Rowed.command hname hbegin hend

theorem Closed.escape {c : Char} (hletter : Text.isLetter c = false) (h : c ≠ '\\') :
  Closed cell ['\\', c] where
  balanced := rfl
  sized := Sized.escape hletter h
  ended := Ended.escape hletter h
  rowed := Rowed.escape hletter h

end Markup

end Formula
