import Formula.Proofs.Construct

/-!
# Written grids

A grid is an environment; its body is cut into the cells again that it was put together
from, with blanks around them.
-/

namespace Formula

open Build Markup Writing

namespace Markup

variable {cell : Bool} {a b m rest name env : Text} {d : Nat}

/-! ### Environments are closed -/

theorem brace_not_mem_letters (h : Text.isLetters name = true) :
  '}' ∉ name
  := fun hmem => (letters_plain h _ hmem).2.2 rfl

/-- Names without braces that stand in front of a closing brace are the same. -/
theorem eq_of_append_brace {tail : Text} (hname : '}' ∉ name) (henv : '}' ∉ env)
    (h : name ++ '}' :: rest = env ++ '}' :: tail) :
  env = name ∧ rest = tail
  := by
  have htake : ∀ {w tail : Text}, '}' ∉ w → (w ++ '}' :: tail).takeWhile (· ≠ '}') = w := by
    intro w tail hw
    rw [List.takeWhile_append_of_pos, List.takeWhile_cons_of_neg (by simp), List.append_nil]
    intro c hc
    rw [decide_eq_true_eq]
    rintro rfl
    contradiction
  have heq : name = env := by rw [← htake hname, h, htake henv]
  subst heq
  exact ⟨rfl, (List.cons.inj (List.append_cancel_left h)).2⟩

/-- The name of an environment is told from what stands between the braces. -/
theorem afterMarker?_eq {marker : Text} (hname : '}' ∉ name) (henv : '}' ∉ env) :
  afterMarker? marker env (marker ++ (braced name ++ rest)) = if env = name then some rest else none
  := by
  have hskip : Text.skipMargin (braced name ++ rest) = '{' :: (name ++ '}' :: rest) := by
    simp [braced, Text.skipMargin, Text.isMarginBlank, Text.isBlank]
  rw [afterMarker?, Text.after?_eq_some_iff.2 rfl]
  simp only [Option.bind_eq_bind, Option.bind_some, hskip]
  cases h : Text.after? (['{'] ++ env ++ ['}']) ('{' :: (name ++ '}' :: rest)) with
  | none =>
    split
    · rename_i heq
      have hafter : Text.after? (['{'] ++ env ++ ['}']) ('{' :: (name ++ '}' :: rest)) = some rest :=
        Text.after?_eq_some_iff.2 (by simp [heq])
      rw [hafter] at h
      cases h
    · rfl
  | some tail =>
    have hsplit := Text.after?_eq_some_iff.1 h
    simp only [List.cons_append, List.nil_append, List.append_assoc, List.cons.injEq,
      true_and] at hsplit
    obtain ⟨heq, hrest⟩ := eq_of_append_brace hname henv hsplit
    rw [if_pos heq, hrest]

theorem backslash_not_mem_braced (hname : Text.isLetters name = true) :
  '\\' ∉ braced name
  := by
  have := backslash_not_mem_letters hname
  simp [braced, this]

/-- A name is passed over, and so is another one in braces behind it. -/
theorem untilEnd_braced {marker : Text} (hmarker : Text.isLetters marker = true)
    (hname : Text.isLetters name = true) :
  untilEnd env d (marker ++ (braced name ++ rest))
    = (untilEnd env d rest).map (prepend (marker ++ braced name))
  := by
  rw [← List.append_assoc]
  apply untilEnd_plain
  rw [List.mem_append, not_or]
  exact ⟨backslash_not_mem_letters hmarker, backslash_not_mem_braced hname⟩

/-- The beginning of an environment opens it, or is passed over. -/
theorem untilEnd_begin (hname : Text.isLetters name = true) (henv : '}' ∉ env) :
  untilEnd env d ("\\begin".toList ++ (braced name ++ rest))
    = (untilEnd env (if env = name then d + 1 else d) rest).map
      (prepend ("\\begin".toList ++ braced name))
  := by
  have hbegin := @afterMarker?_eq rest _ _ "\\begin".toList (brace_not_mem_letters hname) henv
  change untilEnd env d ('\\' :: ("begin".toList ++ (braced name ++ rest))) = _
  change afterMarker? "\\begin".toList env ('\\' :: ("begin".toList ++ (braced name ++ rest))) = _
    at hbegin
  by_cases heq : env = name
  · rw [if_pos heq] at hbegin ⊢
    rw [untilEnd.eq_def]
    simp only [hbegin, Option.isSome_some, if_true]
    rw [untilEnd_braced rfl hname, Option.map_map, prepend_comp_prepend]
    rfl
  · rw [if_neg heq] at hbegin ⊢
    have hend : afterMarker? "\\end".toList env
        ('\\' :: ("begin".toList ++ (braced name ++ rest))) = none :=
      afterMarker?_name rfl rfl rfl (by decide)
    rw [untilEnd_cons hbegin hend, untilEnd_braced rfl hname, Option.map_map,
      prepend_comp_prepend]
    rfl

/-- The end of an environment ends what is looked for. -/
theorem untilEnd_end_zero (hname : '}' ∉ name) :
  untilEnd name 0 ("\\end".toList ++ (braced name ++ rest)) = some ([], rest)
  := by
  have hbegin : afterMarker? "\\begin".toList name
      ('\\' :: ("end".toList ++ (braced name ++ rest))) = none :=
    afterMarker?_name rfl rfl rfl (by decide)
  have hend := @afterMarker?_eq rest _ _ "\\end".toList hname hname
  rw [if_pos rfl] at hend
  change afterMarker? "\\end".toList name ('\\' :: ("end".toList ++ (braced name ++ rest))) = _
    at hend
  change untilEnd name 0 ('\\' :: ("end".toList ++ (braced name ++ rest))) = _
  rw [untilEnd.eq_def]
  simp only [hbegin, hend, Option.isSome_none, Bool.false_eq_true, if_false]

/-- The end of an environment closes it, or is passed over. -/
theorem untilEnd_end (hname : Text.isLetters name = true) (henv : '}' ∉ env) :
  untilEnd env d ("\\end".toList ++ (braced name ++ rest))
    = if env = name then
        match d with
        | 0 => some ([], rest)
        | d + 1 => (untilEnd env d rest).map (prepend ("\\end".toList ++ braced name))
      else (untilEnd env d rest).map (prepend ("\\end".toList ++ braced name))
  := by
  have hend := @afterMarker?_eq rest _ _ "\\end".toList (brace_not_mem_letters hname) henv
  change untilEnd env d ('\\' :: ("end".toList ++ (braced name ++ rest))) = _
  change afterMarker? "\\end".toList env ('\\' :: ("end".toList ++ (braced name ++ rest))) = _
    at hend
  have hbegin : afterMarker? "\\begin".toList env
      ('\\' :: ("end".toList ++ (braced name ++ rest))) = none :=
    afterMarker?_name rfl rfl rfl (by decide)
  by_cases heq : env = name
  · cases d with
    | zero =>
      rw [if_pos heq, heq]
      apply untilEnd_end_zero (brace_not_mem_letters hname)
    | succ d =>
      rw [if_pos heq] at hend ⊢
      rw [untilEnd.eq_def]
      simp only [hbegin, hend, Option.isSome_none, Bool.false_eq_true, if_false]
      rw [untilEnd_braced rfl hname, Option.map_map, prepend_comp_prepend]
      rfl
  · rw [if_neg heq] at hend ⊢
    rw [untilEnd_cons hbegin hend, untilEnd_braced rfl hname, Option.map_map,
      prepend_comp_prepend]
    rfl

/-- The environment of a body. -/
def environmentText (name body : Text) : Text :=
  "\\begin".toList ++ (braced name ++ (body ++ ("\\end".toList ++ braced name)))

theorem environmentText_append (name body rest : Text) :
  environmentText name body ++ rest
    = "\\begin".toList ++ (braced name ++ (body ++ ("\\end".toList ++ (braced name ++ rest))))
  := by
  unfold environmentText
  rw [List.append_assoc, List.append_assoc, List.append_assoc, List.append_assoc]

theorem Closed.letters (hname : Text.isLetters name = true) :
  Closed cell name
  := Closed.plain (letters_plain hname) fun _ => ampersand_not_mem_letters hname

/-- An environment is closed when its body is; inside of it ampersands do not count. -/
theorem Closed.environment (hname : Text.isLetters name = true) (h : Closed false m) :
  Closed cell (environmentText name m)
  := by
  have hbraced : Closed cell (Writing.braced name) := Closed.braced (Closed.letters hname)
  constructor
  · apply (balanced_command rfl).append
    apply hbraced.balanced.append
    apply h.balanced.append
    apply (balanced_command rfl).append hbraced.balanced
  · apply (Sized.command rfl (by decide) (by decide)).append _
      (Follow.cons rfl)
    apply hbraced.sized.append _ (Follow.concat rfl)
    apply h.sized.append _ (Follow.cons rfl)
    apply (Sized.command rfl (by decide) (by decide)).append hbraced.sized
      (Follow.cons rfl)
  · intro env d rest henv hrest
    have hfollow : Follow m ("\\end".toList ++ (Writing.braced name ++ rest)) := Follow.cons rfl
    rw [environmentText_append, untilEnd_begin hname henv, h.ended env _ _ henv hfollow,
      untilEnd_end hname henv]
    unfold environmentText
    by_cases heq : env = name
    · simp only [heq, if_true, Option.map_map, prepend_comp_prepend, List.append_assoc]
    · simp only [heq, if_false, Option.map_map, prepend_comp_prepend, List.append_assoc]
  · intro d rest hd hcell _
    rw [environmentText_append]
    change splitRows d ('\\' :: ("begin".toList ++ (Writing.braced name ++ (m ++
      ('\\' :: ("end".toList ++ (Writing.braced name ++ rest))))))) = _
    have hinner : Rowed false (Writing.braced name) := hbraced.rowed.mono (by simp)
    rw [splitRows_command rfl rfl, if_pos rfl,
      hinner (d + 1) _ (by omega) (by omega) (Follow.concat rfl),
      h.rowed (d + 1) _ (by omega) (by omega) (Follow.cons rfl), splitRows_command rfl rfl,
      if_neg (by decide), if_pos rfl, Int.add_neg_cancel_right,
      hbraced.rowed d _ hd hcell (Follow.concat rfl)]
    simp only [addToCell_addToCell]
    rfl

/-! ### Rows and cells -/

/-- What stands between two rows. -/
def rowBreak : Text := ['\\', '\\']

/-- A row break with a space behind it is closed where rows do not count. -/
theorem Closed.rowBreak : Closed false (Markup.rowBreak ++ [' '])
  := by
  constructor
  · decide
  · intro d rest _
    have hfirst : ∀ tail, sizeCommand? ('\\' :: '\\' :: tail) = none := fun _ => rfl
    have hsecond : ∀ tail, sizeCommand? ('\\' :: ' ' :: tail) = none := fun _ => rfl
    change untilClosing d ('\\' :: '\\' :: ' ' :: rest) = _
    rw [untilClosing_cons (hfirst _), untilClosing_cons (hsecond _),
      untilClosing_cons (sizeCommand?_eq_none (by decide)), Option.map_map, Option.map_map,
      prepend_comp_prepend, prepend_comp_prepend]
    rfl
  · intro env d rest _ _
    change untilEnd env d ('\\' :: '\\' :: ' ' :: rest) = _
    rw [untilEnd_escape rfl, untilEnd_escape rfl,
      untilEnd_cons (afterMarker?_eq_none rfl (by decide)) (afterMarker?_eq_none rfl (by decide)),
      Option.map_map, Option.map_map, prepend_comp_prepend, prepend_comp_prepend]
    rfl
  · intro d rest hd hcell _
    have hpos : (d == 0) = false := by
      rw [beq_eq_false_iff_ne]
      intro hzero
      cases hcell hzero
    change splitRows d ('\\' :: '\\' :: ' ' :: rest) = _
    have hstep : nestingStep ('\\' :: '\\' :: ' ' :: rest) = 0 := rfl
    rw [splitRows.eq_def]
    simp only [hpos, Bool.and_false, Bool.false_eq_true, if_false, hstep, Int.add_zero]
    rw [splitRows_cons (by decide) (by decide) (by simp), addToCell_addToCell]
    rfl

/-- A row of cells, up to where its row ends. -/
theorem splitRows_row {cells : List Text} {rows : List (List Text)} (hne : cells ≠ [])
    (hcells : ∀ cell ∈ cells, ∀ rest,
      splitRows 0 (cell ++ rest) = addToCell cell (splitRows 0 rest))
    (hrest : splitRows 0 rest = [[]] :: rows) :
  splitRows 0 (Text.joinWith ['&'] cells ++ rest) = cells :: rows
  := by
  induction cells with
  | nil => contradiction
  | cons c cs ih =>
    have hc := hcells c List.mem_cons_self
    cases cs with
    | nil =>
      rw [Text.joinWith, hc, hrest]
      simp [addToCell]
    | cons d ds =>
      have htail := ih (List.cons_ne_nil _ _) fun cell h => hcells cell (List.mem_cons_of_mem _ h)
      have hand : ∀ tail, splitRows 0 ('&' :: tail) = beginCell (splitRows 0 tail) := by
        intro tail
        rw [splitRows.eq_def]
        rfl
      rw [Text.joinWith, List.append_assoc, List.append_assoc, hc, List.singleton_append, hand,
        htail]
      simp [beginCell, addToCell]

/-- The body of a grid is cut into its rows and cells again. -/
theorem splitRows_rows {rows : List (List Text)} (hne : rows ≠ [])
    (hrows : ∀ row ∈ rows, row ≠ [] ∧ ∀ cell ∈ row, ∀ rest,
      splitRows 0 (cell ++ rest) = addToCell cell (splitRows 0 rest)) :
  splitRows 0 (Text.joinWith rowBreak (rows.map (Text.joinWith ['&']))) = rows
  := by
  induction rows with
  | nil => contradiction
  | cons row rows ih =>
    obtain ⟨hrow, hcells⟩ := hrows row List.mem_cons_self
    cases rows with
    | nil =>
      have := @splitRows_row [] _ [] hrow hcells rfl
      rwa [List.append_nil] at this
    | cons row' rows =>
      have htail := ih (List.cons_ne_nil _ _) fun row h => hrows row (List.mem_cons_of_mem _ h)
      have hbreak : ∀ tail, splitRows 0 (rowBreak ++ tail) = [[]] :: splitRows 0 tail := by
        intro tail
        rw [rowBreak, splitRows.eq_def]
        rfl
      rw [List.map_cons, List.map_cons, Text.joinWith, List.append_assoc,
        ← List.map_cons]
      apply splitRows_row hrow hcells
      rw [hbreak, htail]

/-- Separators with spaces around them separate padded parts. -/
theorem padded_joinWith (separator : Text) {parts : List Text} (hne : parts ≠ []) :
  padded (Text.joinWith (padded separator) parts)
    = Text.joinWith separator (parts.map padded)
  := by
  induction parts with
  | nil => contradiction
  | cons s parts ih =>
    cases parts with
    | nil => rfl
    | cons t ts =>
      have htail := ih (List.cons_ne_nil _ _)
      rw [List.map_cons] at htail
      rw [List.map_cons, List.map_cons, Text.joinWith, Text.joinWith, ← htail]
      simp [padded]

/-- Cells put together to a row, with a space on either side of each. -/
def rowText (cells : List Text) : Text := Text.joinWith (padded ['&']) cells

/-- Rows put together to the body of a grid. -/
def rowsText (rows : List (List Text)) : Text :=
  padded (Text.joinWith (padded rowBreak) (rows.map rowText))

/-- The body of a grid is cut into the rows and cells that it was put together from, with one
space on either side of each cell. -/
theorem splitRows_rowsText_of_forall {rows : List (List Text)} (hne : rows ≠ [])
    (hrows : ∀ row ∈ rows, row ≠ [] ∧ ∀ cell ∈ row, ∀ rest,
      splitRows 0 (padded cell ++ rest) = addToCell (padded cell) (splitRows 0 rest)) :
  splitRows 0 (rowsText rows) = rows.map (List.map padded)
  := by
  have hne' : rows.map rowText ≠ [] := by simpa using hne
  have hcuts : rowsText rows
      = Text.joinWith rowBreak ((rows.map (List.map padded)).map (Text.joinWith ['&'])) := by
    rw [rowsText, padded_joinWith _ hne', List.map_map, List.map_map]
    congr 1
    apply List.map_congr_left
    intro row hrow
    apply padded_joinWith _ (hrows row hrow).1
  rw [hcuts]
  apply splitRows_rows (by simpa using hne)
  intro row hrow
  obtain ⟨cells, hcells, rfl⟩ := List.mem_map.1 hrow
  obtain ⟨hcells, hclosed⟩ := hrows cells hcells
  refine ⟨by simpa using hcells, ?_⟩
  intro cell hcell
  obtain ⟨s, hs, rfl⟩ := List.mem_map.1 hcell
  apply hclosed s hs

/-- Joined closed parts are closed. -/
theorem Closed.joinWith {separator : Text} (hsep : Closed cell (padded separator))
    {parts : List Text} (h : ∀ part ∈ parts, Closed cell part) :
  Closed cell (Text.joinWith (padded separator) parts)
  := by
  induction parts with
  | nil => apply Closed.nil
  | cons s parts ih =>
    cases parts with
    | nil => apply h s List.mem_cons_self
    | cons t ts =>
      rw [Text.joinWith, List.append_assoc]
      apply (h s List.mem_cons_self).append _ (Follow.cons rfl)
      apply hsep.append (ih fun part hpart => h part (List.mem_cons_of_mem _ hpart))
      apply Follow.concat rfl

/-- The body of an environment ends where the environment does. -/
theorem environmentBody_eq (hname : '}' ∉ name) (h : Ended m) (rest : Text) :
  environmentBody name (m ++ ("\\end".toList ++ (braced name ++ rest))) = (m, rest)
  := by
  have hfollow : Follow m ("\\end".toList ++ (braced name ++ rest)) := Follow.cons rfl
  rw [environmentBody, h name 0 _ hname hfollow, untilEnd_end_zero hname]
  simp [prepend]

/-- The name of an environment is read. -/
theorem beginEnvironment?_eq (hname : Text.isLetters name = true) (rest : Text) :
  beginEnvironment? ("\\begin".toList ++ (braced name ++ rest)) = some (name, rest)
  := by
  have hskip : Text.skipMargin (braced name ++ rest) = '{' :: (name ++ '}' :: rest) := by
    simp [braced, Text.skipMargin, Text.isMarginBlank, Text.isBlank]
  have hopen : Text.after? ['{'] ('{' :: (name ++ '}' :: rest)) = some (name ++ '}' :: rest) :=
    Text.after?_eq_some_iff.2 rfl
  have hclose : Text.after? ['}'] ('}' :: rest) = some rest := Text.after?_eq_some_iff.2 rfl
  have hne : name.isEmpty = false := by
    simp only [Text.isLetters, Bool.and_eq_true, Bool.not_eq_true'] at hname
    apply hname.1
  rw [beginEnvironment?, Text.after?_eq_some_iff.2 rfl]
  simp only [Option.bind_eq_bind, Option.bind_some, hskip, hopen,
    @Text.takeWhile_isLetter_append _ ('}' :: rest) hname rfl,
    @Text.dropWhile_isLetter_append _ ('}' :: rest) hname rfl, hclose, hne,
    Bool.false_eq_true, if_false]

end Markup

/-! ### Grids -/

/-- The body of a grid. -/
def gridBody (rows cols : Nat) (content : Nat → Nat → Text) : Text :=
  padded (Text.joinWith (padded rowBreak) ((List.range rows).map fun i =>
    Text.joinWith (padded ['&']) ((List.range cols).map (content i))))

/-- A grid as it is written: its environment around its rows and cells. -/
def gridText (kind : GridKind) (rows cols : Nat) (content : Nat → Nat → Text) : Text :=
  environmentText kind.environment
    ((if kind = .stack then braced (List.replicate cols 'c') else [])
      ++ gridBody rows cols content)

/-- The grid of the given size with the given cells. -/
def Grid.tabulate {α : Type} (rows cols : Nat) (cell : Nat → Nat → List α) : Grid α where
  rows := rows
  cols := cols
  cells := (List.range rows).flatMap fun i => (List.range cols).map fun j => ((i, j), cell i j)

theorem isLetters_environment (kind : GridKind) :
  Text.isLetters kind.environment = true
  := by
  rcases kind with (_ | _ | _ | _ | _ | _) | _ | _ <;> decide

theorem map_eq_of_forall₂ {α β γ : Type} {f : α → γ} {g : β → γ} {l : List α} {l' : List β}
    (h : List.Forall₂ (fun a b => g b = f a) l l') :
  l'.map g = l.map f
  := by
  induction h with
  | nil => rfl
  | cons hab _ ih => rw [List.map_cons, List.map_cons, hab, ih]

/-- The grid of rows of equal length has the cells of the rows. -/
theorem Grid.ofRows_eq_tabulate {α β : Type} {rows cols : Nat} {made : List (List (List α))}
    {f : α → β} {cell : Nat → Nat → List β}
    (h : made.map (List.map (List.map f))
      = (List.range rows).map fun i => (List.range cols).map (cell i)) :
  Shape.mapSlotsOr.grid (List.map f) (List.map f) (Grid.ofRows cols made)
    = Grid.tabulate rows cols cell
  := by
  have hlength : made.length = rows := by
    have := congrArg List.length h
    simpa using this
  have hindex : made.zipIdx = (List.range rows).map fun i => ((made[i]?).getD [], i) := by
    apply List.ext_getElem
    · simp [hlength]
    · intro i h₁ h₂
      have hi : i < made.length := by simpa using h₁
      simp [hi]
  have hcell : ∀ i < rows, ∀ j < cols,
      ((((made[i]?).getD [])[j]?).getD []).map f = cell i j := by
    intro i hi j hj
    have hrow := congrArg (fun l => (l[i]?).getD []) h
    simp only [List.getElem?_map, List.getElem?_range hi, Option.map_some, Option.getD_some] at hrow
    have hi' : i < made.length := by omega
    rw [List.getElem?_eq_getElem hi', Option.map_some, Option.getD_some] at hrow
    have hentry := congrArg (fun l => (l[j]?).getD []) hrow
    simp only [List.getElem?_map, List.getElem?_range hj, Option.map_some, Option.getD_some]
      at hentry
    rw [List.getElem?_eq_getElem hi', Option.getD_some, ← hentry]
    cases (made[i])[j]? <;> rfl
  simp only [Grid.ofRows, Grid.tabulate, Shape.mapSlotsOr.grid, ite_self, hlength, hindex,
    List.flatMap_map, List.map_flatMap, List.map_map, Grid.mk.injEq, true_and]
  apply List.flatMap_congr
  intro i hi
  apply List.map_congr_left
  intro j hj
  simp only [Function.comp_apply, hcell i (List.mem_range.1 hi) j (List.mem_range.1 hj)]

theorem GridKind.map_shape {α β : Type} (kind : GridKind) (g : Grid α) (f : α → β) :
  (kind.shape g).map f = kind.shape (Shape.mapSlotsOr.grid (List.map f) (List.map f) g)
  := by
  cases kind <;> rfl

section Grids

variable {cell : Bool} {kind : GridKind} {rows cols : Nat} {content : Nat → Nat → Text}
  {nodes : Nat → Nat → List Node} {rest : Text}

/-- The rows and cells that the body of a grid is cut into. -/
theorem splitRows_gridBody (hrows : 0 < rows) (hcols : 0 < cols)
    (h : ∀ i < rows, ∀ j < cols, Spelled .builtin false true (content i j) (nodes i j)) :
  splitRows 0 (gridBody rows cols content)
    = (List.range rows).map fun i => (List.range cols).map fun j => padded (content i j)
  := by
  have hne : ∀ {n : Nat} {β : Type} (f : Nat → β), 0 < n → (List.range n).map f ≠ [] := by
    intro n β f hn heq
    have := congrArg List.length heq
    simp only [List.length_map, List.length_range, List.length_nil] at this
    omega
  have hbody : gridBody rows cols content
      = rowsText ((List.range rows).map fun i => (List.range cols).map (content i)) := by
    rw [rowsText, List.map_map]
    rfl
  have hpadded : ∀ i < rows, ∀ j < cols, ∀ rest,
      splitRows 0 (padded (content i j) ++ rest)
        = addToCell (padded (content i j)) (splitRows 0 rest) := by
    intro i hi j hj rest
    apply (h i hi j hj).padded.closed.rowed 0 rest (Int.le_refl 0) fun _ => rfl
    apply Follow.concat rfl
  rw [hbody, splitRows_rowsText_of_forall (hne _ hrows), List.map_map]
  · simp only [Function.comp_def, List.map_map]
  · intro row hrow
    obtain ⟨i, hi, rfl⟩ := List.mem_map.1 hrow
    refine ⟨hne _ hcols, ?_⟩
    intro cell hcell
    obtain ⟨j, hj, rfl⟩ := List.mem_map.1 hcell
    apply hpadded i (List.mem_range.1 hi) j (List.mem_range.1 hj)

theorem closed_gridBody (h : ∀ i < rows, ∀ j < cols, Closed false (content i j)) :
  Closed false (gridBody rows cols content)
  := by
  have hspace : Closed false [' '] := Closed.plain (by simp) (by simp)
  have hpad : ∀ {m : Text}, Closed false m → Closed false (padded m) := by
    intro m hm
    apply (hspace.append hm (Follow.concat (s := []) rfl)).append hspace (Follow.cons rfl)
  have hbreak : Closed false (padded rowBreak) := by
    rw [padded, List.append_assoc]
    apply hspace.append Closed.rowBreak (Follow.cons rfl)
  apply hpad
  apply Closed.joinWith hbreak
  intro part hpart
  obtain ⟨i, hi, rfl⟩ := List.mem_map.1 hpart
  apply Closed.joinWith (hpad (Closed.plain (by simp) (by simp)))
  intro part hpart
  obtain ⟨j, hj, rfl⟩ := List.mem_map.1 hpart
  apply h i (List.mem_range.1 hi) j (List.mem_range.1 hj)

/-- A grid is closed when its cells are. -/
theorem closed_gridText (h : ∀ i < rows, ∀ j < cols, Closed false (content i j)) :
  Closed cell (gridText kind rows cols content)
  := by
  have hspecification : Closed false
      (if kind = .stack then braced (List.replicate cols 'c') else []) := by
    split
    · apply Closed.braced (Closed.plain _ (by simp))
      intro c hc
      obtain rfl := List.eq_of_mem_replicate hc
      decide
    · apply Closed.nil
  apply Closed.environment (isLetters_environment kind)
  apply hspecification.append (closed_gridBody h) (Follow.cons rfl)

/-- A cell is shorter than the body of its grid. -/
theorem length_cell_le {i j : Nat} (hi : i < rows) (hj : j < cols) :
  (padded (content i j)).length ≤ (gridBody rows cols content).length
  := by
  have hjoin : ∀ (separator : Text) (parts : List Text), ∀ part ∈ parts,
      part.length ≤ (Text.joinWith separator parts).length := by
    intro separator parts
    induction parts with
    | nil => simp
    | cons s parts ih =>
      intro part hpart
      cases parts with
      | nil => simp_all [Text.joinWith]
      | cons t ts =>
        rw [Text.joinWith, List.length_append]
        rcases List.mem_cons.1 hpart with rfl | hpart
        · simp only [List.length_append]
          omega
        · have := ih part hpart
          omega
  have hrow := hjoin (padded rowBreak) _ _
    (List.mem_map.2 ⟨i, List.mem_range.2 hi, rfl⟩ : _ ∈ (List.range rows).map fun i =>
      Text.joinWith (padded ['&']) ((List.range cols).map (content i)))
  have hcell := hjoin (padded ['&']) _ _
    (List.mem_map.2 ⟨j, List.mem_range.2 hj, rfl⟩ : _ ∈ (List.range cols).map (content i))
  have hpadded : ∀ s, (padded s).length = s.length + 2 := by
    intro s
    simp [padded]
  rw [hpadded, gridBody, hpadded]
  omega

/-- The columns that a grid declares, and what follows. -/
theorem columnSpecification_eq (kind : GridKind) (cols : Nat) (rest : Text) :
  Reading.columnSpecification kind
      ((if kind = .stack then braced (List.replicate cols 'c') else []) ++ (' ' :: rest))
    = (if kind = .stack then cols else 0, ' ' :: rest)
  := by
  have hbalanced : Balanced (List.replicate cols 'c') := by
    apply braceDepth?_plain
    intro c hc
    obtain rfl := List.eq_of_mem_replicate hc
    decide
  have hdeclared : Reading.declaredColumns (List.replicate cols 'c') = cols := by
    simp [Reading.declaredColumns, List.countP_replicate]
  have hgroup := hbalanced.nextGroup? (' ' :: rest)
  cases kind with
  | stack =>
    simp only [if_true, Reading.columnSpecification, braced, hgroup, hdeclared]
  | _ => rfl

/-- The greatest length of rows of equal length, unless more columns are declared. -/
theorem foldl_max_eq {α : Type} {l : List (List α)} {declared : Nat} (hne : l ≠ [])
    (hl : ∀ row ∈ l, row.length = cols) (hdeclared : declared ≤ cols) :
  l.foldl (fun n row => max n row.length) declared = cols
  := by
  induction l generalizing declared with
  | nil => contradiction
  | cons row l ih =>
    have hrow := hl row List.mem_cons_self
    have htail : ∀ row ∈ l, row.length = cols := fun row h => hl row (List.mem_cons_of_mem _ h)
    have hmax : max declared row.length = cols := by omega
    rw [List.foldl_cons, hmax]
    cases l with
    | nil => rfl
    | cons row' l => apply ih (List.cons_ne_nil _ _) htail (Nat.le_refl _)

/-- A grid is read with its cells. -/
theorem spells_grid (hrows : 0 < rows) (hcols : 0 < cols)
    (h : ∀ i < rows, ∀ j < cols, Spelled .builtin false true (content i j) (nodes i j)) :
  Spells .builtin cell (gridText kind rows cols content)
    [.plain 0 (kind.shape (Grid.tabulate rows cols nodes))]
  := by
  have hname := isLetters_environment kind
  have hcells : ∀ i < rows, ∀ j < cols, Closed false (content i j) := fun i hi j hj =>
    (h i hi j hj).closed.mono (by simp)
  have hbody := closed_gridBody hcells
  apply Spells.command (k := 4) (r := Reading.environment) rfl rfl
    List.mem_cons_self rfl (by decide) (by decide) rfl
  · apply (whole_braced kind.environment).append.append.append.append
  · apply closed_gridText hcells
  intro n rest hn _ _ _
  obtain ⟨tail, htail⟩ : ∃ tail, gridBody rows cols content = ' ' :: tail := ⟨_, rfl⟩
  have hbegin := beginEnvironment?_eq hname
    ((if kind = .stack then braced (List.replicate cols 'c') else [])
      ++ (gridBody rows cols content
        ++ ("\\end".toList ++ (braced kind.environment ++ rest))))
  have hcolumns := columnSpecification_eq kind cols
    (tail ++ ("\\end".toList ++ (braced kind.environment ++ rest)))
  rw [← List.cons_append, ← htail] at hcolumns
  have hend := environmentBody_eq (brace_not_mem_letters hname) hbody.ended rest
  have hrow : (List.range rows).map (fun i => (List.range cols).map fun j => padded (content i j))
      ≠ [] := by
    intro heq
    have := congrArg List.length heq
    simp only [List.length_map, List.length_range, List.length_nil] at this
    omega
  refine ⟨_, by
    simp only [Reading.environment, List.append_assoc, hbegin, GridKind.ofName?_environment,
      Option.bind_eq_bind, Option.bind_some]
    rfl, ?_⟩
  simp only [hcolumns, hend, splitRows_gridBody hrows hcols h]
  rw [@foldl_max_eq cols _ _ _ hrow (by simp) (by split <;> omega)]
  apply Returns.bind (meets_fresh fun _ => trivial)
  intro i _
  have hcells : Returns (((List.range rows).map fun i => (List.range cols).map fun j =>
      padded (content i j)).mapM (List.mapM (Reading.nestedBelow .builtin n).sequence))
      fun made => made.map (List.map (List.map Node.bare))
        = (List.range rows).map fun i => (List.range cols).map (nodes i) := by
    rw [List.mapM_map]
    apply Returns.mono (Meets.mapM (R := fun i row => row.map (List.map Node.bare)
      = (List.range cols).map (nodes i)) _) fun made hmade => map_eq_of_forall₂ hmade
    intro i hi
    rw [Function.comp_apply, List.mapM_map]
    apply Returns.mono (Meets.mapM (R := fun j cell => cell.map Node.bare = nodes i j) _)
      fun made hmade => map_eq_of_forall₂ hmade
    intro j hj
    have hi' := List.mem_range.1 hi
    have hj' := List.mem_range.1 hj
    apply (h i hi' j hj').padded.makes_sequence
    have := @length_cell_le _ _ content _ _ hi' hj'
    simp only [List.length_append] at hn
    omega
  apply Returns.bind hcells
  intro made hmade
  apply Gives.node
  rw [GridKind.map_shape, Grid.ofRows_eq_tabulate hmade]

end Grids

end Formula
