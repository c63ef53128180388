import Formula.Markup.Group

/-!
# Environments and rows

An environment stands between `\begin` and `\end` with its name in braces, and environments
of one name nest.  The body of a grid is cut into rows and cells where neither a group nor
an environment is open.
-/

namespace Formula.Markup

/-- What follows `\begin` or `\end` with a braced name, where blanks may stand before the
brace. -/
def afterMarker? (marker name s : Text) : Option Text := do
  let rest ← Text.after? marker s
  Text.after? (['{'] ++ name ++ ['}']) (Text.skipMargin rest)

/-- The name of the environment that begins here, and what follows. -/
def beginEnvironment? (s : Text) : Option (Text × Text) := do
  let rest ← Text.after? "\\begin".toList s
  let rest ← Text.after? ['{'] (Text.skipMargin rest)
  let name := rest.takeWhile Text.isLetter
  let rest ← Text.after? ['}'] (rest.dropWhile Text.isLetter)
  if name.isEmpty then none else some (name, rest)

/-- The text up to the end of the environment it stands in, where `depth` further
environments of the name are open, and what follows that end. -/
def untilEnd (name : Text) : (depth : Nat) → Text → Option (Text × Text)
  | _, [] => none
  | depth, c :: cs =>
    if (afterMarker? "\\begin".toList name (c :: cs)).isSome then
      (untilEnd name (depth + 1) cs).map (prepend [c])
    else
      match afterMarker? "\\end".toList name (c :: cs), depth with
      | some rest, 0 => some ([], rest)
      | some _, depth + 1 => (untilEnd name depth cs).map (prepend [c])
      | none, depth => (untilEnd name depth cs).map (prepend [c])

/-- The body of an environment and what follows its end; an environment that is not ended
takes the whole text. -/
def environmentBody (name s : Text) : Text × Text := (untilEnd name 0 s).getD (s, [])

/-- By how much the command at the beginning of the text changes the number of open
environments. -/
def nestingStep (s : Text) : Int :=
  if (command? "\\begin".toList s).isSome then 1
  else if (command? "\\end".toList s).isSome then -1
  else 0

/-- Adds to the first cell of the first row. -/
def addToCell (front : Text) : List (List Text) → List (List Text)
  | [] => [[front]]
  | [] :: rows => [front] :: rows
  | (cell :: cells) :: rows => ((front ++ cell) :: cells) :: rows

/-- Begins a cell before the first cell of the first row. -/
def beginCell : List (List Text) → List (List Text)
  | [] => [[[]]]
  | row :: rows => ([] :: row) :: rows

/-- The rows and cells of the body of a grid.  `depth` counts the groups and environments
that are open; a row ends at a double backslash and a cell at `&`, where it is zero.  A
backslash takes the character after it out of the counting. -/
def splitRows : (depth : Int) → Text → List (List Text)
  | _, [] => [[[]]]
  | _, ['\\'] => [[['\\']]]
  | depth, '\\' :: c :: cs =>
    if c = '\\' && depth == 0 then [[]] :: splitRows depth cs
    else addToCell ['\\', c] (splitRows (depth + nestingStep ('\\' :: c :: cs)) cs)
  | depth, '{' :: cs => addToCell ['{'] (splitRows (depth + 1) cs)
  | depth, '}' :: cs => addToCell ['}'] (splitRows (depth - 1) cs)
  | depth, c :: cs =>
    if c = '&' && depth == 0 then beginCell (splitRows depth cs)
    else addToCell [c] (splitRows depth cs)

/-! ### Lengths -/

theorem length_of_after? {start s rest : Text} (h : Text.after? start s = some rest) :
  start.length + rest.length = s.length
  := by
  obtain rfl := Text.after?_eq_some_iff.1 h
  simp

theorem length_of_afterMarker? {marker name s rest : Text}
    (h : afterMarker? marker name s = some rest) :
  rest.length + 2 ≤ s.length
  := by
  simp only [afterMarker?, Option.bind_eq_bind, Option.bind_eq_some_iff] at h
  obtain ⟨t, ht, h⟩ := h
  have h₁ := length_of_after? ht
  have h₂ := length_of_after? h
  have h₃ := Text.length_skipMargin_le t
  simp only [List.length_append, List.length_cons, List.length_nil] at h₂
  omega

theorem length_of_untilEnd {name : Text} {depth : Nat} {s a r : Text}
    (h : untilEnd name depth s = some (a, r)) :
  a.length + r.length < s.length
  := by
  fun_induction untilEnd name depth s generalizing a r
  case case1 => simp at h
  case case3 rest hrest =>
    obtain ⟨rfl, rfl⟩ := Prod.mk.inj (Option.some.inj h)
    have := length_of_afterMarker? hrest
    simp only [List.length_nil, List.length_cons] at this ⊢
    omega
  all_goals
    simp only [map_prepend_eq_some_iff] at h
    grind

theorem length_environmentBody_le (name s : Text) :
  (environmentBody name s).1.length + (environmentBody name s).2.length ≤ s.length
  := by
  unfold environmentBody
  cases h : untilEnd name 0 s with
  | none => simp
  | some p =>
    have := length_of_untilEnd h
    simp
    omega

end Formula.Markup
