import Formula.Node.Mode
import Formula.Text.Blank

/-!
# Groups and arguments

The smallest pieces that markup is cut into.  A group stands between braces, an optional
argument between square brackets, and an argument is a group, a command or a single
character.  A backslash takes the character after it out of the counting of braces.  What
is not closed ends with the text.  Every reader gives what it read and what follows.
-/

namespace Formula.Markup

/-- What was read and what follows it, with more text read before. -/
def prepend (front : Text) (read : Text × Text) : Text × Text := (front ++ read.1, read.2)

/-- The text up to the brace that closes the group it stands in, where `depth` further groups
are open, and what follows that brace. -/
def untilBrace : (depth : Nat) → Text → Option (Text × Text)
  | _, [] => none
  | _, ['\\'] => none
  | depth, '\\' :: c :: cs => (untilBrace depth cs).map (prepend ['\\', c])
  | depth, '{' :: cs => (untilBrace (depth + 1) cs).map (prepend ['{'])
  | 0, '}' :: cs => some ([], cs)
  | depth + 1, '}' :: cs => (untilBrace depth cs).map (prepend ['}'])
  | depth, c :: cs => (untilBrace depth cs).map (prepend [c])

/-- The content of a group after its opening brace, and what follows the group. -/
def group (s : Text) : Text × Text := (untilBrace 0 s).getD (s, [])

/-- The text up to the square bracket that closes the argument it stands in, where `depth`
further square brackets and `braces` groups are open.  Square brackets inside a group do
not count. -/
def untilSquare : (depth braces : Nat) → Text → Option (Text × Text)
  | _, _, [] => none
  | _, _, ['\\'] => none
  | depth, braces, '\\' :: c :: cs =>
    (untilSquare depth braces cs).map (prepend ['\\', c])
  | depth, braces, '{' :: cs =>
    (untilSquare depth (braces + 1) cs).map (prepend ['{'])
  | depth, braces + 1, '}' :: cs =>
    (untilSquare depth braces cs).map (prepend ['}'])
  | depth, 0, '[' :: cs => (untilSquare (depth + 1) 0 cs).map (prepend ['['])
  | 0, 0, ']' :: cs => some ([], cs)
  | depth + 1, 0, ']' :: cs => (untilSquare depth 0 cs).map (prepend [']'])
  | depth, braces, c :: cs => (untilSquare depth braces cs).map (prepend [c])

/-- The content of an optional argument, if one begins here, and what follows it; without
one the text is left as it is. -/
def optional (s : Text) : Option Text × Text :=
  match Text.skipBlanks s with
  | '[' :: cs =>
    let (content, rest) := (untilSquare 0 0 cs).getD (cs, [])
    (some content, rest)
  | _ => (none, s)

/-- The command after a backslash: a run of letters, or one other character. -/
def commandName : Text → Option (Text × Text)
  | [] => none
  | c :: cs =>
    if Text.isLetter c then
      some ((c :: cs).takeWhile Text.isLetter, (c :: cs).dropWhile Text.isLetter)
    else some ([c], cs)

/-- One argument, and what follows it: a group, a command, or a single character.  At the end
of the text the argument is empty. -/
def argument (s : Text) : Text × Text :=
  match Text.skipBlanks s with
  | [] => ([], [])
  | '{' :: cs => group cs
  | '\\' :: cs =>
    match commandName cs with
    | some (command, rest) => ('\\' :: command, rest)
    | none => (['\\'], cs)
  | c :: cs => ([c], cs)

/-- The side of the script that a marker announces next, after blanks, with what follows the
marker. -/
def scriptMarker? (s : Text) : Option (ScriptSide × Text) :=
  match Text.skipBlanks s with
  | [] => none
  | c :: cs => (ScriptSide.ofMarker? c).map (·, cs)

/-- The group that stands next, after blanks, and what follows it. -/
def nextGroup? (s : Text) : Option (Text × Text) :=
  match Text.skipBlanks s with
  | '{' :: cs => some (group cs)
  | _ => none

/-- A command of the given letters, where no further letter follows. -/
def command? (command : Text) (s : Text) : Option Text := do
  let rest ← Text.after? command s
  if Text.startsWithLetter rest then none else some rest

/-! ### Lengths -/

theorem map_prepend_eq_some_iff {front a r : Text} {o : Option (Text × Text)} :
  o.map (prepend front) = some (a, r) ↔ ∃ b, o = some (b, r) ∧ a = front ++ b
  := by
  cases o with
  | none => simp
  | some p =>
    obtain ⟨b, t⟩ := p
    simp only [Option.map_some, prepend, Option.some.injEq, Prod.mk.injEq]
    grind

theorem length_of_untilBrace {depth : Nat} {s a r : Text}
    (h : untilBrace depth s = some (a, r)) :
  a.length + r.length < s.length
  := by
  fun_induction untilBrace depth s generalizing a r <;>
    simp only [map_prepend_eq_some_iff, Option.some.injEq, Prod.mk.injEq, reduceCtorEq] at h <;>
    grind

theorem length_group_le (s : Text) :
  (group s).1.length + (group s).2.length ≤ s.length
  := by
  unfold group
  cases h : untilBrace 0 s with
  | none => simp
  | some p =>
    have := length_of_untilBrace h
    simp
    omega

theorem length_of_untilSquare {depth braces : Nat} {s a r : Text}
    (h : untilSquare depth braces s = some (a, r)) :
  a.length + r.length < s.length
  := by
  fun_induction untilSquare depth braces s generalizing a r <;>
    simp only [map_prepend_eq_some_iff, Option.some.injEq, Prod.mk.injEq, reduceCtorEq] at h <;>
    grind

theorem length_of_commandName {s a r : Text} (h : commandName s = some (a, r)) :
  a.length + r.length = s.length
  := by
  cases s with
  | nil => simp [commandName] at h
  | cons c cs =>
    simp only [commandName] at h
    split at h
    · obtain ⟨rfl, rfl⟩ := Prod.mk.inj (Option.some.inj h)
      rw [← List.length_append, List.takeWhile_append_dropWhile]
    · obtain ⟨rfl, rfl⟩ := Prod.mk.inj (Option.some.inj h)
      simp
      omega

theorem length_argument_le (s : Text) :
  (argument s).1.length + (argument s).2.length ≤ s.length
  := by
  have hs := Text.length_skipBlanks_le s
  unfold argument
  split
  · simp
  · rename_i cs heq
    have := length_group_le cs
    simp only [heq, List.length_cons] at hs
    omega
  · rename_i cs heq
    simp only [heq, List.length_cons] at hs
    split
    · rename_i h
      have := length_of_commandName h
      simp
      omega
    · simp
      omega
  · rename_i c cs _ _ heq
    simp only [heq, List.length_cons] at hs
    simp
    omega

theorem length_optional_le (s : Text) :
  ((optional s).1.getD []).length + (optional s).2.length ≤ s.length
  := by
  have hs := Text.length_skipBlanks_le s
  unfold optional
  split
  · rename_i cs heq
    simp only [heq, List.length_cons] at hs
    cases h : untilSquare 0 0 cs with
    | none =>
      simp
      omega
    | some p =>
      have := length_of_untilSquare h
      simp
      omega
  · simp

end Formula.Markup
