import Formula.Markup.Group
import Formula.Command.Delimiter

/-!
# Sized brackets

The content of a sized bracket ends at the closing size command that belongs to it; further
size commands in between nest.
-/

namespace Formula.Markup

/-- The size command that the text begins with: whether it opens a bracket, and what
follows. -/
def sizeCommand? : Text → Option (Bool × Text)
  | '\\' :: cs =>
    let name := cs.takeWhile Text.isLetter
    if Delimiter.sizeNames.any (·.1 = name) then some (true, cs.dropWhile Text.isLetter)
    else if Delimiter.sizeNames.any (·.2 = name) then some (false, cs.dropWhile Text.isLetter)
    else none
  | _ => none

/-- The text up to the size command that closes the bracket it stands in, where `depth`
further brackets are open, and what follows that command. -/
def untilClosing : (depth : Nat) → Text → Option (Text × Text)
  | _, [] => none
  | depth, c :: cs =>
    match sizeCommand? (c :: cs), depth with
    | some (true, _), depth => (untilClosing (depth + 1) cs).map (prepend [c])
    | some (false, rest), 0 => some ([], rest)
    | some (false, _), depth + 1 => (untilClosing depth cs).map (prepend [c])
    | none, depth => (untilClosing depth cs).map (prepend [c])

/-- The glyph of the delimiter after a size command, and what follows.  A delimiter that is
missing, or that would be a brace or an unknown command, is invisible. -/
def delimiter (s : Text) : Text × Text :=
  match Text.skipBlanks s with
  | [] => (['.'], [])
  | c :: cs =>
    match Delimiter.table.longest? (c :: cs) with
    | some (_, glyph, rest) => (glyph, rest)
    | none => if c ∈ ['\\', '{', '}'] then (['.'], c :: cs) else ([c], cs)

/-! ### Lengths -/

theorem length_of_sizeCommand? {s rest : Text} {opening : Bool}
    (h : sizeCommand? s = some (opening, rest)) :
  rest.length < s.length
  := by
  unfold sizeCommand? at h
  split at h
  · rename_i cs
    have hle : (cs.dropWhile Text.isLetter).length ≤ cs.length :=
      (List.dropWhile_sublist _).length_le
    simp only [List.length_cons]
    grind
  · simp at h

theorem length_of_untilClosing {depth : Nat} {s a r : Text}
    (h : untilClosing depth s = some (a, r)) :
  a.length + r.length < s.length
  := by
  fun_induction untilClosing depth s generalizing a r
  case case1 => simp at h
  case case3 rest hrest =>
    obtain ⟨rfl, rfl⟩ := Prod.mk.inj (Option.some.inj h)
    have := length_of_sizeCommand? hrest
    simpa using this
  all_goals
    simp only [map_prepend_eq_some_iff] at h
    grind

end Formula.Markup
