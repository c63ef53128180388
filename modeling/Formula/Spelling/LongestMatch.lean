import Formula.Fault
import Formula.Spelling.Trie

/-!
# Longest match

Command names are recognised by longest match.  A spelling that ends in a letter matches
only where no letter follows, so that `\sin` is not found at the beginning of `\sinh`; a
shorter spelling is taken when a longer one is stopped by its boundary.
-/

namespace Formula

/-- A collection of spellings, prepared for matching. -/
structure Spellings where
  /-- The spellings as a set. -/
  trie : Trie
  /-- The length of the longest spelling. -/
  maxLength : Nat

namespace Spellings

/-- The collection of the given spellings. -/
def ofList (spellings : List Text) : Spellings where
  trie := .ofList spellings
  maxLength := spellings.foldl (fun n s => max n s.length) 0

/-- Whether a spelling may stand before `rest`: a letter does not follow a letter. -/
def boundary (spelling rest : Text) : Bool :=
  !((spelling.getLast?.any Text.isLetter) && Text.startsWithLetter rest)

/-- The longest spelling that the text begins with and that ends at a boundary, with the
text after it. -/
def longest? (s : Spellings) (text : Text) : Option (Text × Text) :=
  (s.trie.beginnings text).reverse.find? fun (spelling, rest) => boundary spelling rest

/-- The spellings that the text begins with, the shorter first.  No more of the text is looked
at than the longest spelling is long. -/
def candidates (s : Spellings) (text : Text) : List Text :=
  (s.trie.beginnings (text.take s.maxLength)).map (·.1)

/-- The longest spelling at a position of a text.  A position from which there is no text is a
fault, unless there is nothing to look for. -/
def longestAt (s : Spellings) (text : Text) (start : Int) : Except Fault (Option Text) :=
  if s.maxLength = 0 then .ok none
  else
    match text.fromPosition? start with
    | some here =>
      .ok ((s.candidates here).reverse.find? fun spelling =>
        boundary spelling (here.drop spelling.length))
    | none => .error (.noPosition start)

/-- A match is a nonempty beginning of the text. -/
theorem eq_append_of_longest? {s : Spellings} {text spelling rest : Text}
    (h : s.longest? text = some (spelling, rest)) :
  spelling ≠ [] ∧ text = spelling ++ rest
  := by
  have hmem := List.mem_of_find?_eq_some h
  rw [List.mem_reverse, Trie.mem_beginnings_iff] at hmem
  exact ⟨hmem.1, hmem.2.2⟩

/-- What follows a match is shorter than the text. -/
theorem length_lt_of_longest? {s : Spellings} {text spelling rest : Text}
    (h : s.longest? text = some (spelling, rest)) :
  rest.length < text.length
  := by
  obtain ⟨hne, rfl⟩ := eq_append_of_longest? h
  have := List.length_pos_iff.2 hne
  simp
  omega

end Spellings

end Formula
