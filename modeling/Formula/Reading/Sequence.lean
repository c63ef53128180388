import Formula.Reading.Derivative
import Formula.Reading.Formatting
import Formula.Reading.Fraction
import Formula.Reading.Grid
import Formula.Reading.Operator
import Formula.Reading.Structure

/-!
# Reading sequences

The readers of the single kinds of items are tried in a fixed order; a character that none
of them takes is text.  Reading never fails for the form of the markup.  What stands inside
an item is always shorter than the text the item is read from, which is why reading ends.
-/

namespace Formula

namespace Reading

/-- The readers in the order in which they are tried. -/
def readers : List Reader :=
  [style, derivative, fraction, root, environment, largeOperator, integral, function, escape,
    emphasis, wrapper, accent, symbol, script, bracket, spacing, group]

/-- Reads the item at the beginning of a text that begins with `c`, given how its insides are
read. -/
def step (t : SymbolTable) (nested : Nested) (c : Char) (cs : Text) : Build (Item × Text) :=
  (readers.findSome? fun reader => reader t nested (c :: cs)).getD (literal c cs)

/-- The nested readers on texts shorter than `n`; longer texts are left unread. -/
def below (n : Nat) (sequence : (s : Text) → s.length < n → Build (List Node))
    (spaced : (s : Text) → s.length < n → Build (List Node))
    (item : (s : Text) → s.length < n → Build (Item × Text)) : Nested where
  sequence s := if h : s.length < n then sequence s h else return []
  spaced s := if h : s.length < n then spaced s h else return []
  item s :=
    if h : s.length < n then do
      let (i, rest) ← item s h
      return ((← i.addTo []).reverse, rest)
    else return ([], s)

mutual

/-- Reads the item at the beginning of a text. -/
def item (t : SymbolTable) (s : Text) : Build (Item × Text) :=
  match s with
  | [] => return (.nodes [], [])
  | c :: cs =>
    step t
      (below (c :: cs).length
        (fun u h => have := h; items t false [] u) (fun u h => have := h; items t true [] u)
        (fun u h => have := h; item t u))
      c cs
termination_by 2 * s.length
decreasing_by all_goals simp_all only [List.length_cons]; omega

/-- Reads the items of a text one after the other.  The siblings read before are given with
the last one first.  Blanks between items are skipped, or kept as spaces. -/
def items (t : SymbolTable) (keepSpaces : Bool) (before : List Node) (s : Text) :
    Build (List Node) :=
  match s with
  | [] => return before.reverse
  | c :: cs =>
    if Text.isBlank c then
      if keepSpaces then do items t keepSpaces ((← Build.text [' ']) :: before) cs
      else items t keepSpaces before cs
    else do
      let (i, rest) ← item t (c :: cs)
      let siblings ← i.addTo before
      if rest.length < (c :: cs).length then items t keepSpaces siblings rest
      else return siblings.reverse
termination_by 2 * s.length + 1
decreasing_by all_goals simp only [List.length_cons] at *; omega

end

/-- Reads a whole text. -/
def sequence (t : SymbolTable) (s : Text) : Build (List Node) := items t false [] s

end Reading

end Formula
