/-!
# Text

A text is a list of code points, so that lengths and positions count code points.  This
file holds the few operations on texts that every other part of the library uses: cutting
a known beginning off, taking a run of letters, and repeating.
-/

namespace Formula

/-- A text is the list of its code points. -/
abbrev Text := List Char

namespace Text

/-- Command names are made of the letters `a` to `z` and `A` to `Z` only. -/
abbrev isLetter (c : Char) : Bool := c.isAlpha

/-- What follows `start` in a text that begins with it. -/
def after? (start : Text) : Text → Option Text
  | [] => if start.isEmpty then some [] else none
  | c :: cs =>
    match start with
    | [] => some (c :: cs)
    | d :: ds => if c = d then after? ds cs else none

@[simp]
theorem after?_nil (s : Text) :
  after? [] s = some s
  := by
  cases s <;> rfl

theorem after?_cons (d : Char) (ds : Text) (c : Char) (cs : Text) :
  after? (d :: ds) (c :: cs) = if c = d then after? ds cs else none
  := rfl

/-- A text begins with `start` exactly when something follows it. -/
theorem after?_eq_some_iff {start s rest : Text} :
  after? start s = some rest ↔ s = start ++ rest
  := by
  induction start generalizing s with
  | nil => simp [eq_comm]
  | cons d ds ih =>
    cases s with
    | nil => simp [after?]
    | cons c cs =>
      by_cases h : c = d
      · simp [after?_cons, h, ih]
      · simp [after?_cons, h]

/-- Whether the text begins with a letter. -/
def startsWithLetter : Text → Bool
  | [] => false
  | c :: _ => isLetter c

/-- Whether every code point is a letter, and there is one. -/
def isLetters (s : Text) : Bool := !s.isEmpty && s.all isLetter

/-- Whether `part` occurs anywhere in the text. -/
def containsText (part : Text) : Text → Bool
  | [] => part.isEmpty
  | c :: cs => (after? part (c :: cs)).isSome || containsText part cs

/-- The text from a position on.  A negative position counts from the end of the text, after which
the text begins again; there is no text from a position before that. -/
def fromPosition? (start : Int) (s : Text) : Option Text :=
  match start with
  | .ofNat n => some (s.drop n)
  | .negSucc n => if n < s.length then some (s.drop (s.length - (n + 1)) ++ s) else none

/-- The text without the code points that satisfy `p` at either end. -/
def trimBoth (p : Char → Bool) (s : Text) : Text :=
  ((s.dropWhile p).reverse.dropWhile p).reverse

/-- The text without the code points that satisfy `p` at its end. -/
def trimEnd (p : Char → Bool) (s : Text) : Text :=
  (s.reverse.dropWhile p).reverse

/-- The text without `ending`, when it ends so. -/
def beforeEnd? (ending s : Text) : Option Text :=
  (after? ending.reverse s.reverse).map List.reverse

/-- The texts joined with `separator` between neighbours. -/
def joinWith (separator : Text) : List Text → Text
  | [] => []
  | [s] => s
  | s :: t :: ts => s ++ separator ++ joinWith separator (t :: ts)

end Text

end Formula
