import Formula.Spelling.CommandTable

/-!
# Escapes and spacing

The characters that have a meaning in markup and how they are written as text, the escaped
spellings that are read, and the spacing commands that are dropped.
-/

namespace Formula.Escape

/-- The escaped spelling of a character that has one. -/
def spelling? : Char → Option Text
  | '{' => some "\\\x7b".toList
  | '}' => some "\\\x7d".toList
  | '#' => some "\\#".toList
  | '&' => some "\\text\x7b＆\x7d".toList
  | '%' => some "\\%".toList
  | '~' => some "\\textasciitilde\x7b\x7d".toList
  | '^' => some "\x7b\\text\x7b^\x7d\x7d".toList
  | '_' => some "\x7b\\_\x7d".toList
  | _ => none

/-- All escaped spellings that are read, with the characters that they stand for. -/
def table : CommandTable Char := .ofList
  [("\\\x7b", '{'), ("\\\x7d", '}'), ("\\#", '#'), ("\\%", '%'), ("\\&", '&'),
    ("\\text\x7b＆\x7d", '&'), ("\\textasciitilde\x7b\x7d", '~'), ("\\textasciitilde", '~'),
    ("\x7b\\text\x7b^\x7d\x7d", '^'), ("\x7b\\_\x7d", '_'), ("\\_", '_')]

/-- The spacing commands that are dropped. -/
def ignored : Spellings :=
  .ofList (["\\,", "\\;", "\\:", "\\!", "\\quad", "\\qquad"].map String.toList)

/-- Every escaped spelling is read as its character. -/
theorem lookup_spelling? {c : Char} {s : Text} (h : spelling? c = some s) :
  table.lookup s = some c
  := by
  unfold spelling? at h
  split at h <;> simp only [Option.some.injEq, reduceCtorEq] at h <;> subst h <;> decide

end Formula.Escape
