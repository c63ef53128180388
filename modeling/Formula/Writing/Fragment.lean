import Formula.Text.Blank

/-!
# Fragments of markup

How pieces of markup are put together: groups and optional arguments, the trimming of
spaces, and the joining of siblings so that no command name runs into a letter.
-/

namespace Formula

namespace Writing

/-- The spaces at the end of a text dropped, given the text backwards; a space that belongs to
a control space stays. -/
def trimEndReversed : Text → Text
  | ' ' :: '\\' :: cs => ' ' :: '\\' :: cs
  | ' ' :: cs => trimEndReversed cs
  | s => s

/-- The markup without the spaces around it; a control space at the end stays whole. -/
def trimMarkup (s : Text) : Text :=
  (trimEndReversed (s.dropWhile (· = ' ')).reverse).reverse

/-- The text between braces. -/
def braced (s : Text) : Text := ['{'] ++ s ++ ['}']

/-- A body as a group; a blank one becomes the empty group. -/
def group (body : Text) : Text :=
  if Text.isAllBlank body then "\x7b \x7d".toList else braced body

/-- A body as the content of an optional argument: an empty one becomes a space, and one that
holds square brackets is put between braces. -/
def optional (body : Text) : Text :=
  if body.isEmpty then [' ']
  else if body.contains '[' || body.contains ']' then braced body
  else body

/-- A body, or a space in its place if it is empty. -/
def orSpace (body : Text) : Text := if body.isEmpty then [' '] else body

/-- Whether a text that is given backwards ends with a command name. -/
def endsInCommandReversed (s : Text) : Bool :=
  let letters := s.takeWhile Text.isLetter
  !letters.isEmpty && (s.dropWhile Text.isLetter).head? == some '\\'

/-- Whether a text ends with a command name, or with one and a line feed. -/
def endsInCommand (s : Text) : Bool :=
  match s.reverse with
  | '\n' :: cs => endsInCommandReversed cs
  | cs => endsInCommandReversed cs

/-- The parts one after the other, with `separator` where a letter would follow a command
name. -/
def join (separator : Text) (parts : List Text) : Text :=
  parts.foldl (fun joined part =>
    if Text.startsWithLetter part && endsInCommand joined then joined ++ separator ++ part
    else joined ++ part) []

/-- The text with every run of spaces cut down to one space. -/
def collapseSpaces : Text → Text
  | ' ' :: ' ' :: cs => collapseSpaces (' ' :: cs)
  | c :: cs => c :: collapseSpaces cs
  | [] => []

end Writing

end Formula
