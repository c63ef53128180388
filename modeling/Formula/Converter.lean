import Formula.Form
import Formula.Node.Nesting
import Formula.Reading.Sequence
import Formula.Writing.Sequence

/-!
# Conversion between equations and markup

`ofMarkup` reads markup and `toMarkup` writes it; `roundTrip` does both.  The family of
derivative commands that a markup uses can be told from the markup alone.
-/

namespace Formula

/-- How conversions are done. -/
structure Config where
  /-- Whether the depths of brackets are stored after reading. -/
  storeNesting : Bool := true
  write : WriteConfig := {}
deriving DecidableEq, Repr

/-- The bracket sizing of a name. -/
def BracketSizing.ofName (given : Option Text) : Except Fault BracketSizing :=
  match given.bind fun s => Named.ofName? BracketSizing (String.ofList s) with
  | some sizing => .ok sizing
  | none => .error (.unknownSizing given)

/-- Reads markup as an equation. -/
def ofMarkup (t : SymbolTable) (config : Config) (markup : Text) : Build (List Node) := do
  let ns ← Reading.sequence t markup
  return if config.storeNesting then renest ns else ns

/-- Writes an equation and reads it again.  The second component tells whether the result is
not equivalent to the equation. -/
def roundTrip (t : SymbolTable) (config : Config) (ns : List Node) :
    Build (List Node × Bool) := do
  let markup ← liftExcept (toMarkup t config.write ns)
  let again ← ofMarkup t config markup
  return (again, !(← liftExcept (equivalent again ns)))
where
  /-- A computation that takes nothing from the supply. -/
  liftExcept {α : Type} (e : Except Fault α) : Build α :=
    match e with
    | .ok a => return a
    | .error fault => throw fault

/-! ### Families of derivative commands -/

/-- Whether one of the commands stands anywhere in the text. -/
def containsCommand (names : List Text) : Text → Bool
  | [] => false
  | c :: cs =>
    (c == '\\' && names.contains (cs.takeWhile Text.isLetter)) || containsCommand names cs

/-- Whether a markup has derivatives written with arguments (`true`), or else as fractions of
differentials (`false`); a markup without derivatives tells nothing. -/
def derivativeFamily? (markup : Text) : Option Bool :=
  if containsCommand (["dv", "pdv"].map String.toList) markup then some true
  else if containsCommand
      (["derivfrac", "derivdfrac", "derivlfrac", "derivldfrac"].map String.toList) markup then
    some false
  else none

end Formula
