import Formula.Document.Bytes
import Formula.Document.Moment
import Formula.Document.Number

/-!
# Single values

The values of data files that have no parts: nothing, truth values, numbers, dates and times,
texts and bytes.
-/

namespace Formula

/-- A value that has no parts. -/
inductive Atom where
  | null
  | bool (b : Bool)
  | integer (n : Int)
  | number (x : Number)
  | date (d : Date)
  | moment (m : Moment)
  | text (s : Text)
  | bytes (bs : Bytes)
deriving DecidableEq

namespace Atom

/-- Whether a value counts as true: nothing, zeros and everything empty do not. -/
def holds : Atom → Bool
  | .null => false
  | .bool b => b
  | .integer n => n ≠ 0
  | .number x => !x.isZero
  | .date _ => true
  | .moment _ => true
  | .text s => !s.isEmpty
  | .bytes bs => !bs.isEmpty

/-- The integer that a value counts as when keys are compared. -/
def whole? : Atom → Option Int
  | .bool b => some (if b then 1 else 0)
  | .integer n => some n
  | .number x => x.whole?
  | _ => none

/-- Whether two values are the same key.  Numbers are the same key if they are equal, and a truth
value is the same key as zero or one. -/
def isSame (a b : Atom) : Bool :=
  match a, b with
  | .moment m, .moment n => m.isSame n
  | a, b => a = b || (a.whole?.isSome && a.whole? = b.whole?)

theorem isSame_text_iff {a : Atom} {s : Text} :
  a.isSame (.text s) = true ↔ a = .text s
  := by
  cases a <;> simp +contextual [isSame, whole?, Option.isSome_iff_ne_none]

theorem text_isSame_iff {a : Atom} {s : Text} :
  (text s).isSame a = true ↔ a = .text s
  := by
  cases a <;> simp [isSame, whole?, eq_comm]

/-- The value as it stands inside other values, where texts are quoted.  A numeral that is too
long is not written. -/
def writeInner : Atom → Option Text
  | .null => some "None".toList
  | .bool b => some (if b then "True".toList else "False".toList)
  | .integer n => if Numeral.isWritable n then some (Numeral.write n) else none
  | .number x => some x.write
  | .date d => some (call "datetime.date" (d.parts.map fun (n : Nat) => Numeral.write n))
  | .moment m =>
    let clock := m.ahead.toList.map fun a => "tzinfo=".toList ++ writeClock a
    some (call "datetime.datetime" ((m.parts.map fun (n : Nat) => Numeral.write n) ++ clock))
  | .text s => some (Text.quoted s)
  | .bytes bs => some (Bytes.quoted bs)
where
  /-- A name with values in parentheses. -/
  call (name : String) (values : List Text) : Text :=
    name.toList ++ ['('] ++ Text.joinWith ", ".toList values ++ [')']
  /-- A number with its name, unless it is zero. -/
  named (name : String) (n : Int) : List Text :=
    if n = 0 then [] else [name.toList ++ ['='] ++ Numeral.write n]
  /-- A clock that is ahead of the common one by so many minutes. -/
  writeClock (a : Int) : Text :=
    let (days, seconds) := Moment.daysAndSeconds a
    if a = 0 then "datetime.timezone.utc".toList
    else
      call "datetime.timezone"
        [call "datetime.timedelta" (named "days" days ++ named "seconds" seconds)]

/-- The value as a text: a text is itself, and other values are written out. -/
def write : Atom → Option Text
  | .text s => some s
  | .date d => some d.write
  | .moment m => some m.write
  | a => a.writeInner

end Atom

end Formula
