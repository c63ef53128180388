import Formula.Document.Basic
import Formula.Document.Yaml.Kind
import Formula.Document.Yaml.Mark

/-!
# Values of YAML scalars

The value of a scalar follows from its kind and its text.  A text need not have the form of its
kind, since a tag may say the kind; what is read is then wider than the forms.
-/

namespace Formula.Yaml

/-- The truth value that a word stands for. -/
def truth? (word : Text) : Option Bool :=
  if ["yes", "true", "on"].contains (String.ofList word) then some true
  else if ["no", "false", "off"].contains (String.ofList word) then some false
  else none

/-! ### Numbers -/

/-- The sign of a number without its low lines, and what follows. -/
def signed (s : Text) : Except Flaw (Bool × Text) :=
  match s.filter (· ≠ '_') with
  | [] => .error .noDigits
  | s => .ok (Numeral.sign s)

/-- The integer of a text without low lines and without its sign.  Groups between colons count
sixties. -/
def magnitude? (s : Text) : Option Int :=
  match s with
  | '0' :: 'b' :: digits => Numeral.integer? 2 digits
  | '0' :: 'x' :: digits => Numeral.integer? 16 digits
  | '0' :: _ => Numeral.integer? 8 s
  | s => (s.splitOn ':').foldlM (fun n group => (Numeral.integer? 10 group).map (60 * n + ·)) 0

/-- The integer of a text. -/
def integer (s : Text) : Except Flaw Int := do
  let (negative, unsigned) ← signed s
  if unsigned.isEmpty then throw .noDigits
  let n ← readable (magnitude? unsigned)
  return if negative then -n else n

/-- The sum of groups, the last one first, of which each counts sixty times as much as the one
before it; the first counts `unit`.  Every product and every sum is rounded. -/
def addGroups (sum : Number) (unit : Nat) : List Number → Except Flaw Number
  | [] => .ok sum
  | group :: groups =>
    match Decimal.nearest? unit 1 with
    | some factor => addGroups (sum.add (group.scale factor)) (60 * unit) groups
    | none => .error .tooGreat

/-- The number of a text. -/
def number (s : Text) : Except Flaw Number := do
  let (negative, unsigned) ← signed (s.map Char.toLower)
  let x ←
    if unsigned = ".inf".toList then pure (.infinite false)
    else if unsigned = ".nan".toList then pure .undefined
    else if unsigned.contains ':' then do
      let groups ← readable ((unsigned.splitOn ':').mapM Numeral.number?)
      addGroups (.zero false) 1 groups.reverse
    else readable (Numeral.number? unsigned)
  return if negative then x.negate else x

/-! ### Dates and times -/

/-- The number that ASCII digits write. -/
def natural (digits : Text) : Nat := Numeral.ofDigits (Numeral.leadingDigits digits)

/-- The date or the moment of a stamp, if there is one.  Of a fraction of a second six digits
count. -/
def Stamp.value? (stamp : Stamp) : Option Atom :=
  let date : Date := ⟨natural stamp.year, natural stamp.month, natural stamp.day⟩
  match stamp.time with
  | none => if date.isValid then some (.date date) else none
  | some (hour, minute, second, fraction) =>
    let ahead := stamp.zone.map fun (behind, hours, minutes) =>
      let a : Int := natural hours * 60 + natural minutes
      if behind then -a else a
    let moment : Moment :=
      { date, hour := natural hour, minute := natural minute, second := natural second
        microsecond := natural (fraction.take 6) * Nat.pow 10 (6 - (fraction.take 6).length), ahead }
    if moment.isValid then some (.moment moment) else none

/-! ### Scalars -/

/-- The value of a scalar of a kind. -/
def literal (kind : Kind) (s : Text) : Except Flaw Atom :=
  match kind with
  | .null => .ok .null
  | .bool => (readable (truth? (s.map Char.toLower))).map .bool
  | .int => (integer s).map .integer
  | .float => (number s).map .number
  | .timestamp => readable ((Stamp.read? (withoutLastBreak s)).bind Stamp.value?)
  | .binary => (readable (Bytes.decode? s)).map .bytes
  | .str => .ok (.text s)
  | _ => .error .unreadable

end Formula.Yaml
