import Formula.Document.Atom

/-!
# The order of sets

The members of a set are kept in slots, and come in the order of the slots.  The number of slots
is a power of two.  A number has a mark, which is where its slot is looked for first; when the
slots there are taken, the higher digits of the mark say where to look next.  Only sets of
numbers are kept so; any other set comes in the order of its declaration.
-/

namespace Formula.Slots

/-! ### Marks -/

/-- The mark of `n * 2 ^ exponent`.  Marks are counted modulo a number by which the power of two
with the exponent 61 counts as one, so that fractions have marks too. -/
def markOf (negative : Bool) (n : Nat) (exponent : Int) : Int :=
  let m : Nat := n * Nat.pow 2 (exponent % 61).toNat % (Nat.pow 2 61 - 1)
  if negative then (if m = 1 then -2 else -m) else m

/-- The mark of a number. -/
def mark? : Atom → Option Int
  | .bool b => some (if b then 1 else 0)
  | .integer n => some (markOf (n < 0) n.natAbs 0)
  | .number (.finite negative b) => some (markOf negative b.significand b.exponent)
  | .number (.infinite negative) => some (if negative then -314159 else 314159)
  | _ => none

/-! ### Slots -/

/-- The number of slots for so many members. -/
def size (members : Nat) : Nat :=
  if members < 5 then 8 else Nat.pow 2 ((2 * members).log2 + 1)

/-- The slots that are looked at from one on. -/
def row (size i : Nat) : List Nat :=
  if i + 9 < size then (List.range 10).map (i + ·) else [i]

/-- The free slot that is found first from slot `i` on, where `digits` are those of the mark that
are still to be used. -/
def free (size : Nat) (taken : List Nat) : (fuel : Nat) → (i digits : Nat) → Nat
  | 0, i, _ => i
  | fuel + 1, i, digits =>
    match (row size i).find? fun j => !taken.contains j with
    | some j => j
    | none => free size taken fuel ((5 * i + 1 + digits / 32) % size) (digits / 32)

/-- The members after one more, each with its slot. -/
def put (size : Nat) (placed : List (Nat × Atom)) (mark : Int) (a : Atom) : List (Nat × Atom) :=
  let digits := (mark % (Nat.pow 2 64 : Nat)).toNat
  (free size (placed.map (·.1)) (size + 64) (digits % size) digits, a) :: placed

/-- The members of a set in the order of their slots. -/
def arrange (members : List Atom) : List Atom :=
  match members.mapM mark? with
  | none => members
  | some marks =>
    let placed := (marks.zip members).foldl
      (fun placed (mark, a) => put (size members.length) placed mark a) []
    (placed.mergeSort fun x y => x.1 ≤ y.1).map (·.2)

end Formula.Slots
