import Formula.Converter
import Formula.Node.Scaling
import Formula.Session.Basic
import Formula.Session.Wrapper

/-!
# Edits

The steps of an editing session.  A step that fails leaves the session as it is, except that
identifiers which were taken before a failure stay taken; only making nodes and reading
markup take any.
-/

namespace Formula.Session

/-! ### Making nodes -/

/-- Runs a building step on the supply of the session. -/
def build {α : Type} (s : Session) (b : Build α) : Except Fault α × Session :=
  let (result, supply) := b.runOn s.supply
  (result, { s with supply })

/-- Takes one identifier. -/
def takeId (s : Session) : Except Fault Nat × Session := s.build Build.fresh

/-- Makes the node of a blueprint, as a loose node.  The nodes that the blueprint names are
taken from the loose ones. -/
def create (s : Session) (blueprint : Blueprint) : Except Fault Node × Session :=
  match blueprint.parts.foldlM (fun s n => s.pick n.id) s with
  | .error fault => (.error fault, s)
  | .ok rest =>
    match s.build blueprint.build with
    | (.ok n, used) => (.ok n, { rest with supply := used.supply }.addLoose [n])
    | (.error fault, used) => (.error fault, used)

/-- Appends one text node for every character of a text to the siblings at an address. -/
def typeText (s : Session) (place : Place) (value : Text) : Except Fault Session := do
  let slot ← s.slot place
  match s.build (value.mapM fun c => Build.text [c]) with
  | (.ok letters, used) => return used.setSlot place (slot ++ letters)
  | (.error fault, _) => throw fault

/-! ### Conversion -/

/-- Reads markup as the new root.  The nodes of the old root become loose. -/
def read (t : SymbolTable) (config : Config) (s : Session) (markup : Text) :
    Except Fault Unit × Session :=
  match s.build (ofMarkup t config markup) with
  | (.ok ns, used) => (.ok (), { used with root := ns }.addLoose s.root)
  | (.error fault, used) => (.error fault, used)

/-- Writes the root and reads it again as the new root, and tells whether it changed. -/
def reread (t : SymbolTable) (config : Config) (s : Session) :
    Except Fault Bool × Session :=
  match s.build (roundTrip t config s.root) with
  | (.ok (ns, changed), used) => (.ok changed, { used with root := ns }.addLoose s.root)
  | (.error fault, used) => (.error fault, used)

/-! ### Moving nodes -/

/-- Puts a loose node into the siblings at an address, before the one at a position. -/
def insert (s : Session) (i : Nat) (place : Place) (position : Int) :
    Except Fault Session := do
  let slot ← s.slot place
  let n ← s.node i
  if position < 0 || slot.length < position then
    throw (.insertRange position slot.length)
  let rest ← s.pick i
  let slot ← rest.slot place
  return rest.setSlot place (slot.insertIdx position.toNat n)

/-- Takes the node at a position out of the siblings at an address. -/
def remove (s : Session) (place : Place) (position : Int) :
    Except Fault (Node × Session) := do
  let slot ← s.slot place
  let taken := if position < 0 then none else slot[position.toNat]?
  match taken with
  | some n =>
    return (n, (s.setSlot place (slot.eraseIdx position.toNat)).addLoose [n])
  | none => throw (.removeRange position slot.length)

/-! ### Changing nodes -/

/-- Applies a wrapper to a node. -/
def wrap (s : Session) (i : Nat) (kind : WrapperKind) (given : WrapperParam) :
    Except Fault Session := do
  let n ← s.node i
  let w ← n.wrapping.apply kind given
  return s.alter i (·.withWrapping w)

/-- Removes a wrapper from a node. -/
def unwrap (s : Session) (i : Nat) (kind : WrapperKind) : Except Fault Session := do
  let n ← s.node i
  return s.alter i (·.withWrapping (n.wrapping.erase kind))

/-- Replaces the construct and the wrapping of a node.  Children that the new construct does
not have become loose. -/
def revise (s : Session) (i : Nat) (f : Shape Node → Shape Node) (g : Wrapping → Wrapping) :
    Except Fault Session := do
  let n ← s.node i
  let shape := f n.shape
  let kept := ids shape.allChildren
  let freed := n.shape.allChildren.filter fun child => !kept.contains child.id
  return (s.alter i fun _ => .mk { n.label with wrapping := g n.wrapping } shape).addLoose freed

/-- Stores the depths of the brackets in the root. -/
def renestRoot (s : Session) : Session := { s with root := renest s.root }

/-- Scales the parentheses in the root. -/
def rescaleRoot (s : Session) : Session := { s with root := rescale s.root }

end Formula.Session
