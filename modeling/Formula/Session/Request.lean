import Formula.Session.Edit

/-!
# Requests

The steps that a user of a session can ask for: making a node, reading markup, and the four
edits.  A request that is refused leaves the equation as it is.  A run starts from the empty
session; a node that goes into a new node must be a loose one.
-/

namespace Formula

/-- A step that is asked for. -/
inductive Request where
  | create (blueprint : Blueprint)
  | read (markup : Text)
  | insert (node : Nat) (place : Place) (position : Int)
  | remove (place : Place) (position : Int)
  | wrap (node : Nat) (kind : WrapperKind) (given : WrapperParam)
  | unwrap (node : Nat) (kind : WrapperKind)

/-- Whether a grid without rows or without columns is wanted. -/
def Blueprint.isEmptyGrid : Blueprint → Bool
  | .matrix rows cols _ => rows < 1 || cols < 1
  | .stack rows cols => rows < 1 || cols < 1
  | .cases rows cols => rows < 1 || cols < 1
  | _ => false

/-- Whether a grid without rows or without columns is asked for. -/
def Request.isEmptyGrid : Request → Bool
  | .create blueprint => blueprint.isEmptyGrid
  | _ => false

namespace Session

/-- The session after an edit, which is the one before where the edit is refused. -/
def after (s : Session) : Except Fault Session → Except Fault Unit × Session
  | .ok s' => (.ok (), s')
  | .error fault => (.error fault, s)

/-- Carries out a request. -/
def perform (t : SymbolTable) (config : Config) (s : Session) :
    Request → Except Fault Unit × Session
  | .create blueprint =>
    let (result, s') := s.create blueprint
    (result.map fun _ => (), s')
  | .read markup => s.read t config markup
  | .insert i place position => s.after (s.insert i place position)
  | .remove place position => s.after ((s.remove place position).map (·.2))
  | .wrap i kind given => s.after (s.wrap i kind given)
  | .unwrap i kind => s.after (s.unwrap i kind)

/-- Whether the nodes that go into a new node are nodes of the session that are in no slot. -/
def Admits (s : Session) : Request → Prop
  | .create blueprint => ∀ n ∈ blueprint.parts, n ∈ s.loose
  | _ => True

/-- A session that is left after some requests. -/
inductive Arises (t : SymbolTable) (config : Config) : Session → Prop
  | start : Arises t config {}
  | step {s : Session} (r : Request) : Arises t config s → s.Admits r →
    Arises t config (s.perform t config r).2

end Session

end Formula
