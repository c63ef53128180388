import Formula.Build.Blueprint
import Formula.Node.Visit

/-!
# Sessions

A session holds an equation that is being edited, the root, and the nodes that were made or
taken out but are in no slot, the loose ones.  Nodes are addressed by their identifiers, and
slots by the node that they belong to and their name.
-/

namespace Formula

/-- An equation that is edited, with the nodes that are in no slot. -/
structure Session where
  root : List Node := []
  loose : List Node := []
  supply : Supply := {}

/-- The address of a list of siblings: the root, or a slot of a node. -/
inductive Place where
  | root
  | slot (owner : Nat) (name : Text)
deriving DecidableEq, Repr

/-- The slot of a construct whose name is written so. -/
def Shape.named? {α : Type} (s : Shape α) (name : Text) : Option (SlotName × List α) :=
  s.slots.find? fun (n, _) => n.text.toList = name

/-- The tree with `f` applied to the node of an identifier. -/
def Node.alter (i : Nat) (f : Node → Node) : Node → Node :=
  Tree.mapBottomUp fun n => if n.id = i then f n else n

namespace Session

/-- All nodes that are in no other node. -/
def tops (s : Session) : List Node := s.root ++ s.loose

/-- All nodes of the session. -/
def nodes (s : Session) : List Node := s.tops.flatMap Tree.all

/-- The node of an identifier. -/
def node (s : Session) (i : Nat) : Except Fault Node :=
  match s.nodes.find? (·.id == i) with
  | some n => .ok n
  | none => .error (.noNode i)

/-- The siblings at an address. -/
def slot (s : Session) : Place → Except Fault (List Node)
  | .root => .ok s.root
  | .slot owner name => do
    match (← s.node owner).shape.named? name with
    | some (_, nodes) => return nodes
    | none => throw (.noSlot name)

/-- The session with `f` applied to the node of an identifier. -/
def alter (s : Session) (i : Nat) (f : Node → Node) : Session :=
  { s with root := s.root.map (Node.alter i f), loose := s.loose.map (Node.alter i f) }

/-- The session with the siblings at an address replaced. -/
def setSlot (s : Session) (place : Place) (nodes : List Node) : Session :=
  match place with
  | .root => { s with root := nodes }
  | .slot owner name =>
    s.alter owner fun n =>
      match n.shape.named? name with
      | some (slot, _) => n.withShape (n.shape.setSlot slot nodes)
      | none => n

/-- The session with further loose nodes. -/
def addLoose (s : Session) (nodes : List Node) : Session :=
  { s with loose := s.loose ++ nodes }

/-- The session without one of its loose nodes. -/
def pick (s : Session) (i : Nat) : Except Fault Session :=
  if s.loose.any (·.id == i) then .ok { s with loose := s.loose.filter (·.id != i) }
  else .error (.notLoose i)

/-- The identifiers of siblings. -/
def ids (nodes : List Node) : List Nat := nodes.map (·.id)

end Session

end Formula
