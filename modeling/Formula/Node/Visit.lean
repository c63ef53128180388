import Formula.Node.Basic

/-!
# Visits

What a walk over an equation meets: every node with its depth and its slots, each before
its children, and the length of every list of siblings, after what is below it.
-/

namespace Formula

/-- A node as a walk meets it. -/
structure Visit where
  id : Nat
  kind : String
  depth : Nat
  slots : List SlotName
deriving DecidableEq, Repr

namespace Node

/-- The visits of a node at a depth and of what is below it. -/
def visits : Node → Nat → List Visit :=
  Tree.fold fun l s depth =>
    { id := l.id, kind := s.kindName, depth, slots := s.slots.map (·.1) }
      :: s.children.flatMap (· (depth + 1))

/-- The depths and lengths of the lists of siblings below a node at a depth. -/
def sequencesBelow : Node → Nat → List (Nat × Nat) :=
  Tree.fold fun _ s depth =>
    s.slots.flatMap fun (_, slot) => slot.flatMap (· (depth + 1)) ++ [(depth + 1, slot.length)]

end Node

/-- The visits of siblings at the top. -/
def visits (ns : List Node) : List Visit := ns.flatMap fun n => Node.visits n 0

/-- The depths and lengths of all lists of siblings, the top one last. -/
def sequences (ns : List Node) : List (Nat × Nat) :=
  ns.flatMap (fun n => Node.sequencesBelow n 0) ++ [(0, ns.length)]

/-- All nodes that a walk over siblings meets, each before its children. -/
def walk (ns : List Node) : List Node := ns.flatMap Tree.walk

/-- The first node of an identifier that a walk meets. -/
def findById (ns : List Node) (i : Nat) : Option Node := (walk ns).find? (·.id == i)

end Formula
