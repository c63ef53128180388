import Formula.Node.Basic

/-!
# Bracket nesting

The nesting depth of a bracket is the number of brackets around it.  `renest` stores the
depths, and `maxBracketDepth` computes the greatest of them from the form of the tree alone.
-/

namespace Formula

/-- The construct with its nesting depth set, if it is a bracket. -/
def Shape.withDepth {α : Type} (depth : Int) : Shape α → Shape α
  | .bracket l r c _ s p q => .bracket l r c depth s p q
  | s => s

/-- The number of brackets around the children of a construct that has `depth` of them around
itself. -/
def Shape.innerDepth {α : Type} (s : Shape α) (depth : Nat) : Nat :=
  if s.isBracket then depth + 1 else depth

/-- The tree with the depths of its brackets stored, where `depth` brackets are around it. -/
def Node.renest : Node → (depth : Nat) → Node :=
  Tree.para fun n s depth =>
    n.withShape <| (s.mapSlotsOr (List.map fun child => child.2 (s.innerDepth depth))
      (List.map (·.1))).withDepth depth

/-- The siblings with the depths of all brackets stored. -/
def renest (ns : List Node) : List Node := ns.map fun n => Node.renest n 0

/-- The depths of the brackets of a tree, where `depth` brackets are around it. -/
def Node.bracketDepths : Node → (depth : Nat) → List Nat :=
  Tree.fold fun _ s depth =>
    (if s.isBracket then [depth] else [])
      ++ s.children.flatMap (· (s.innerDepth depth))

/-- The greatest depth of a bracket, or -1 if there is none. -/
def maxBracketDepth (ns : List Node) : Int :=
  (ns.flatMap fun n => Node.bracketDepths n 0).foldl (fun (m : Int) (d : Nat) => max m d) (-1)

end Formula
