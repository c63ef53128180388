import Formula.Node.Basic

/-!
# Scaling of literal parentheses

Parentheses that are plain text are enlarged when a fraction stands between them.  Among
siblings they match as brackets do; a parenthesis without a partner keeps its size.
-/

namespace Formula

/-- The factor of a parenthesis that keeps its size. -/
def plainScale : Scale := "1.0".toList

/-- The factor of a parenthesis that is enlarged. -/
def wideScale : Scale := "1.5".toList

namespace Node

/-- The value of a node that is text. -/
def textValue? (n : Node) : Option Text :=
  match n.shape with
  | .text v _ _ => some v
  | _ => none

/-- The node with the factor of its text set, if it is text. -/
def withTextScale (s : Scale) (n : Node) : Node :=
  match n.shape with
  | .text v fmt _ => n.withShape (.text v fmt (some s))
  | _ => n

/-- Whether the node is an opening parenthesis. -/
def isOpening (n : Node) : Bool := textValue? n == some ['(']

/-- Whether the node is a closing parenthesis. -/
def isClosing (n : Node) : Bool := textValue? n == some [')']

end Node

/-- For each of the siblings in turn, the position of its partner if it is a parenthesis that
closes another one; `stack` holds the positions of those that are open. -/
def partners (stack : List Nat) (position : Nat) : List Node → List (Nat × Nat)
  | [] => []
  | n :: ns =>
    if Node.isOpening n then partners (position :: stack) (position + 1) ns
    else if Node.isClosing n then
      match stack with
      | [] => partners [] (position + 1) ns
      | start :: stack => (start, position) :: partners stack (position + 1) ns
    else partners stack (position + 1) ns

/-- The pairs of matching parentheses that have a fraction between them. -/
def widePairs (ns : List Node) : List (Nat × Nat) :=
  (partners [] 0 ns).filter fun (start, stop) =>
    ((ns.take stop).drop (start + 1)).any (·.shape.isFraction)

/-- The siblings with the factors of their parentheses set. -/
def scaleSiblings (ns : List Node) : List Node :=
  let wide := (widePairs ns).flatMap fun (start, stop) => [start, stop]
  ns.zipIdx.map fun (n, i) =>
    if Node.isOpening n || Node.isClosing n then
      Node.withTextScale (if i ∈ wide then wideScale else plainScale) n
    else n

/-- The tree with the parentheses in all its slots scaled. -/
def Node.rescale : Node → Node :=
  Tree.para fun n s =>
    n.withShape (s.mapSlotsOr (fun slot => scaleSiblings (slot.map (·.2))) (List.map (·.1)))

/-- The siblings with all parentheses scaled. -/
def rescale (ns : List Node) : List Node := scaleSiblings (ns.map Node.rescale)

end Formula
