import Formula.Node.Tree

/-!
# Nodes

A node of an equation is a tree whose labels hold an identifier and the wrappers; an
equation is a list of sibling nodes.  A decoration that the formatting of a text stands for
already is not an outer wrapper.
-/

namespace Formula

/-- What a node has besides its construct: an identifier and its wrappers. -/
structure Label where
  id : Nat
  wrapping : Wrapping := {}
deriving DecidableEq, Repr

/-- A node of an equation. -/
abbrev Node := Tree Label

instance : Inhabited Node := ⟨.mk { id := 0 } (.text [] {} none)⟩

/-- The identifier of a node. -/
abbrev Tree.id (n : Node) : Nat := n.label.id

/-- The wrappers of a node. -/
abbrev Tree.wrapping (n : Node) : Wrapping := n.label.wrapping

/-- The node with other wrappers. -/
abbrev Tree.withWrapping (n : Node) (w : Wrapping) : Node :=
  n.withLabel { n.label with wrapping := w }

/-- A node without wrappers. -/
abbrev Node.plain (id : Nat) (shape : Shape Node) : Node := .mk { id } shape

/-- The wrappers that the formatting of a construct stands for, if it is text. -/
def attributeWrappers {α : Type} : Shape α → List Wrapper
  | .text _ fmt _ => fmt.wrappers
  | _ => []

/-- The wrappers of a construct in order of application, without those of the kinds that its
formatting stands for. -/
def outerWrappers {α : Type} (w : Wrapping) (s : Shape α) : List Wrapper :=
  let covered := (attributeWrappers s).map (·.1)
  (w.order.filter fun kind => !covered.contains kind).map fun kind => (kind, w.param kind)

end Formula
