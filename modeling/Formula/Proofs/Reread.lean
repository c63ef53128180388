import Formula.Form
import Formula.Proofs.Decoration
import Formula.Proofs.Derivative

/-!
# Rereading

`Node.reread` says what a node is read as after it is written: a text as its characters one
by one, with its attributes as wrappers, and a construct as a construct of the same kind.
An order that is written as a plain numeral is read as a number.
-/

namespace Formula

open Markup Writing

/-! ### Plain text -/

namespace Node

/-- The wrappers that are written around a node. -/
def outer (n : Node) : List Wrapper := outerWrappers n.wrapping n.shape

/-- The text of a node of which the markup is that text and nothing around it. -/
def plainText? (n : Node) : Option Text :=
  match n.shape with
  | .text v f _ => if n.outer = [] ∧ (v = [] ∨ f = {}) then some v else none
  | _ => none

end Node

/-- The text of siblings of which the markup is that text and nothing around it. -/
def plainText? : List Node → Option Text
  | [] => some []
  | n :: ns => do return (← Node.plainText? n) ++ (← plainText? ns)

theorem plainText?_cons_eq_some {n : Node} {ns : List Node} {w : Text}
    (h : plainText? (n :: ns) = some w) :
  ∃ v u, Node.plainText? n = some v ∧ plainText? ns = some u ∧ w = v ++ u
  := by
  simp only [plainText?, Option.bind_eq_bind, Option.pure_def, Option.bind_eq_some_iff,
    Option.some.injEq] at h
  obtain ⟨v, hv, u, hu, rfl⟩ := h
  exact ⟨v, u, hv, hu, rfl⟩

/-- The numeral that an expression is written as, if it is written as one. -/
def numeral? (ns : List Node) : Option Text := (plainText? ns).filter Numeral.isPlain

/-! ### What is read -/

/-- The characters of a text as they are read, with its attributes around them. -/
def textReread (v : Text) (f : TextFormat) : List Node :=
  v.map fun c => Node.rewrap (fun w => (attributeCommandsOf f).foldl Wrapping.reread w)
    (charWith { bold := f.bold, italic := f.italic } c)

section Pass

variable {α β : Type} (node : α → Node) (f : α → List Node)

/-- The order that an order is read as, given what its nodes are read as. -/
def Order.reread : Order α → Order Node
  | .number n => .number n
  | .sequence s =>
    match numeral? (s.map node) with
    | some digits => .number (Nat.ofDigitChars 10 digits 0 : Nat)
    | none => .sequence (s.flatMap f)

/-- The construct that a construct other than text is read as, given what its nodes are read
as. -/
def Shape.renewed (s : Shape α) : Shape Node :=
  match s with
  | .derivative o l p m a b => .derivative (o.reread node f) l p m (a.flatMap f) (b.flatMap f)
  | s => s.essential.mapSlots (List.flatMap f)

/-- What a construct is read as, given what its nodes are read as. -/
def Shape.reread (s : Shape α) : List Node :=
  match s with
  | .text v fmt _ => textReread v fmt
  | s => [.plain 0 (s.renewed node f)]

variable {node f} (g : β → α)

theorem Order.reread_map (o : Order β) :
  (Shape.mapSlotsOr.order (List.map g) o).reread node f = o.reread (node ∘ g) (f ∘ g)
  := by
  cases o with
  | number n => rfl
  | sequence s =>
    simp [Order.reread, Shape.mapSlotsOr.order, List.flatMap_map, Function.comp_def]

theorem Grid.cell_map (c : Grid β) (i j : Nat) :
  (Shape.mapSlotsOr.grid (List.map g) (List.map g) c).cell i j = (c.cell i j).map g
  := by
  obtain ⟨rows, cols, cells⟩ := c
  simp only [Grid.cell, Shape.mapSlotsOr.grid, ite_self]
  induction cells with
  | nil => rfl
  | cons entry rest ih =>
    obtain ⟨k, s⟩ := entry
    simp only [List.map_cons, List.lookup_cons]
    split
    · rfl
    · apply ih

theorem Grid.visible_map (c : Grid β) :
  (Shape.mapSlotsOr.grid (List.map g) (List.map g) c).visible
    = Shape.mapSlotsOr.grid (List.map g) (List.map g) c.visible
  := by
  have hcoordinates : (Shape.mapSlotsOr.grid (List.map g) (List.map g) c).coordinates
      = c.coordinates := rfl
  simp only [Grid.visible, Grid.cell_map, hcoordinates]
  simp [Shape.mapSlotsOr.grid]

theorem Grid.mapSlots_visible_map (c : Grid β) :
  Shape.mapSlotsOr.grid (List.flatMap f) (List.flatMap f)
      (Shape.mapSlotsOr.grid (List.map g) (List.map g) c).visible
    = Shape.mapSlotsOr.grid (List.flatMap (f ∘ g)) (List.flatMap (f ∘ g)) c.visible
  := by
  rw [Grid.visible_map]
  simp [Shape.mapSlotsOr.grid, List.flatMap_map, Function.comp_def]

theorem Shape.reread_map (s : Shape β) :
  (s.map g).reread node f = s.reread (node ∘ g) (f ∘ g)
  := by
  have hmap : ∀ l : List β, (l.map g).flatMap f = l.flatMap (f ∘ g) := by
    intro l
    simp [List.flatMap_map, Function.comp_def]
  have hslots : List.flatMap f ∘ List.map g = List.flatMap (f ∘ g) := by
    funext l
    apply hmap
  cases s with
  | matrix t c =>
    simp [reread, renewed, map, mapSlots, mapSlotsOr, essential, Grid.mapSlots_visible_map]
  | stack c =>
    simp [reread, renewed, map, mapSlots, mapSlotsOr, essential, Grid.mapSlots_visible_map]
  | cases c =>
    simp [reread, renewed, map, mapSlots, mapSlotsOr, essential, Grid.mapSlots_visible_map]
  | derivative o =>
    simp [reread, renewed, map, mapSlots, mapSlotsOr, Order.reread_map, hmap]
  | _ => simp [reread, renewed, map, mapSlots, mapSlotsOr, essential, hmap, hslots]

end Pass

namespace Node

/-- The node inside of the wrappers that are read around it. -/
def enwrap (ws : List Wrapper) (n : Node) : Node :=
  rewrap (fun w => ws.foldl Wrapping.reread w) n

/-- What a node is read as after it is written. -/
def reread : Node → List Node :=
  Tree.para fun n s => (s.reread Prod.fst Prod.snd).map (enwrap (outer n))

theorem reread_mk (l : Label) (s : Shape Node) :
  reread (.mk l s) = (s.reread id reread).map (enwrap (outerWrappers l.wrapping s))
  := by
  rw [reread, Tree.para_mk, Shape.reread_map]
  rfl

/-- What a node is read as inside of its wrappers. -/
def inside (n : Node) : List Node := n.shape.reread id reread

theorem reread_eq (n : Node) :
  reread n = (inside n).map (enwrap (outer n))
  := by
  cases n
  apply reread_mk

theorem enwrap_nil (n : Node) :
  enwrap [] n = n
  := by
  cases n
  rfl

/-- A node without wrappers is read as what stands inside of them. -/
theorem reread_of_outer {n : Node} (h : n.outer = []) :
  reread n = inside n
  := by
  rw [reread_eq, h, List.map_congr_left (g := id) fun n _ => enwrap_nil n, List.map_id]

end Node

/-! ### Plain text is read as its characters -/

theorem Node.reread_of_plainText? {n : Node} {w : Text} (h : Node.plainText? n = some w) :
  Node.reread n = w.map charNode
  := by
  obtain ⟨l, s⟩ := n
  cases s with
  | text v f scale =>
    simp only [Node.plainText?, Tree.shape, Option.ite_none_right_eq_some, Option.some.injEq]
      at h
    obtain ⟨⟨houter, hplain⟩, rfl⟩ := h
    have hinside : Node.inside (.mk l (.text v f scale)) = v.map charNode := by
      rcases hplain with rfl | rfl
      · rfl
      · rfl
    rw [Node.reread_of_outer houter, hinside]
  | _ => contradiction

/-- Plain text is read as its characters. -/
theorem reread_of_plainText? {ns : List Node} {w : Text} (h : plainText? ns = some w) :
  ns.flatMap Node.reread = w.map charNode
  := by
  induction ns generalizing w with
  | nil =>
    obtain rfl := Option.some.inj h
    rfl
  | cons n ns ih =>
    obtain ⟨v, u, hv, hu, rfl⟩ := plainText?_cons_eq_some h
    rw [List.flatMap_cons, Node.reread_of_plainText? hv, ih hu, List.map_append]

theorem charNode_injective : Function.Injective charNode
  := by
  intro c d h
  simpa [charNode, Node.plain] using h

end Formula
