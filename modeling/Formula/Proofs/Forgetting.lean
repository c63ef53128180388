import Formula.Proofs.Appearance

/-!
# What a pass may change

A pass over an equation changes one thing of some nodes and leaves the rest.  That is said by an
equation between what is left of the nodes before and after it when this thing is forgotten.
A cell that has no entry counts as an empty one, and the cells outside the rectangle of a grid
are compared as they are.
-/

namespace Formula

universe u v

variable {α : Type u} {β : Type v}

/-! ### Missing cells -/

/-- The grid with an empty cell at every coordinate inside the rectangle that has no entry. -/
def Grid.complete (g : Grid α) : Grid α :=
  let missing := g.coordinates.filter fun at_ => !(g.cells.lookup at_).isSome
  { g with cells := g.cells ++ missing.map fun at_ => (at_, []) }

/-- The construct with an empty cell at every coordinate inside its rectangle that has no entry,
if it has a grid. -/
def Shape.complete (s : Shape α) : Shape α := s.mapGrid Grid.complete

/-- The cells inside the rectangle are the same. -/
theorem Grid.cell_complete (g : Grid α) (row col : Nat) :
  g.complete.cell row col = g.cell row col
  := by
  have hmissing : ∀ coordinates : List (Nat × Nat),
      ((coordinates.map fun at_ => (at_, ([] : List α))).lookup (row, col)).getD [] = [] := by
    intro coordinates
    induction coordinates with
    | nil => rfl
    | cons at_ rest ih =>
      rw [List.map_cons, List.lookup_cons]
      split
      · rfl
      · apply ih
  rw [cell, complete, List.lookup_append, cell]
  cases g.cells.lookup (row, col) with
  | some content => rfl
  | none => apply hmissing

theorem Shape.slots_complete (s : Shape α) :
  s.complete.slots = s.slots
  := by
  have hgrid : ∀ g : Grid α, slots.ofGrid g.complete = slots.ofGrid g := by
    intro g
    simp only [slots.ofGrid, Grid.cell_complete]
    rfl
  cases s with
  | matrix t g => apply hgrid
  | stack g => apply hgrid
  | cases g => apply hgrid
  | _ => rfl

/-- A pass over the cells keeps which of them have entries. -/
theorem Grid.isSome_lookup_mapSlotsOr (f g : List α → List β) (c : Grid α) (at_ : Nat × Nat) :
  ((Shape.mapSlotsOr.grid f g c).cells.lookup at_).isSome = (c.cells.lookup at_).isSome
  := by
  rw [Shape.mapSlotsOr.grid]
  dsimp only
  generalize c.cells = cells
  induction cells with
  | nil => rfl
  | cons entry cells ih =>
    rw [List.map_cons, List.lookup_cons, List.lookup_cons]
    split
    · rfl
    · apply ih

/-- Two changes of the slots one after the other. -/
theorem Shape.mapSlotsOr_mapSlotsOr {γ : Type*} (f g : List α → List β) (f' g' : List β → List γ)
    (s : Shape α) :
  (s.mapSlotsOr f g).mapSlotsOr f' g' = s.mapSlotsOr (f' ∘ f) (g' ∘ g)
  := by
  have hgrid : ∀ c : Grid α,
      mapSlotsOr.grid f' g' (mapSlotsOr.grid f g c) = mapSlotsOr.grid (f' ∘ f) (g' ∘ g) c := by
    intro c
    simp only [mapSlotsOr.grid, List.map_map, Grid.mk.injEq, true_and]
    apply List.map_congr_left
    intro entry _
    change (entry.1, if c.inside entry.1 = true
      then f' (if c.inside entry.1 = true then f entry.2 else g entry.2)
      else g' (if c.inside entry.1 = true then f entry.2 else g entry.2)) = _
    split <;> rfl
  cases s with
  | derivative o => cases o <;> simp [mapSlotsOr, mapSlotsOr.order]
  | _ => simp [mapSlotsOr, hgrid]

/-! ### Forgetting -/

/-- What is left of a node when something of its construct is forgotten, which `f` is to say, and
the same of every node that a walk meets below it. -/
def Node.forget (f : Shape Node → Shape Node) : Node → Node :=
  Tree.para fun n s =>
    n.withShape (f (s.mapSlotsOr (List.map (·.2)) (List.map (·.1))).complete)

theorem Node.forget_mk (f : Shape Node → Shape Node) (l : Label) (s : Shape Node) :
  forget f (.mk l s) = .mk l (f (s.mapSlotsOr (List.map (forget f)) id).complete)
  := by
  rw [forget, Tree.para_mk, Shape.mapSlotsOr_map]
  simp only [List.map_map, Function.comp_def, List.map_id']
  rfl

end Formula
