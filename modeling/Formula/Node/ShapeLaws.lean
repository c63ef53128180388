import Formula.Node.Shape

/-!
# Laws of shapes

Mapping over the children of a construct respects the identity and composition, and depends
only on what is done to the children that are there.
-/

namespace Formula.Shape

universe u v

variable {α : Type u} {β : Type v}

@[simp]
theorem mapSlots_id (s : Shape α) :
  s.mapSlots id = s
  := by
  cases s with
  | derivative o => cases o <;> rfl
  | matrix t g => simp [mapSlots, mapSlotsOr, mapSlotsOr.grid]
  | stack g => simp [mapSlots, mapSlotsOr, mapSlotsOr.grid]
  | cases g => simp [mapSlots, mapSlotsOr, mapSlotsOr.grid]
  | _ => simp [mapSlots, mapSlotsOr]

@[simp]
theorem map_id (s : Shape α) :
  s.map id = s
  := by
  rw [map, List.map_id_fun, mapSlots_id]

private theorem listMap_comp {γ : Type _} (f : α → β) (g : β → γ) :
  List.map g ∘ List.map f = List.map (g ∘ f)
  := by
  funext l
  simp

/-- Applying two functions to every child one after the other. -/
theorem map_map {γ : Type _} (f : α → β) (g : β → γ) (s : Shape α) :
  (s.map f).map g = s.map (g ∘ f)
  := by
  cases s with
  | derivative o => cases o <;> simp [map, mapSlots, mapSlotsOr, mapSlotsOr.order]
  | matrix t g => simp [map, mapSlots, mapSlotsOr, mapSlotsOr.grid]
  | stack g => simp [map, mapSlots, mapSlotsOr, mapSlotsOr.grid]
  | cases g => simp [map, mapSlots, mapSlotsOr, mapSlotsOr.grid]
  | _ => simp only [map, mapSlots, mapSlotsOr, List.map_map, Option.map_map, listMap_comp]

/-- Functions that agree on the children give the same construct. -/
theorem map_congr {f g : α → β} {s : Shape α} (h : ∀ a ∈ s.allChildren, f a = g a) :
  s.map f = s.map g
  := by
  cases s with
  | derivative o =>
    cases o <;>
      simp_all [map, mapSlots, mapSlotsOr, mapSlotsOr.order, allChildren, grid?, children, slots,
        slots.present, Order.slot?]
  | matrix t c =>
    simp_all only [allChildren, grid?, List.mem_flatMap, map, mapSlots, mapSlotsOr,
      mapSlotsOr.grid]
    simp only [ite_self, Shape.matrix.injEq, Grid.mk.injEq, true_and, List.map_inj_left]
    intro entry hentry
    rw [List.map_inj_left.2 fun a ha => h a ⟨entry, hentry, ha⟩]
  | stack c =>
    simp_all only [allChildren, grid?, List.mem_flatMap, map, mapSlots, mapSlotsOr,
      mapSlotsOr.grid]
    simp only [ite_self, Shape.stack.injEq, Grid.mk.injEq, true_and, List.map_inj_left]
    intro entry hentry
    rw [List.map_inj_left.2 fun a ha => h a ⟨entry, hentry, ha⟩]
  | cases c =>
    simp_all only [allChildren, grid?, List.mem_flatMap, map, mapSlots, mapSlotsOr,
      mapSlotsOr.grid]
    simp only [ite_self, Shape.cases.injEq, Grid.mk.injEq, true_and, List.map_inj_left]
    intro entry hentry
    rw [List.map_inj_left.2 fun a ha => h a ⟨entry, hentry, ha⟩]
  | script a p q =>
    cases p <;> cases q <;>
      simp_all [map, mapSlots, mapSlotsOr, allChildren, grid?, children, slots, slots.present]
  | bracket l r c d s p q =>
    cases p <;> cases q <;>
      simp_all [map, mapSlots, mapSlotsOr, allChildren, grid?, children, slots, slots.present]
  | integral t s l m a b p q =>
    cases p <;> cases q <;>
      simp_all [map, mapSlots, mapSlotsOr, allChildren, grid?, children, slots, slots.present]
  | accent t p a l =>
    cases l <;>
      simp_all [map, mapSlots, mapSlotsOr, allChildren, grid?, children, slots, slots.present]
  | _ => simp_all [map, mapSlots, mapSlotsOr, allChildren, grid?, children, slots]

@[simp]
theorem flatMap_present (n : SlotName) (s : Option (List α)) :
  (slots.present n s).flatMap (·.2) = s.getD []
  := by
  cases s <;> simp [slots.present]

/-- A function that fixes the children leaves the construct as it is. -/
theorem map_eq_self {f : α → α} {s : Shape α} (h : ∀ a ∈ s.allChildren, f a = a) :
  s.map f = s
  := by
  rw [map_congr (g := id) h, map_id]

/-! ### Agreement -/

section Agreement

variable {g : α → α → Bool}

private theorem agrees_slot_iff {s t : List α} (h : ∀ a ∈ s, ∀ b, g a b = true ↔ a = b) :
  agrees.slot (fun (p : α → Bool) b => p b) (s.map g) t = true ↔ s = t
  := by
  induction s generalizing t with
  | nil => cases t <;> simp [agrees.slot]
  | cons a as ih =>
    cases t with
    | nil => simp [agrees.slot]
    | cons b bs => simp_all [agrees.slot]

private theorem agrees_optional_iff {s t : Option (List α)}
    (h : ∀ a ∈ s.getD [], ∀ b, g a b = true ↔ a = b) :
  agrees.optional (fun (p : α → Bool) b => p b) (s.map (List.map g)) t = true ↔ s = t
  := by
  cases s <;> cases t <;> simp_all [agrees.optional, agrees_slot_iff]

private theorem agrees_order_iff {s t : Order α}
    (h : ∀ a ∈ s.slot?.getD [], ∀ b, g a b = true ↔ a = b) :
  agrees.order (fun (p : α → Bool) b => p b) (mapSlotsOr.order (List.map g) s) t = true ↔ s = t
  := by
  cases s <;> cases t <;>
    simp_all [agrees.order, mapSlotsOr.order, agrees_slot_iff, Order.slot?]

private theorem agrees_cells_iff {s t : List ((Nat × Nat) × List α)}
    (h : ∀ a ∈ s.flatMap (·.2), ∀ b, g a b = true ↔ a = b) :
  agrees.cells (fun (p : α → Bool) b => p b) (s.map fun (k, c) => (k, c.map g)) t = true
    ↔ s = t
  := by
  induction s generalizing t with
  | nil => cases t <;> simp [agrees.cells]
  | cons e es ih =>
    obtain ⟨k, c⟩ := e
    cases t with
    | nil => simp [agrees.cells]
    | cons e' es' =>
      obtain ⟨k', c'⟩ := e'
      simp only [List.flatMap_cons, List.mem_append] at h
      simp [agrees.cells, agrees_slot_iff fun a ha => h a (Or.inl ha),
        ih fun a ha => h a (Or.inr ha)]

private theorem agrees_grid_iff {s t : Grid α}
    (h : ∀ a ∈ s.cells.flatMap (·.2), ∀ b, g a b = true ↔ a = b) :
  agrees.grid (fun (p : α → Bool) b => p b) (mapSlotsOr.grid (List.map g) (List.map g) s) t = true
    ↔ s = t
  := by
  obtain ⟨rows, cols, cells⟩ := s
  obtain ⟨rows', cols', cells'⟩ := t
  have := agrees_cells_iff (t := cells') h
  simp_all [agrees.grid, mapSlotsOr.grid, and_assoc]

/-- Constructs agree under a relation that is equality on their children exactly when they
are equal. -/
theorem agrees_map_iff {s t : Shape α} (h : ∀ a ∈ s.allChildren, ∀ b, g a b = true ↔ a = b) :
  agrees (fun (p : α → Bool) b => p b) (s.map g) t = true ↔ s = t
  := by
  cases s with
  | matrix d c =>
    cases t with
    | matrix d' c' => simp [agrees, map, mapSlots, mapSlotsOr, agrees_grid_iff h]
    | _ => simp [agrees, map, mapSlots, mapSlotsOr]
  | stack c =>
    cases t with
    | stack c' => simp [agrees, map, mapSlots, mapSlotsOr, agrees_grid_iff h]
    | _ => simp [agrees, map, mapSlots, mapSlotsOr]
  | cases c =>
    cases t with
    | cases c' => simp [agrees, map, mapSlots, mapSlotsOr, agrees_grid_iff h]
    | _ => simp [agrees, map, mapSlots, mapSlotsOr]
  | _ =>
    simp only [allChildren, grid?, children, slots, flatMap_present, List.flatMap_cons,
      List.flatMap_nil, List.flatMap_append, List.append_nil, List.mem_append, or_imp,
      forall_and] at h
    cases t <;>
      simp_all [agrees, map, mapSlots, mapSlotsOr, agrees_slot_iff, agrees_optional_iff,
        agrees_order_iff, and_assoc]

end Agreement

end Formula.Shape
