import Formula.Proofs.AsRead
import Formula.Session.Basic

/-!
# Replacing slots

A slot of a construct is replaced without touching the others, and a node of a tree without
touching what is not below it.  `surface` is what a node shows without its children: its label
and its construct with the identifiers of the children in their places.
-/

namespace Formula

/-! ### Slots of constructs -/

section Slots

variable {α β : Type} {s : Shape α} {p : SlotName} {old new : List α}

theorem Grid.cells_setCell {g : Grid α} {k : Nat × Nat} (content : List α)
    (h : (g.cells.lookup k).isSome) :
  (g.setCell k.1 k.2 content).cells
    = g.cells.map fun entry => if entry.1 = k then (entry.1, content) else entry
  := if_pos h

theorem Grid.cell_setCell {g : Grid α} {k at_ : Nat × Nat} (content : List α) :
  (g.setCell k.1 k.2 content).cell at_.1 at_.2
    = if at_ = k then content else g.cell at_.1 at_.2
  := by
  have hlookup : ∀ cells : List ((Nat × Nat) × List α),
      (cells.map fun entry => if entry.1 = k then (entry.1, content) else entry).lookup at_
        = if at_ = k then (cells.lookup at_).map fun _ => content else cells.lookup at_ := by
    intro cells
    induction cells with
    | nil => simp
    | cons entry cells ih =>
      obtain ⟨k', c⟩ := entry
      rw [List.map_cons, List.lookup_cons]
      by_cases hk : at_ = k'
      · subst hk
        by_cases hat : at_ = k <;> simp [hat]
      · have hk' : (at_ == k') = false := by simpa using hk
        by_cases hat : k' = k <;> simp [hat, List.lookup_cons, ih] <;> grind
  by_cases h : (g.cells.lookup k).isSome
  · rw [cell, cells_setCell content h, hlookup]
    split
    · rename_i hat
      obtain ⟨c, hc⟩ := Option.isSome_iff_exists.1 h
      rw [hat, hc]
      rfl
    · rfl
  · have hcells : (g.setCell k.1 k.2 content).cells = g.cells ++ [(k, content)] := if_neg h
    rw [cell, hcells, List.lookup_append]
    split
    · rename_i hat
      rw [hat, Option.not_isSome_iff_eq_none.1 h]
      simp
    · rename_i hat
      have hbeq : (at_ == k) = false := by simpa using hat
      rw [cell]
      cases g.cells.lookup at_ <;> simp [List.lookup_cons, hbeq]

theorem Grid.Sound.isSome_lookup {g : Grid α} (h : g.Sound) {k : Nat × Nat}
    (hk : k ∈ g.coordinates) :
  (g.cells.lookup k).isSome
  := by
  rw [← h.cells] at hk
  obtain ⟨⟨k', c⟩, hmem, rfl⟩ := List.mem_map.1 hk
  have hnodup : (g.cells.map (·.1)).Nodup := by
    rw [h.cells]
    apply g.nodup_coordinates
  rw [lookup_eq_some_of_mem hnodup hmem]
  rfl

theorem Grid.Sound.setCell {g : Grid α} (h : g.Sound) {k : Nat × Nat} (hk : k ∈ g.coordinates)
    (content : List α) :
  (g.setCell k.1 k.2 content).Sound
  where
  rows := h.rows
  cols := h.cols
  cells := by
    rw [cells_setCell content (h.isSome_lookup hk), List.map_map]
    refine Eq.trans (List.map_congr_left ?_) h.cells
    intro entry _
    simp only [Function.comp]
    split <;> rfl

theorem Shape.ofGrid_setCell (g : Grid α) (k : Nat × Nat) (content : List α) :
  slots.ofGrid (g.setCell k.1 k.2 content)
    = (slots.ofGrid g).map fun slot =>
      if slot.1 = .cell k.1 k.2 then (.cell k.1 k.2, content) else slot
  := by
  have hcoordinates : (g.setCell k.1 k.2 content).coordinates = g.coordinates := rfl
  rw [slots.ofGrid, hcoordinates, slots.ofGrid, List.map_map]
  apply List.map_congr_left
  intro at_ _
  rw [Function.comp, Grid.cell_setCell content]
  by_cases hat : at_ = k
  · simp [hat]
  · have hne : ¬ (at_.1 = k.1 ∧ at_.2 = k.2) := fun hne => hat (Prod.ext hne.1 hne.2)
    simp [hat, hne]

theorem Shape.mem_present {n m : SlotName} {o : Option (List α)} :
  (m, old) ∈ slots.present n o ↔ m = n ∧ o = some old
  := by
  cases o <;> simp [slots.present, eq_comm]

theorem Shape.map_present (n : SlotName) (o : Option (List α)) :
  ((slots.present n o).map fun slot => if slot.1 = p then (p, new) else slot)
    = slots.present n (if n = p then o.map fun _ => new else o)
  := by
  by_cases hn : n = p <;> cases o <;> simp [slots.present, hn]

theorem Shape.of_mem_ofGrid {g : Grid α} (h : (p, old) ∈ slots.ofGrid g) :
  ∃ k ∈ g.coordinates, p = .cell k.1 k.2
  := by
  obtain ⟨k, hk, heq⟩ := List.mem_map.1 h
  exact ⟨k, hk, (Prod.mk.inj heq).1.symm⟩

/-- Replacing a slot changes no other slot. -/
theorem Shape.slots_setSlot (h : (p, old) ∈ s.slots) (new : List α) :
  (s.setSlot p new).slots = s.slots.map fun slot => if slot.1 = p then (p, new) else slot
  := by
  cases s with
  | matrix t g =>
    obtain ⟨k, hk, rfl⟩ := of_mem_ofGrid h
    simp only [setSlot, mapGrid, slots, if_pos hk]
    apply ofGrid_setCell
  | stack g =>
    obtain ⟨k, hk, rfl⟩ := of_mem_ofGrid h
    simp only [setSlot, mapGrid, slots, if_pos hk]
    apply ofGrid_setCell
  | cases g =>
    obtain ⟨k, hk, rfl⟩ := of_mem_ofGrid h
    simp only [setSlot, mapGrid, slots, if_pos hk]
    apply ofGrid_setCell
  | text => contradiction
  | derivative o =>
    cases o <;>
      simp only [slots, Order.slot?, List.mem_cons, List.mem_append, mem_present, Prod.mk.injEq,
        List.not_mem_nil, or_false, reduceCtorEq, and_false, false_or, Option.some.injEq] at h <;>
      casesm* _ ∨ _, _ ∧ _ <;> subst_vars <;>
      simp [setSlot, slots, map_present, Order.slot?]
  | _ =>
    simp only [slots, List.mem_cons, List.mem_append, mem_present, Prod.mk.injEq,
      List.not_mem_nil, or_false] at h
    casesm* _ ∨ _, _ ∧ _ <;> subst_vars <;> simp [setSlot, slots, map_present]

theorem Shape.sound_setSlot (h : (p, old) ∈ s.slots) (hs : s.Sound) (new : List α) :
  (s.setSlot p new).Sound
  := by
  cases s with
  | text => contradiction
  | matrix t g =>
    obtain ⟨k, hk, rfl⟩ := of_mem_ofGrid h
    simp only [setSlot, mapGrid, if_pos hk]
    apply Grid.Sound.setCell hs hk
  | stack g =>
    obtain ⟨k, hk, rfl⟩ := of_mem_ofGrid h
    simp only [setSlot, mapGrid, if_pos hk]
    apply Grid.Sound.setCell hs hk
  | cases g =>
    obtain ⟨k, hk, rfl⟩ := of_mem_ofGrid h
    simp only [setSlot, mapGrid, if_pos hk]
    apply Grid.Sound.setCell hs hk
  | derivative o =>
    cases o <;>
      simp only [slots, Order.slot?, List.mem_cons, List.mem_append, mem_present, Prod.mk.injEq,
        List.not_mem_nil, or_false, reduceCtorEq, and_false, false_or, Option.some.injEq] at h <;>
      casesm* _ ∨ _, _ ∧ _ <;> subst_vars <;> exact hs
  | _ =>
    simp only [slots, List.mem_cons, List.mem_append, mem_present, Prod.mk.injEq,
      List.not_mem_nil, or_false] at h
    casesm* _ ∨ _, _ ∧ _ <;> subst_vars <;> simp_all [setSlot, Sound]

/-- No two slots have one name. -/
theorem Shape.nodup_slots (s : Shape α) :
  (s.slots.map (·.1)).Nodup
  := by
  have hgrid : ∀ g : Grid α, ((slots.ofGrid g).map (·.1)).Nodup := by
    intro g
    rw [slots.ofGrid, List.map_map]
    apply g.nodup_coordinates.map
    rintro ⟨a, b⟩ ⟨c, d⟩ heq
    simpa using heq
  cases s with
  | matrix t g => apply hgrid
  | stack g => apply hgrid
  | cases g => apply hgrid
  | derivative o => cases o <;> simp [slots, slots.present, Order.slot?]
  | script a q r => cases q <;> cases r <;> simp [slots, slots.present]
  | bracket l r c d s q r => cases q <;> cases r <;> simp [slots, slots.present]
  | integral t st l m a b q r => cases q <;> cases r <;> simp [slots, slots.present]
  | accent t q a l => cases l <;> simp [slots, slots.present]
  | _ => simp [slots]

theorem Shape.Sound.allChildren (h : s.Sound) :
  s.allChildren = s.children
  := by
  cases s with
  | matrix t g => exact (Grid.Sound.flatMap_slots h).symm
  | stack g => exact (Grid.Sound.flatMap_slots h).symm
  | cases g => exact (Grid.Sound.flatMap_slots h).symm
  | _ => rfl

end Slots

/-! ### Surfaces -/

/-- What a node shows without its children. -/
def Node.surface (n : Node) : Label × Shape Nat := (n.label, n.shape.map Tree.id)

/-- The surfaces of all nodes that a walk meets. -/
def surfaces (ns : List Node) : Multiset (Label × Shape Nat) := (walk ns).map Node.surface

section Surfaces

variable {l : Label} {s : Shape Node} {n m : Node} {ns ns' : List Node} {p : SlotName}
  {old new : List Node}

@[simp]
theorem surfaces_nil :
  surfaces [] = 0
  := rfl

@[simp]
theorem surfaces_append :
  surfaces (ns ++ ns') = surfaces ns + surfaces ns'
  := by
  simp [surfaces]

theorem surfaces_cons (n : Node) (ns : List Node) :
  surfaces (n :: ns) = surfaces [n] + surfaces ns
  := @surfaces_append [n] ns

theorem surfaces_mk :
  surfaces [.mk l s] = {(l, s.map Tree.id)} + surfaces s.children
  := by
  rw [surfaces, walk, List.flatMap_singleton, Tree.walk_mk, List.map_cons, ← Multiset.cons_coe,
    ← Multiset.singleton_add]
  rfl

theorem mem_surfaces {x : Label × Shape Nat} :
  x ∈ surfaces ns ↔ ∃ n ∈ walk ns, n.surface = x
  := by
  simp [surfaces]

/-- The identifiers show in the surfaces. -/
theorem ids_eq_map_surfaces (ns : List Node) :
  ids ns = (surfaces ns).map (·.1.id)
  := by
  rw [ids, surfaces, Multiset.map_coe, List.map_map]
  rfl

theorem mem_ids {i : Nat} :
  i ∈ ids ns ↔ ∃ n ∈ walk ns, n.id = i
  := by
  simp [ids]

theorem ids_subset_of_mem (h : n ∈ ns) :
  ids [n] ⊆ ids ns
  := by
  obtain ⟨front, back, rfl⟩ := List.append_of_mem h
  intro i hi
  rw [ids_append, ids_cons, Multiset.mem_add, Multiset.mem_add]
  exact Or.inr (Or.inl hi)

/-- What stands in the other slots of a construct stays when one is replaced. -/
theorem surfaces_setSlot (h : (p, old) ∈ s.slots) (new : List Node) :
  surfaces (s.setSlot p new).children + surfaces old = surfaces s.children + surfaces new
  := by
  rw [Shape.children, Shape.slots_setSlot h, Shape.children]
  obtain ⟨front, back, hslots⟩ := List.append_of_mem h
  have hnodup := s.nodup_slots
  rw [hslots, List.map_append, List.map_cons, List.nodup_append, List.nodup_cons] at hnodup
  obtain ⟨-, ⟨hback, -⟩, hdisjoint⟩ := hnodup
  have hkeep : ∀ l : List (SlotName × List Node), p ∉ l.map (·.1) →
      (l.map fun slot => if slot.1 = p then (p, new) else slot) = l := by
    intro l hl
    conv => rhs; rw [← List.map_id l]
    apply List.map_congr_left
    intro slot hslot
    apply if_neg
    rintro rfl
    apply hl (List.mem_map_of_mem hslot)
  have hfront : p ∉ front.map (·.1) := fun hmem => hdisjoint p hmem p List.mem_cons_self rfl
  rw [hslots, List.map_append, List.map_cons, hkeep front hfront, hkeep back hback, if_pos rfl]
  simp only [List.flatMap_append, List.flatMap_cons, surfaces_append]
  abel

/-- All nodes that a walk meets are sound, so that it meets all nodes. -/
def AllSound (ns : List Node) : Prop := ∀ n ∈ walk ns, n.shape.Sound

theorem allSound_iff_surfaces :
  AllSound ns ↔ ∀ x ∈ surfaces ns, x.2.Sound
  := by
  constructor
  · intro h x hx
    obtain ⟨n, hn, rfl⟩ := mem_surfaces.1 hx
    apply Shape.sound_mapSlotsOr_iff.2 (h n hn)
  · intro h n hn
    apply Shape.sound_mapSlotsOr_iff.1 (h _ (mem_surfaces.2 ⟨n, hn, rfl⟩))

theorem allSound_append :
  AllSound (ns ++ ns') ↔ AllSound ns ∧ AllSound ns'
  := by
  simp only [AllSound, walk_append, List.mem_append, or_imp, forall_and]

theorem allSound_cons :
  AllSound (n :: ns) ↔ AllSound [n] ∧ AllSound ns
  := @allSound_append [n] ns

theorem allSound_mk :
  AllSound [.mk l s] ↔ s.Sound ∧ AllSound s.children
  := by
  rw [AllSound, walk, List.flatMap_singleton, Tree.walk_mk, List.forall_mem_cons]
  rfl

theorem AllSound.of_mem (h : AllSound ns) (hn : n ∈ ns) :
  AllSound [n]
  := by
  obtain ⟨front, back, rfl⟩ := List.append_of_mem hn
  rw [allSound_append, allSound_cons] at h
  apply h.2.1

theorem Shape.allChildren_map {α β : Type} (f : α → β) (s : Shape α) :
  (s.map f).allChildren = s.allChildren.map f
  := by
  have hgrid : ∀ g : Grid α, (mapSlotsOr.grid (List.map f) (List.map f) g).cells.flatMap (·.2)
      = (g.cells.flatMap (·.2)).map f := by
    intro g
    simp only [mapSlotsOr.grid, ite_self, List.flatMap_map, List.map_flatMap]
  cases s with
  | matrix t g => apply hgrid
  | stack g => apply hgrid
  | cases g => apply hgrid
  | _ => apply Shape.children_map

theorem Tree.all_mk (l : Label) (s : Shape Node) :
  Tree.all (.mk l s) = .mk l s :: s.allChildren.flatMap Tree.all
  := by
  rw [Tree.all, Tree.para_mk, Shape.allChildren_map, List.flatMap_map]

/-- Where the nodes are sound, a walk meets all of them. -/
theorem AllSound.flatMap_all (h : AllSound ns) :
  ns.flatMap Tree.all = walk ns
  := by
  have hnode : ∀ n : Node, AllSound [n] → Tree.all n = Tree.walk n := by
    intro n hn
    induction n using Tree.induction with
    | h l s ih =>
      rw [allSound_mk] at hn
      rw [Tree.all_mk, Tree.walk_mk, hn.1.allChildren, walk]
      congr 1
      apply List.flatMap_congr
      intro child hchild
      apply ih child (s.children_subset hchild) (hn.2.of_mem hchild)
  rw [walk]
  apply List.flatMap_congr
  intro n hn
  apply hnode n (h.of_mem hn)

end Surfaces

/-! ### Altering a node -/

section Alter

variable {i : Nat} {f : Node → Node} {n m : Node} {ns : List Node}

theorem Node.alter_mk (i : Nat) (f : Node → Node) (l : Label) (s : Shape Node) :
  Node.alter i f (.mk l s)
    = if l.id = i then f (.mk l (s.map (Node.alter i f))) else .mk l (s.map (Node.alter i f))
  := by
  rw [Node.alter, Tree.mapBottomUp, Tree.fold_mk]
  rfl

theorem Node.id_alter (hf : ∀ n, (f n).id = n.id) (n : Node) :
  (Node.alter i f n).id = n.id
  := by
  obtain ⟨l, s⟩ := n
  rw [alter_mk]
  split
  · apply hf
  · rfl

/-- Where the identifier does not occur nothing is altered. -/
theorem Node.alter_eq_self (hsound : AllSound [n]) (hi : i ∉ ids [n]) :
  Node.alter i f n = n
  := by
  induction n using Tree.induction with
  | h l s ih =>
    rw [allSound_mk] at hsound
    rw [ids_mk, Multiset.mem_add, Multiset.mem_singleton, not_or] at hi
    have hchildren : s.map (Node.alter i f) = s := by
      apply Shape.map_eq_self
      intro child hchild
      apply ih child hchild
      · rw [hsound.1.allChildren] at hchild
        apply hsound.2.of_mem hchild
      · rw [hsound.1.allChildren] at hchild
        intro hmem
        apply hi.2 (ids_subset_of_mem hchild hmem)
    rw [alter_mk, hchildren, if_neg fun h => hi.1 h.symm]

theorem map_alter_eq_self (hsound : AllSound ns) (hi : i ∉ ids ns) :
  ns.map (Node.alter i f) = ns
  := by
  conv => rhs; rw [← List.map_id ns]
  apply List.map_congr_left
  intro n hn
  apply Node.alter_eq_self (hsound.of_mem hn)
  intro hmem
  apply hi (ids_subset_of_mem hn hmem)

/-- The node `m` of the siblings is replaced by `m'`, and nothing else changes. -/
structure Replaced (ns ns' : List Node) (m m' : Node) : Prop where
  surfaces : surfaces ns' + surfaces [m] = surfaces ns + surfaces [m']
  mem : m' ∈ walk ns'

/-- What is replaced in one of the siblings is replaced in all of them, where identifiers are
distinct. -/
theorem replaced_map_alter_of_forall (hsound : AllSound ns) (hnodup : (ids ns).Nodup)
    (hm : m ∈ walk ns) (hi : m.id = i)
    (h : ∀ n ∈ ns, AllSound [n] → (ids [n]).Nodup → m ∈ Tree.walk n →
      Replaced [n] [Node.alter i f n] m (f m)) :
  Replaced ns (ns.map (Node.alter i f)) m (f m)
  := by
  induction ns with
  | nil => contradiction
  | cons n ns ih =>
    rw [allSound_cons] at hsound
    rw [ids_cons, Multiset.nodup_add] at hnodup
    obtain ⟨hn, hns, hdisjoint⟩ := hnodup
    rw [walk_cons, List.mem_append] at hm
    rw [List.map_cons]
    by_cases hmem : m ∈ walk [n]
    · have hmn : m ∈ Tree.walk n := by simpa [walk] using hmem
      have hrest : ns.map (Node.alter i f) = ns := by
        apply map_alter_eq_self hsound.2
        apply Multiset.disjoint_left.1 hdisjoint
        apply mem_ids.2 ⟨m, hmem, hi⟩
      obtain ⟨hsurfaces, hwalk⟩ := h n List.mem_cons_self hsound.1 hn hmn
      rw [hrest]
      constructor
      · rw [surfaces_cons, surfaces_cons n, add_right_comm, hsurfaces, add_right_comm]
      · rw [walk_cons]
        apply List.mem_append_left _ hwalk
    · have hm := hm.resolve_left hmem
      have hself : Node.alter i f n = n := by
        apply Node.alter_eq_self hsound.1
        intro hin
        apply Multiset.disjoint_left.1 hdisjoint hin (mem_ids.2 ⟨m, hm, hi⟩)
      obtain ⟨hsurfaces, hwalk⟩ := ih hsound.2 hns hm fun k hk => h k (List.mem_cons_of_mem _ hk)
      rw [hself]
      constructor
      · rw [surfaces_cons, surfaces_cons n ns, add_assoc, hsurfaces, add_assoc]
      · rw [walk_cons]
        apply List.mem_append_right _ hwalk

/-- The node of an identifier is replaced, and nothing else changes. -/
theorem Node.replaced_alter (hf : ∀ n, (f n).id = n.id) (hsound : AllSound [n])
    (hnodup : (ids [n]).Nodup) (hm : m ∈ Tree.walk n) (hi : m.id = i) :
  Replaced [n] [Node.alter i f n] m (f m)
  := by
  induction n using Tree.induction with
  | h l s ih =>
    rw [allSound_mk] at hsound
    rw [ids_mk, Multiset.singleton_add, Multiset.nodup_cons] at hnodup
    rw [Tree.walk_mk] at hm
    rcases List.mem_cons.1 hm with rfl | hm
    · have hchildren : s.map (Node.alter i f) = s := by
        apply Shape.map_eq_self
        intro child hchild
        rw [hsound.1.allChildren] at hchild
        apply alter_eq_self (hsound.2.of_mem hchild)
        intro hin
        apply hnodup.1
        rw [show l.id = i from hi]
        apply ids_subset_of_mem hchild hin
      rw [alter_mk, if_pos (show l.id = i from hi), hchildren]
      constructor
      · apply add_comm
      · apply mem_walk_of_mem List.mem_cons_self
    · have hne : l.id ≠ i := by
        rintro rfl
        apply hnodup.1 (mem_ids.2 ⟨m, hm, hi⟩)
      have hids : (s.map (Node.alter i f)).map Tree.id = s.map Tree.id := by
        rw [Shape.map_map]
        apply Shape.map_congr
        intro child _
        apply id_alter hf
      obtain ⟨hsurfaces, hwalk⟩ := replaced_map_alter_of_forall hsound.2 hnodup.2 hm hi
        fun child hchild => ih child (s.children_subset hchild)
      rw [alter_mk, if_neg hne]
      constructor
      · rw [surfaces_mk, surfaces_mk, hids, Shape.children_map, add_assoc, hsurfaces, add_assoc]
      · rw [walk, List.flatMap_singleton, Tree.walk_mk, Shape.children_map]
        apply List.mem_cons_of_mem _ hwalk

theorem replaced_map_alter (hf : ∀ n, (f n).id = n.id) (hsound : AllSound ns)
    (hnodup : (ids ns).Nodup) (hm : m ∈ walk ns) (hi : m.id = i) :
  Replaced ns (ns.map (Node.alter i f)) m (f m)
  := replaced_map_alter_of_forall hsound hnodup hm hi
    fun _ _ hn hids hmem => Node.replaced_alter hf hn hids hmem hi

end Alter

end Formula
