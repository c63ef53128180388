import Formula.Node.Scaling
import Formula.Proofs.FixedPoint
import Formula.Proofs.Surgery

/-!
# Views of nodes

The outline of a construct is what is left of it without what only concerns its look, with
what some function shows of every slot in the place of the slot.  A view of nodes shows no
more of a node than its wrappers and its outline.  What is equal in a view may be exchanged
in every slot at any depth, and a view shows neither identifiers nor depths nor scales.
-/

namespace Formula

variable {β γ δ : Type}

/-! ### Outlines -/

namespace Shape

variable {α : Type}

/-- The construct without the depth and the scale that it stores, and with exactly the cells
inside its rectangle. -/
def withoutLook : Shape α → Shape α
  | .text v fmt _ => .text v fmt none
  | s => s.essential

/-- The construct without its look, with what `F` shows of every slot in its place. -/
def outline (F : List α → δ) (s : Shape α) : Shape δ := s.withoutLook.mapSlots fun slot => [F slot]

theorem withoutLook_eq {s : Shape α} (hs : s.isText = false) :
  s.withoutLook = s.essential
  := by
  cases s <;> first | rfl | contradiction

/-- Constructs of one outline are no texts, or texts of equal value and format. -/
theorem text_of_outline {β : Type} {F : List α → δ} {G : List β → δ} {s' : Shape α} {s : Shape β}
    (h : s'.outline F = s.outline G) :
  s'.isText = false ∧ s.isText = false
    ∨ ∃ v fmt scale scale', s' = .text v fmt scale' ∧ s = .text v fmt scale
  := by
  have hsame : s'.isText = s.isText := by
    have hisText : ∀ {α : Type} (F : List α → δ) (s : Shape α), (s.outline F).isText = s.isText := by
      intro α F s
      cases s <;> rfl
    rw [← hisText F, h, hisText]
  cases s with
  | text v fmt scale =>
    cases s' with
    | text v' fmt' scale' =>
      obtain ⟨rfl, rfl, -⟩ := Shape.text.inj h
      exact .inr ⟨_, _, _, _, rfl, rfl⟩
    | _ => contradiction
  | _ => exact .inl ⟨hsame, rfl⟩

theorem withoutLook_mapSlotsOr {f g : List α → List β} (hf : f [] = []) (s : Shape α) :
  (s.mapSlotsOr f g).withoutLook = s.withoutLook.mapSlots f
  := by
  have hessential := essential_mapSlotsOr (g := g) hf 0 s
  cases s with
  | text => rfl
  | _ => exact hessential

theorem allChildren_withoutLook (s : Shape α) :
  s.withoutLook.allChildren = s.children
  := by
  have hessential := s.allChildren_essential
  cases s with
  | text => rfl
  | _ => exact hessential

theorem outline_withDepth (F : List α → δ) (depth : Int) (s : Shape α) :
  (s.withDepth depth).outline F = s.outline F
  := by
  cases s <;> rfl

/-- Slots that are replaced by slots that show the same leave the outline as it is. -/
theorem outline_mapSlotsOr {F : List β → δ} {G : List α → δ} {f g : List α → List β}
    {s : Shape α} (hf : f [] = []) (h : ∀ slot, slot ⊆ s.children → F (f slot) = G slot) :
  (s.mapSlotsOr f g).outline F = s.outline G
  := by
  rw [outline, withoutLook_mapSlotsOr hf, mapSlots, mapSlots, mapSlotsOr_mapSlotsOr, outline,
    mapSlots]
  have hslot : ∀ slot, slot ⊆ s.withoutLook.allChildren → [F (f slot)] = [G slot] := by
    intro slot hslot
    rw [h slot (s.allChildren_withoutLook ▸ hslot)]
  apply mapSlotsOr_congr hslot hslot

end Shape

/-- A slot that is replaced by one that shows the same leaves the outline as it is. -/
theorem Shape.outline_setSlot {s : Shape Node} {p : SlotName} {a b : List Node}
    {F : List Node → δ} (hslot : s.slot? p = some a) (h : F b = F a) :
  (s.setSlot p b).outline F = s.outline F
  := by
  have hmem := mem_of_lookup_eq_some hslot
  have hgrid : ∀ g : Grid Node, (p, a) ∈ slots.ofGrid g →
      ∃ k ∈ g.coordinates, p = .cell k.1 k.2
        ∧ mapSlotsOr.grid (fun slot => [F slot]) (fun slot => [F slot])
            (g.setCell k.1 k.2 b).visible
          = mapSlotsOr.grid (fun slot => [F slot]) (fun slot => [F slot]) g.visible := by
    intro g hg
    obtain ⟨k, hk, heq⟩ := List.mem_map.1 hg
    obtain ⟨rfl, rfl⟩ := Prod.mk.inj heq
    refine ⟨k, hk, rfl, ?_⟩
    have hcoordinates : (g.setCell k.1 k.2 b).coordinates = g.coordinates := rfl
    have hcell : ∀ at_ : Nat × Nat, F ((g.setCell k.1 k.2 b).cell at_.1 at_.2)
        = F (g.cell at_.1 at_.2) := by
      intro at_
      rw [Grid.cell_setCell]
      split
      · rename_i hat
        rw [h, hat]
      · rfl
    simp only [Grid.mapSlotsOr_self, Grid.visible, List.map_map, hcoordinates, Function.comp_def,
      hcell]
    rfl
  cases s with
  | matrix t g =>
    obtain ⟨k, hk, rfl, hsame⟩ := hgrid g hmem
    simp only [setSlot, mapGrid, if_pos hk, outline, withoutLook, essential, mapSlots, mapSlotsOr,
      hsame]
  | stack g =>
    obtain ⟨k, hk, rfl, hsame⟩ := hgrid g hmem
    simp only [setSlot, mapGrid, if_pos hk, outline, withoutLook, essential, mapSlots, mapSlotsOr,
      hsame]
  | cases g =>
    obtain ⟨k, hk, rfl, hsame⟩ := hgrid g hmem
    simp only [setSlot, mapGrid, if_pos hk, outline, withoutLook, essential, mapSlots, mapSlotsOr,
      hsame]
  | text => contradiction
  | derivative o =>
    cases o <;>
      simp only [slots, Order.slot?, List.mem_cons, List.mem_append, mem_present, Prod.mk.injEq,
        List.not_mem_nil, or_false, reduceCtorEq, and_false, false_or, Option.some.injEq] at hmem <;>
      casesm* _ ∨ _, _ ∧ _ <;> subst_vars <;>
      simp only [setSlot, outline, withoutLook, essential, mapSlots, mapSlotsOr, mapSlotsOr.order, h]
  | _ =>
    simp only [slots, List.mem_cons, List.mem_append, mem_present, Prod.mk.injEq,
      List.not_mem_nil, or_false] at hmem
    casesm* _ ∨ _, _ ∧ _ <;> subst_vars <;>
      simp only [setSlot, outline, withoutLook, essential, mapSlots, mapSlotsOr, Option.map_some, h]

/-! ### Views -/

/-- What `view` shows of a node is determined by its wrappers and by the outline that has what `F`
shows in the places of the slots; and `F` shows of a slot what `view` shows of its nodes. -/
structure View (view : Node → γ) (F : List Node → δ) : Prop where
  slot : ∀ {ns ns' : List Node}, ns.map view = ns'.map view → F ns = F ns'
  node : ∀ {l l' : Label} {s s' : Shape Node}, l'.wrapping = l.wrapping →
    s'.outline F = s.outline F → view (.mk l' s') = view (.mk l s)

/-- The second siblings are the first ones, with `y` in the place of `x`: of the whole, or of the
content of one slot of one node, at any depth. -/
inductive Exchange (x y : List Node) : List Node → List Node → Prop
  | whole : Exchange x y x y
  | slot {before after a b : List Node} {l : Label} {s : Shape Node} {p : SlotName} :
    s.slot? p = some a → Exchange x y a b →
    Exchange x y (before ++ .mk l s :: after) (before ++ .mk l (s.setSlot p b) :: after)

theorem Node.rescale_mk (l : Label) (s : Shape Node) :
  rescale (.mk l s) = .mk l (s.mapSlotsOr (fun slot => scaleSiblings (slot.map rescale)) id)
  := by
  rw [rescale, Tree.para_mk, Shape.mapSlotsOr_map]
  simp only [List.map_map, Function.comp_def, List.map_id']
  rfl

namespace View

variable {view : Node → γ} {F : List Node → δ} {x y ns ns' : List Node}

/-- Siblings that show the same may stand for each other. -/
theorem exchange (hview : View view F) (hxy : Exchange x y ns ns') (h : F x = F y) :
  F ns = F ns'
  := by
  induction hxy with
  | whole => apply h
  | @slot before after a b l s p hslot _ ih =>
    have hnode : view (.mk l (s.setSlot p b)) = view (.mk l s) :=
      hview.node rfl (Shape.outline_setSlot hslot ih.symm)
    apply hview.slot
    simp only [List.map_append, List.map_cons, hnode]

/-- A view shows neither the identifier nor the look of a node. -/
theorem look (hview : View view F) {l l' : Label} {s s' : Shape Node}
    (hwrapping : l'.wrapping = l.wrapping) (hlook : s'.withoutLook = s.withoutLook) :
  view (.mk l' s') = view (.mk l s)
  := by
  apply hview.node hwrapping
  rw [Shape.outline, hlook, Shape.outline]

/-- A view does not show stored depths. -/
theorem renest (hview : View view F) (n : Node) (depth : Nat) :
  view (Node.renest n depth) = view n
  := by
  induction n using Tree.induction generalizing depth with
  | h l s ih =>
    rw [Node.renest_mk]
    apply hview.node rfl
    rw [Shape.outline_withDepth]
    apply Shape.outline_mapSlotsOr rfl
    intro slot hslot
    apply hview.slot
    rw [List.map_map]
    apply List.map_congr_left
    intro n hn
    apply ih n (s.children_subset (hslot hn))

/-- A view does not show the scales of siblings. -/
theorem map_scaleSiblings (hview : View view F) (ns : List Node) :
  (scaleSiblings ns).map view = ns.map view
  := by
  have hscale : ∀ (scale : Scale) (n : Node), view (Node.withTextScale scale n) = view n := by
    intro scale n
    obtain ⟨l, s⟩ := n
    cases s with
    | text => exact hview.look rfl rfl
    | _ => rfl
  conv => rhs; rw [← List.zipIdx_map_fst 0 ns, List.map_map]
  rw [scaleSiblings, List.map_map]
  apply List.map_congr_left
  rintro ⟨n, i⟩ -
  simp only [Function.comp_apply]
  split
  · apply hscale
  · rfl

/-- A view does not show the scales of parentheses. -/
theorem rescale (hview : View view F) (n : Node) :
  view (Node.rescale n) = view n
  := by
  induction n using Tree.induction with
  | h l s ih =>
    rw [Node.rescale_mk]
    apply hview.node rfl
    apply Shape.outline_mapSlotsOr rfl
    intro slot hslot
    apply hview.slot
    rw [hview.map_scaleSiblings, List.map_map]
    apply List.map_congr_left
    intro n hn
    apply ih n (s.children_subset (hslot hn))

theorem map_renest (hview : View view F) (ns : List Node) :
  (Formula.renest ns).map view = ns.map view
  := by
  rw [Formula.renest, List.map_map]
  apply List.map_congr_left
  intro n _
  apply hview.renest

theorem map_rescale (hview : View view F) (ns : List Node) :
  (Formula.rescale ns).map view = ns.map view
  := by
  rw [Formula.rescale, hview.map_scaleSiblings, List.map_map]
  apply List.map_congr_left
  intro n _
  apply hview.rescale

end View

end Formula
