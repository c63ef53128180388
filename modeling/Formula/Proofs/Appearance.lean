import Formula.Proofs.RoundTrip

/-!
# What reading and writing do not see

Writing an equation does not depend on the identifiers of its nodes.  What it is read as after
it is written depends neither on them nor on the stored depths of brackets, and the same holds
of whether it is legible.  A sketch of an equation is what is left without both.
-/

namespace Formula

open Writing

/-! ### Changing slots -/

section Slots

variable {α β γ : Type} {s : Shape α}

/-- Functions that agree on all slots give the same construct. -/
theorem Shape.mapSlotsOr_congr {F F' G G' : List α → List β}
    (hF : ∀ l, l ⊆ s.allChildren → F l = F' l) (hG : ∀ l, l ⊆ s.allChildren → G l = G' l) :
  s.mapSlotsOr F G = s.mapSlotsOr F' G'
  := by
  have hslot : ∀ slot ∈ s.slots, F slot.2 = F' slot.2 := by
    intro slot hslot
    apply hF
    intro a ha
    apply s.children_subset (List.mem_flatMap.2 ⟨slot, hslot, ha⟩)
  have hgrid : ∀ c ∈ s.grid?, mapSlotsOr.grid F G c = mapSlotsOr.grid F' G' c := by
    intro c hc
    have hall : s.allChildren = c.cells.flatMap (·.2) := by
      rw [allChildren, Option.mem_def.1 hc]
    rw [mapSlotsOr.grid, mapSlotsOr.grid]
    congr 1
    apply List.map_congr_left
    intro entry hentry
    have hsub : entry.2 ⊆ s.allChildren := by
      intro a ha
      rw [hall]
      apply List.mem_flatMap.2 ⟨entry, hentry, ha⟩
    dsimp only
    rw [hF _ hsub, hG _ hsub]
  cases s with
  | derivative o => cases o <;> simp_all [mapSlotsOr, mapSlotsOr.order, slots, slots.present, Order.slot?]
  | script a p q => cases p <;> cases q <;> simp_all [mapSlotsOr, slots, slots.present]
  | bracket l r c d s p q => cases p <;> cases q <;> simp_all [mapSlotsOr, slots, slots.present]
  | integral t s l m a b p q => cases p <;> cases q <;> simp_all [mapSlotsOr, slots, slots.present]
  | accent t p a l => cases l <;> simp_all [mapSlotsOr, slots, slots.present]
  | matrix t c => rw [mapSlotsOr, mapSlotsOr, hgrid c rfl]
  | stack c => rw [mapSlotsOr, mapSlotsOr, hgrid c rfl]
  | cases c => rw [mapSlotsOr, mapSlotsOr, hgrid c rfl]
  | _ => simp_all [mapSlotsOr, slots]

/-- Functions that agree on the children of a shape map its slots alike. -/
theorem Shape.mapSlotsOr_map_congr {f g : α → β} {G : List α → List β} {s : Shape α}
    (h : ∀ a ∈ s.allChildren, f a = g a) :
  s.mapSlotsOr (List.map f) G = s.mapSlotsOr (List.map g) G
  := by
  apply mapSlotsOr_congr
  · intro children hchildren
    apply List.map_congr_left
    intro a ha
    apply h a (hchildren ha)
  · intro children _
    rfl

theorem Shape.map_mapSlotsOr (g : β → γ) (F G : List α → List β) (s : Shape α) :
  (s.mapSlotsOr F G).map g = s.mapSlotsOr (fun l => (F l).map g) fun l => (G l).map g
  := by
  have hgrid : ∀ c : Grid α,
      mapSlotsOr.grid (List.map g) (List.map g) (mapSlotsOr.grid F G c)
        = mapSlotsOr.grid (fun l => (F l).map g) (fun l => (G l).map g) c := by
    intro c
    simp only [mapSlotsOr.grid, List.map_map, Grid.mk.injEq, true_and]
    apply List.map_congr_left
    intro entry _
    change (entry.1, if c.inside entry.1 = true then
        (if c.inside entry.1 = true then F entry.2 else G entry.2).map g
      else (if c.inside entry.1 = true then F entry.2 else G entry.2).map g) = _
    simp only [ite_self]
    split <;> rfl
  cases s with
  | derivative o => cases o <;> simp [map, mapSlots, mapSlotsOr, mapSlotsOr.order]
  | _ => simp [map, mapSlots, mapSlotsOr, hgrid, Function.comp_def]

theorem Shape.map_withDepth (f : α → β) (depth : Int) (s : Shape α) :
  (s.withDepth depth).map f = (s.map f).withDepth depth
  := by
  cases s <;> rfl

@[simp]
theorem Shape.withDepth_withDepth (depth other : Int) (s : Shape α) :
  (s.withDepth depth).withDepth other = s.withDepth other
  := by
  cases s <;> rfl

end Slots

/-! ### Sketches -/

namespace Node

variable {n : Node} {l : Label} {s : Shape Node}

/-- The node without identifiers, and with no depths of brackets. -/
def sketch : Node → Node := Tree.fold fun l s => .mk { l with id := 0 } (s.withDepth 0)

theorem sketch_mk (l : Label) (s : Shape Node) :
  sketch (.mk l s) = .mk { l with id := 0 } ((s.map sketch).withDepth 0)
  := Tree.fold_mk _ l s

theorem sketch_bare (n : Node) :
  sketch (bare n) = sketch n
  := by
  induction n using Tree.induction with
  | h l s ih => rw [bare_mk, sketch_mk, sketch_mk, Shape.map_map,
      Shape.map_congr (f := sketch ∘ bare) (g := sketch) ih]

theorem sketch_renest (n : Node) (depth : Nat) :
  sketch (renest n depth) = sketch n
  := by
  induction n using Tree.induction generalizing depth with
  | h l s ih =>
    rw [renest_mk, sketch_mk, sketch_mk, Shape.map_withDepth, Shape.withDepth_withDepth,
      Shape.map_mapSlotsOr]
    simp only [List.map_map]
    congr 2
    apply Shape.mapSlotsOr_map_congr
    intro n hn
    apply ih n hn

end Node

theorem map_sketch_store (config : Config) (ns : List Node) :
  (config.store ns).map Node.sketch = ns.map Node.sketch
  := by
  rw [Config.store]
  split
  · rw [renest, List.map_map]
    apply List.map_congr_left
    intro n _
    apply Node.sketch_renest
  · rfl

theorem map_sketch_bare (ns : List Node) :
  (ns.map Node.bare).map Node.sketch = ns.map Node.sketch
  := by
  rw [List.map_map]
  apply List.map_congr_left
  intro n _
  apply Node.sketch_bare

/-! ### Storing depths commutes with dropping identifiers -/

theorem Node.bare_renest (n : Node) (depth : Nat) :
  bare (renest n depth) = renest (bare n) depth
  := by
  induction n using Tree.induction generalizing depth with
  | h l s ih =>
    rw [renest_mk, bare_mk, bare_mk, renest_mk, Shape.map_withDepth, Shape.map_mapSlotsOr,
      Shape.mapSlotsOr_map, Shape.innerDepth_map]
    simp only [List.map_map]
    congr 2
    apply Shape.mapSlotsOr_map_congr
    intro n hn
    apply ih n hn

/-- What commutes with storing the depths of a node commutes with storing those of an equation. -/
theorem map_store {f : Node → Node} (h : ∀ n depth, f (n.renest depth) = (f n).renest depth)
    (config : Config) (ns : List Node) :
  (config.store ns).map f = config.store (ns.map f)
  := by
  rw [Config.store, Config.store]
  split
  · rw [renest, renest, List.map_map, List.map_map]
    apply List.map_congr_left
    intro n _
    apply h
  · rfl

theorem map_bare_store (config : Config) (ns : List Node) :
  (config.store ns).map Node.bare = config.store (ns.map Node.bare)
  := map_store Node.bare_renest config ns

/-! ### Writing does not see identifiers -/

theorem piece_bare (settings : Settings) (n : Node) :
  piece settings (Node.bare n) = piece settings n
  := by
  induction n using Tree.induction with
  | h l s ih =>
    have hmap : s.map (piece settings ∘ Node.bare) = s.map (piece settings) := Shape.map_congr ih
    rw [Node.bare_mk, piece, Tree.fold_mk, Tree.fold_mk, Shape.map_map, ← piece, hmap]

theorem Node.bracketDepths_bare (n : Node) (depth : Nat) :
  bracketDepths (bare n) depth = bracketDepths n depth
  := by
  induction n using Tree.induction generalizing depth with
  | h l s ih =>
    have hmap : s.map (bracketDepths ∘ bare) = s.map bracketDepths :=
      Shape.map_congr fun n hn => funext (ih n hn)
    rw [bare_mk, bracketDepths, Tree.fold_mk, Tree.fold_mk, Shape.map_map, ← bracketDepths, hmap]

theorem maxBracketDepth_bare (ns : List Node) :
  maxBracketDepth (ns.map Node.bare) = maxBracketDepth ns
  := by
  rw [maxBracketDepth, maxBracketDepth, List.flatMap_map]
  simp only [Node.bracketDepths_bare]

/-- Writing does not depend on identifiers. -/
theorem toMarkup_bare (config : WriteConfig) (ns : List Node) :
  toMarkup .builtin config (ns.map Node.bare) = toMarkup .builtin config ns
  := by
  have hsettings : settingsFor config (ns.map Node.bare) = settingsFor config ns := by
    rw [settingsFor, settingsFor, maxBracketDepth_bare]
  have hpieces : (ns.map Node.bare).map (piece (settingsFor config ns))
      = ns.map (piece (settingsFor config ns)) := by
    rw [List.map_map]
    apply List.map_congr_left
    intro n _
    apply piece_bare
  rw [toMarkup_eq, toMarkup_eq, hsettings, hpieces]

/-! ### Rereading sees sketches only -/

section Sketch

variable {structural : Bool} {n : Node} {ns : List Node}

theorem Shape.reread_withDepth {α : Type} {node : α → Node} {f : α → List Node} (depth : Int)
    (s : Shape α) :
  (s.withDepth depth).reread node f = s.reread node f
  := by
  cases s <;> rfl

theorem outerWrappers_withDepth {α : Type} (w : Wrapping) (depth : Int) (s : Shape α) :
  outerWrappers w (s.withDepth depth) = outerWrappers w s
  := by
  cases s <;> rfl

theorem Node.outer_sketch (n : Node) :
  outer (sketch n) = outer n
  := by
  obtain ⟨l, s⟩ := n
  rw [sketch_mk, outer, outer, Tree.shape, Tree.shape, outerWrappers_withDepth, outerWrappers_map]
  rfl

theorem Node.plainText?_sketch (n : Node) :
  plainText? (sketch n) = plainText? n
  := by
  have houter := outer_sketch n
  obtain ⟨l, s⟩ := n
  rw [plainText?, plainText?, houter, sketch_mk]
  cases s <;> rfl

theorem plainText?_sketch (ns : List Node) :
  plainText? (ns.map Node.sketch) = plainText? ns
  := by
  induction ns with
  | nil => rfl
  | cons n ns ih => rw [List.map_cons, plainText?, plainText?, Node.plainText?_sketch, ih]

/-- What is essential in a construct are the children that a walk meets. -/
theorem Shape.allChildren_essential {α : Type} (s : Shape α) :
  s.essential.allChildren = s.children
  := by
  have hgrid : ∀ c : Grid α, c.visible.cells.flatMap (·.2) = (slots.ofGrid c).flatMap (·.2) := by
    intro c
    rw [Grid.visible, slots.ofGrid, List.flatMap_map, List.flatMap_map]
  cases s with
  | matrix t c => apply hgrid
  | stack c => apply hgrid
  | cases c => apply hgrid
  | _ => rfl

section Congr

variable {α : Type} {node node' : α → Node} {f f' : α → List Node} {s : Shape α}

/-- What a construct is read as depends on its nodes only by what they are read as, and on the
plain text of an order. -/
theorem Shape.renewed_congr (hf : ∀ a ∈ s.allChildren, f a = f' a)
    (hnode : ∀ l : List α, plainText? (l.map node) = plainText? (l.map node')) :
  s.renewed node f = s.renewed node' f'
  := by
  have hslot : ∀ l, l ⊆ s.children → l.flatMap f = l.flatMap f' := by
    intro l hl
    apply List.flatMap_congr
    intro a ha
    apply hf a (s.children_subset (hl ha))
  have hessential : ∀ l, l ⊆ s.essential.allChildren → l.flatMap f = l.flatMap f' := by
    intro l hl
    rw [allChildren_essential] at hl
    apply hslot l hl
  cases s with
  | derivative o longForm isPartial mode a b =>
    cases o with
    | number => exact mapSlotsOr_congr hessential hessential
    | sequence o =>
      have horder := hslot o (by simp [children, slots, slots.present, Order.slot?])
      have ha := hslot a (by simp [children, slots])
      have hb := hslot b (by simp [children, slots])
      rw [renewed, renewed, Order.reread, Order.reread, numeral?, numeral?, hnode, horder, ha, hb]
  | _ => exact mapSlotsOr_congr hessential hessential

theorem Shape.reread_congr (hf : ∀ a ∈ s.allChildren, f a = f' a)
    (hnode : ∀ l : List α, plainText? (l.map node) = plainText? (l.map node')) :
  s.reread node f = s.reread node' f'
  := by
  have hrenewed := renewed_congr hf hnode
  cases s with
  | text => rfl
  | _ => exact congrArg (fun s => [Node.plain 0 s]) hrenewed

end Congr

/-- A node and its sketch are read as the same. -/
theorem Node.reread_sketch (n : Node) :
  reread (sketch n) = reread n
  := by
  induction n using Tree.induction with
  | h l s ih =>
    rw [sketch_mk, reread_mk, reread_mk, outerWrappers_withDepth, outerWrappers_map,
      Shape.reread_withDepth, Shape.reread_map]
    congr 1
    apply Shape.reread_congr ih
    intro children
    exact (Formula.plainText?_sketch children).trans (congrArg _ (List.map_id children).symm)

theorem flatMap_reread_sketch (ns : List Node) :
  (ns.map Node.sketch).flatMap Node.reread = ns.flatMap Node.reread
  := by
  simp only [List.flatMap_map, Node.reread_sketch]

theorem Node.inside_sketch (n : Node) :
  inside (sketch n) = inside n
  := by
  obtain ⟨l, s⟩ := n
  rw [sketch_mk, inside, inside, Tree.shape, Tree.shape, Shape.reread_withDepth,
    Shape.reread_map]
  apply Shape.reread_congr fun n _ => reread_sketch n
  intro children
  exact (Formula.plainText?_sketch children).trans (congrArg _ (List.map_id children).symm)

theorem Node.run?_sketch (n : Node) :
  (sketch n).run? = n.run?
  := by
  obtain ⟨l, s⟩ := n
  rw [sketch_mk]
  cases s <;> rfl

theorem Node.value_sketch (n : Node) :
  (sketch n).shape.value = n.shape.value
  := by
  obtain ⟨l, s⟩ := n
  rw [sketch_mk]
  cases s <;> rfl

/-- A walk over a sketch meets the sketches of the nodes. -/
theorem walk_sketch (ns : List Node) :
  walk (ns.map Node.sketch) = (walk ns).map Node.sketch
  := by
  have hnode : ∀ n : Node, Tree.walk (Node.sketch n) = (Tree.walk n).map Node.sketch := by
    intro n
    induction n using Tree.induction with
    | h l s ih =>
      rw [Tree.walk_mk, List.map_cons, Node.sketch_mk, Tree.walk_mk, Shape.children,
        Shape.slots_withDepth, ← Shape.children, Shape.children_map, walk, walk, List.flatMap_map,
        List.map_flatMap]
      congr 1
      apply List.flatMap_congr
      intro n hn
      apply ih n (s.children_subset hn)
  rw [walk, walk, List.flatMap_map, List.map_flatMap]
  apply List.flatMap_congr
  intro n _
  apply hnode

theorem Node.exposes_sketch (n : Node) :
  exposes structural (sketch n) = exposes structural n
  := by
  induction n using Tree.induction with
  | h l s ih =>
    have hmap : s.map (exposes structural ∘ sketch) = s.map (exposes structural) :=
      Shape.map_congr ih
    have hdepth : ∀ s : Shape Bool, (s.withDepth 0).exposes structural = s.exposes structural := by
      intro s
      cases s <;> rfl
    rw [sketch_mk, exposes_mk, exposes_mk, outerWrappers_withDepth, outerWrappers_map,
      Shape.map_withDepth, Shape.map_map, hmap, hdepth]

theorem groups_sketch (ns : List Node) :
  groups (ns.map Node.sketch) = (groups ns).map (List.map Node.sketch)
  := by
  rw [groups, splitBy_map, groups]
  simp only [Node.outer_sketch]

theorem runs_sketch (ns : List Node) :
  runs (ns.map Node.sketch) = (runs ns).map (List.map Node.sketch)
  := by
  rw [runs, splitBy_map, runs]
  simp only [Node.run?_sketch]

/-- Siblings spare ampersands where their sketches do. -/
theorem SparesAmpersand.of_sketch (h : SparesAmpersand (ns.map Node.sketch)) :
  SparesAmpersand ns
  where
  group g hg n hn w hw hkind := by
    have hgroup := h.group (g.map Node.sketch)
      (groups_sketch ns ▸ List.mem_map_of_mem hg) n.sketch (by simp [Option.mem_def.1 hn]) w
      (by rwa [Node.outer_sketch]) hkind
    simpa only [List.flatMap_map, Node.inside_sketch] using hgroup
  run g hg r hr n hn F hF hformat := by
    have hrun := h.run (g.map Node.sketch) (groups_sketch ns ▸ List.mem_map_of_mem hg)
      (r.map Node.sketch) (runs_sketch g ▸ List.mem_map_of_mem hr) n.sketch
      (by simp [Option.mem_def.1 hn]) F (by rwa [Node.run?_sketch]) hformat
    simpa only [List.flatMap_map, Node.value_sketch] using hrun

theorem numeral?_sketch (ns : List Node) :
  numeral? (ns.map Node.sketch) = numeral? ns
  := by
  rw [numeral?, numeral?, plainText?_sketch]

/-- A construct is legible where its sketch is. -/
theorem Shape.Legible.of_sketch {s : Shape Node}
    (h : ((s.map Node.sketch).withDepth 0).Legible) :
  s.Legible
  := by
  cases s with
  | derivative o =>
    cases o with
    | number => exact h
    | sequence nodes =>
      intro digits hdigits
      apply h digits
      rwa [numeral?_sketch]
  | function type name argument base constraint =>
    obtain ⟨info, hinfo, hname, hbase, hconstraint, hreserved⟩ := h
    refine ⟨info, hinfo, fun hcommand => List.map_eq_nil_iff.1 (hname hcommand),
      fun hform => List.map_eq_nil_iff.1 (hbase hform),
      fun hform => List.map_eq_nil_iff.1 (hconstraint hform), ?_⟩
    intro hnone w hw
    rw [← plainText?_sketch]
    apply hreserved hnone w hw
  | script a p q => simpa [map, mapSlots, mapSlotsOr, withDepth, Legible] using h
  | integral t st l m a b p q => simpa [map, mapSlots, mapSlotsOr, withDepth, Legible] using h
  | accent t p a l => simpa [map, mapSlots, mapSlotsOr, withDepth, Legible] using h
  | _ => exact h

/-- Slots spare ampersands where those of the sketch do. -/
theorem Node.spares_of_sketch
    (h : ∀ slot ∈ (sketch n).shape.slots, SparesAmpersand slot.2) :
  ∀ slot ∈ n.shape.slots, SparesAmpersand slot.2
  := by
  obtain ⟨l, s⟩ := n
  rw [sketch_mk, Tree.shape, Shape.slots_withDepth, Shape.slots_map] at h
  intro slot hslot
  apply SparesAmpersand.of_sketch
  apply h (slot.1, slot.2.map sketch) (List.mem_map_of_mem hslot)

/-- Cells expose no ampersand where those of the sketch do not. -/
theorem Node.cells_of_sketch
    (h : (sketch n).shape.grid?.isSome →
      ∀ slot ∈ (sketch n).shape.slots, ∀ k ∈ slot.2, exposes structural k = false) :
  n.shape.grid?.isSome → ∀ slot ∈ n.shape.slots, ∀ k ∈ slot.2, exposes structural k = false
  := by
  obtain ⟨l, s⟩ := n
  rw [sketch_mk, Tree.shape, Shape.slots_withDepth, Shape.slots_map] at h
  intro hgrid slot hslot k hk
  rw [← exposes_sketch]
  apply h _ (slot.1, slot.2.map sketch) (List.mem_map_of_mem hslot) _ (List.mem_map_of_mem hk)
  cases s <;> first | contradiction | exact hgrid

theorem Node.Legible.of_sketch (h : (sketch n).Legible structural) :
  n.Legible structural
  := by
  have hspares := spares_of_sketch h.spares
  have hcells := cells_of_sketch h.cells
  obtain ⟨houter, hnodup, hshape, -, -⟩ := h
  rw [outer_sketch] at houter hnodup
  obtain ⟨l, s⟩ := n
  rw [sketch_mk, Tree.shape] at hshape
  exact ⟨houter, hnodup, hshape.of_sketch, hspares, hcells⟩

/-- An equation is legible where its sketch is. -/
theorem Legible.of_sketch (h : Legible structural (ns.map Node.sketch)) :
  Legible structural ns
  where
  spares := h.spares.of_sketch
  nodes n hn := by
    apply Node.Legible.of_sketch
    apply h.nodes
    rw [walk_sketch]
    apply List.mem_map_of_mem hn

end Sketch

end Formula
