import Formula.Converter
import Formula.Proofs.Canonical

/-!
# What the canonical form does not see

The canonical form of an equation does not depend on the identifiers of its nodes, nor on
the stored depths of its brackets.
-/

namespace Formula

/-! ### Storing depths -/

section Depths

variable {α β γ : Type}

theorem Shape.mapSlotsOr_map (g : α → β) (F G : List β → List γ) (s : Shape α) :
  (s.map g).mapSlotsOr F G = s.mapSlotsOr (fun l => F (l.map g)) (fun l => G (l.map g))
  := by
  have hgrid : ∀ c : Grid α,
      mapSlotsOr.grid F G (mapSlotsOr.grid (List.map g) (List.map g) c)
        = mapSlotsOr.grid (fun l => F (l.map g)) (fun l => G (l.map g)) c := by
    intro c
    simp only [mapSlotsOr.grid, List.map_map, ite_self]
    rfl
  cases s with
  | derivative o => cases o <;> simp [map, mapSlots, mapSlotsOr, mapSlotsOr.order]
  | _ => simp [map, mapSlots, mapSlotsOr, hgrid, Function.comp_def]

theorem Shape.slots_withDepth (depth : Int) (s : Shape α) :
  (s.withDepth depth).slots = s.slots
  := by
  cases s <;> rfl

theorem Shape.innerDepth_map (g : α → β) (s : Shape α) (depth : Nat) :
  (s.map g).innerDepth depth = s.innerDepth depth
  := by
  cases s <;> rfl

end Depths

theorem Node.renest_mk (l : Label) (s : Shape Node) (depth : Nat) :
  renest (.mk l s) depth = .mk l ((s.mapSlotsOr
    (List.map fun child => renest child (s.innerDepth depth)) id).withDepth depth)
  := by
  rw [renest, Tree.para_mk, Shape.innerDepth_map, Shape.mapSlotsOr_map]
  simp only [List.map_map, Function.comp_def, List.map_id']
  rfl

/-! ### Forms -/

/-- Constructs that have the same essence have the same form. -/
theorem Node.form_congr {l l' : Label} {s s' : Shape Node} {h : List Node → List Node}
    (hessential : s'.essential = s.essential.mapSlots h)
    (hwrappers : formWrappers l'.wrapping s' = formWrappers l.wrapping s)
    (hslots : ∀ slot ∈ s.slots, canonicalForm (h slot.2) = canonicalForm slot.2) :
  form (.mk l' s') = form (.mk l s)
  := by
  have hessence : ∀ s : Shape Node, s.essential.isSymbolic = s.isSymbolic := by
    intro s
    cases s with
    | derivative o => cases o <;> rfl
    | _ => rfl
  have hmap : ∀ s : Shape Node, (s.mapSlots h).isSymbolic = s.isSymbolic := by
    intro s
    cases s with
    | derivative o => cases o <;> rfl
    | _ => rfl
  have hsame : s'.isSymbolic = s.isSymbolic := by
    rw [← hessence s', hessential, hmap, hessence]
  cases hsymbolic : s.isSymbolic with
  | false =>
    rw [form_mk _ (hsame.trans hsymbolic), form_mk _ hsymbolic, hwrappers, hessential,
      Shape.mapSlotsM_congr hslots]
  | true =>
    cases s with
    | derivative o longForm isPartial mode a b =>
      cases o with
      | number => contradiction
      | sequence o =>
        have hs' : s' = .derivative (.sequence (h o)) longForm isPartial mode (h a) (h b) := by
          cases s' <;> first | exact hessential | cases hessential
        subst hs'
        rw [form_symbolic, form_symbolic, hwrappers]
        rw [hslots (.order, o) (by simp [Shape.slots, Order.slot?, Shape.slots.present]),
          hslots (.function, a) (by simp [Shape.slots]),
          hslots (.differentials, b) (by simp [Shape.slots])]
    | _ => contradiction

theorem canonicalForm_map_congr {f : Node → Node} {ns : List Node}
    (h : ∀ n ∈ ns, Node.form (f n) = Node.form n) :
  canonicalForm (ns.map f) = canonicalForm ns
  := by
  have hforms : ns.mapM (Node.form ∘ f) = ns.mapM Node.form := by
    induction ns with
    | nil => rfl
    | cons n ns ih =>
      rw [List.mapM_cons, List.mapM_cons, ih fun n hn => h n (List.mem_cons_of_mem _ hn),
        Function.comp, h n List.mem_cons_self]
  rw [canonicalForm, List.mapM_map, hforms, canonicalForm]

/-- The form does not depend on identifiers. -/
theorem Node.form_bare (n : Node) :
  form (bare n) = form n
  := by
  induction n using Tree.induction with
  | h l s ih =>
    rw [bare_mk]
    apply form_congr (Shape.essential_mapSlots rfl s) (formWrappers_map _ _ _)
    intro slot hslot
    apply canonicalForm_map_congr
    intro n hn
    apply ih n (Shape.children_subset s (List.mem_flatMap.2 ⟨slot, hslot, hn⟩))

/-- The form does not depend on depths. -/
theorem Node.form_renest (n : Node) (depth : Nat) :
  form (renest n depth) = form n
  := by
  induction n using Tree.induction generalizing depth with
  | h l s ih =>
    rw [renest_mk]
    apply form_congr (Shape.essential_mapSlotsOr rfl depth s)
    · cases s <;> rfl
    · intro slot hslot
      apply canonicalForm_map_congr
      intro n hn
      apply ih n (Shape.children_subset s (List.mem_flatMap.2 ⟨slot, hslot, hn⟩))

theorem canonicalForm_bare (ns : List Node) :
  canonicalForm (ns.map Node.bare) = canonicalForm ns
  := canonicalForm_map_congr fun n _ => Node.form_bare n

theorem canonicalForm_renest (ns : List Node) :
  canonicalForm (renest ns) = canonicalForm ns
  := canonicalForm_map_congr fun n _ => Node.form_renest n 0

/-- The nodes with the depths of brackets stored, if they are to be. -/
def Config.store (config : Config) (ns : List Node) : List Node :=
  if config.storeNesting then renest ns else ns

theorem Config.canonicalForm_store (config : Config) (ns : List Node) :
  canonicalForm (config.store ns) = canonicalForm ns
  := by
  rw [store]
  split
  · apply canonicalForm_renest
  · rfl

end Formula
