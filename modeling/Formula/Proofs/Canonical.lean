import Formula.Proofs.Siblings

/-!
# Canonical forms of reread equations

What a legible equation is read as after it is written has the canonical form of the
equation.  The form does not see identifiers and depths either.
-/

namespace Formula

open Writing

/-! ### Wrappers -/

namespace Wrapping

/-- The wrapping in which these wrappers were applied in order. -/
def ofWrappers (ws : List Wrapper) : Wrapping := ws.foldl (fun w x => w.put x.1 x.2) {}

variable {w : Wrapping} {x : Wrapper}

/-- A clean wrapper that is new is read as it is. -/
theorem reread_eq_put (hx : x.Clean) (hnew : w.params.get? x.1 = none) :
  w.reread x = w.put x.1 x.2
  := by
  cases hx with
  | underline style =>
    have hunderline : w.params.underline = none := hnew
    have hwrap : w.wrap .underline .none = w.put .underline (.style .single) := by
      rw [Wrapping.wrap, if_pos rfl, hunderline]
    cases style with
    | single => apply hwrap
    | double =>
      have horder : (w.put .underline (.style .single)).order.getLast? = some .underline := by
        simp [put, WrapperParams.get?, hunderline]
      have hparam : (w.put .underline (.style .single)).params.underline
          = some (.style .single) := rfl
      change (w.wrap .underline .none).wrap .underline .none = _
      rw [hwrap, Wrapping.wrap, if_pos rfl, hparam]
      simp only [horder, decide_true, Bool.and_true]
      simp [put, WrapperParams.get?, WrapperParams.set, hunderline]
  | cancel => rfl
  | color => rfl
  | textMode => rfl

/-- Applying a wrapper leaves those of other kinds out. -/
theorem get?_put_eq_none {x : Wrapper} {ws : List Wrapper}
    (hnodup : ((x :: ws).map (·.1)).Nodup) (hnew : ∀ y ∈ x :: ws, w.params.get? y.1 = none) :
  ∀ y ∈ ws, (w.put x.1 x.2).params.get? y.1 = none
  := by
  intro y hy
  rw [List.map_cons, List.nodup_cons] at hnodup
  have hne : y.1 ≠ x.1 := by
    intro heq
    apply hnodup.1
    rw [← heq]
    apply List.mem_map_of_mem hy
  rw [put, WrapperParams.get?_set, if_neg hne]
  apply hnew y (List.mem_cons_of_mem _ hy)

/-- Clean wrappers of different kinds are read as they are. -/
theorem foldl_reread {ws : List Wrapper} (hws : ∀ x ∈ ws, x.Clean) (hnodup : (ws.map (·.1)).Nodup)
    (hnew : ∀ x ∈ ws, w.params.get? x.1 = none) :
  ws.foldl reread w = ws.foldl (fun w x => w.put x.1 x.2) w
  := by
  induction ws generalizing w with
  | nil => rfl
  | cons x ws ih =>
    have hrest := get?_put_eq_none hnodup hnew
    rw [List.map_cons, List.nodup_cons] at hnodup
    rw [List.foldl_cons, List.foldl_cons,
      reread_eq_put (hws x List.mem_cons_self) (hnew x List.mem_cons_self)]
    apply ih (fun x hx => hws x (List.mem_cons_of_mem _ hx)) hnodup.2 hrest

/-- Clean wrappers of different kinds are read as they were applied. -/
theorem foldl_reread_empty {ws : List Wrapper} (hws : ∀ x ∈ ws, x.Clean)
    (hnodup : (ws.map (·.1)).Nodup) :
  ws.foldl reread {} = ofWrappers ws
  := by
  apply foldl_reread hws hnodup
  intro x _
  cases x.1 <;> rfl

/-- The wrappers of a wrapping are those that were applied. -/
theorem order_foldl_put {ws : List Wrapper} (hnodup : (ws.map (·.1)).Nodup)
    (hnew : ∀ x ∈ ws, w.params.get? x.1 = none) :
  (ws.foldl (fun w x => w.put x.1 x.2) w).order = w.order ++ ws.map (·.1)
    ∧ (∀ x ∈ ws, (ws.foldl (fun w x => w.put x.1 x.2) w).params.get? x.1 = some x.2)
    ∧ ∀ kind, kind ∉ ws.map (·.1) →
      (ws.foldl (fun w x => w.put x.1 x.2) w).params.get? kind = w.params.get? kind
  := by
  induction ws generalizing w with
  | nil => simp
  | cons x ws ih =>
    have hrest := get?_put_eq_none hnodup hnew
    rw [List.map_cons, List.nodup_cons] at hnodup
    obtain ⟨horder, hparams, hother⟩ := ih hnodup.2 hrest
    rw [List.foldl_cons]
    refine ⟨?_, ?_, ?_⟩
    · rw [horder, List.map_cons, put, hnew x List.mem_cons_self]
      simp
    · intro y hy
      rcases List.mem_cons.1 hy with rfl | hy
      · rw [hother _ hnodup.1, put, WrapperParams.get?_set, if_pos rfl]
      · apply hparams y hy
    · intro kind hkind
      rw [List.map_cons, List.mem_cons, not_or] at hkind
      rw [hother kind hkind.2, put, WrapperParams.get?_set, if_neg hkind.1]

/-- Around a construct without wrappers of its own stand the wrappers that were applied. -/
theorem outerWrappers_ofWrappers {α : Type} {ws : List Wrapper} {s : Shape α}
    (hnodup : (ws.map (·.1)).Nodup) (hs : attributeWrappers s = []) :
  outerWrappers (ofWrappers ws) s = ws
  := by
  obtain ⟨horder, hparams, -⟩ := order_foldl_put (w := {}) hnodup fun x _ => by
    cases x.1 <;> rfl
  rw [outerWrappers, hs, ofWrappers, horder]
  simp only [List.map_nil, List.contains_nil, Bool.not_false, List.filter_true, List.nil_append,
    List.map_map]
  conv => rhs; rw [← List.map_id ws]
  apply List.map_congr_left
  intro x hx
  simp only [Function.comp, id, param, hparams x hx, Option.getD_some]

end Wrapping

/-! ### Essential constructs -/

section Essential

variable {α β γ : Type}

theorem Grid.visible_mapSlotsOr {f g : List α → List β} (hf : f [] = []) (c : Grid α) :
  (Shape.mapSlotsOr.grid f g c).visible = Shape.mapSlotsOr.grid f f c.visible
  := by
  simp only [visible, Shape.mapSlotsOr.grid, List.map_map]
  congr 1
  apply List.map_congr_left
  intro at_ hat
  simp only [Function.comp, Prod.mk.injEq, true_and]
  apply Eq.trans (cell_mapSlotsOr hf c hat)
  symm
  apply ite_self

theorem lookup_map_self {k : Nat × Nat} {l : List (Nat × Nat)} (h : k ∈ l)
    (f : Nat × Nat → List α) :
  (l.map fun k => (k, f k)).lookup k = some (f k)
  := by
  induction l with
  | nil => contradiction
  | cons a l ih =>
    rw [List.map_cons, List.lookup_cons]
    split
    · rename_i hk
      rw [eq_of_beq hk]
    · rename_i hk
      rcases List.mem_cons.1 h with rfl | h
      · simp at hk
      · apply ih h

theorem Grid.visible_visible (c : Grid α) :
  c.visible.visible = c.visible
  := by
  have hcoordinates : c.visible.coordinates = c.coordinates := rfl
  rw [visible, hcoordinates]
  conv => rhs; rw [visible]
  congr 1
  apply List.map_congr_left
  intro at_ hat
  simp only [cell, visible, Prod.mk.injEq, true_and]
  rw [lookup_map_self hat, Option.getD_some]

/-- Only what is essential is left of a construct whose slots are changed. -/
theorem Shape.essential_mapSlotsOr {f g : List α → List β} (hf : f [] = []) (depth : Int)
    (s : Shape α) :
  ((s.mapSlotsOr f g).withDepth depth).essential = s.essential.mapSlots f
  := by
  cases s with
  | matrix t c => simp [mapSlotsOr, withDepth, essential, mapSlots, Grid.visible_mapSlotsOr hf]
  | stack c => simp [mapSlotsOr, withDepth, essential, mapSlots, Grid.visible_mapSlotsOr hf]
  | cases c => simp [mapSlotsOr, withDepth, essential, mapSlots, Grid.visible_mapSlotsOr hf]
  | _ => rfl

theorem Shape.essential_mapSlots {f : List α → List β} (hf : f [] = []) (s : Shape α) :
  (s.mapSlots f).essential = s.essential.mapSlots f
  := by
  cases s with
  | matrix t c => simp [essential, mapSlots, mapSlotsOr, Grid.visible_mapSlotsOr hf]
  | stack c => simp [essential, mapSlots, mapSlotsOr, Grid.visible_mapSlotsOr hf]
  | cases c => simp [essential, mapSlots, mapSlotsOr, Grid.visible_mapSlotsOr hf]
  | _ => rfl

@[simp]
theorem Shape.essential_essential (s : Shape α) :
  s.essential.essential = s.essential
  := by
  cases s with
  | matrix t c => simp [essential, Grid.visible_visible]
  | stack c => simp [essential, Grid.visible_visible]
  | cases c => simp [essential, Grid.visible_visible]
  | _ => rfl

/-- A computation on the changed slots of a construct depends only on the slots that a walk
meets. -/
theorem Shape.mapSlotsM_congr {ε : Type} {f : List α → Except ε (List γ)} {h : List α → List β}
    {g : List β → Except ε (List γ)} {s : Shape α}
    (hslots : ∀ slot ∈ s.slots, g (h slot.2) = f slot.2) :
  (s.essential.mapSlots h).mapSlotsM g = s.essential.mapSlotsM f
  := by
  have hoptional : ∀ (n : SlotName) (p : Option (List α)),
      (∀ slot ∈ slots.present n p, slot ∈ s.slots) →
      mapSlotsM.optional g (p.map h) = mapSlotsM.optional f p := by
    intro n p hp
    cases p with
    | none => rfl
    | some a =>
      have := hslots _ (hp _ List.mem_cons_self)
      simp only [Option.map_some, mapSlotsM.optional, this]
  have hcells : ∀ (change : (Nat × Nat) × List α → (Nat × Nat) × List β),
      (∀ k s, change (k, s) = (k, h s)) →
      ∀ cells : List ((Nat × Nat) × List α), (∀ entry ∈ cells, g (h entry.2) = f entry.2) →
      mapSlotsM.cells g (cells.map change) = mapSlotsM.cells f cells := by
    intro change hchange cells hcells
    induction cells with
    | nil => rfl
    | cons entry rest ih =>
      obtain ⟨k, s⟩ := entry
      simp only [List.map_cons, hchange, mapSlotsM.cells, hcells (k, s) List.mem_cons_self,
        ih fun entry hentry => hcells entry (List.mem_cons_of_mem _ hentry)]
  have hgrid : ∀ c : Grid α, (∀ slot ∈ slots.ofGrid c, slot ∈ s.slots) →
      mapSlotsM.grid g (mapSlotsOr.grid h h c.visible) = mapSlotsM.grid f c.visible := by
    intro c hc
    simp only [mapSlotsM.grid, mapSlotsOr.grid, ite_self]
    rw [hcells _ fun _ _ => rfl]
    intro entry hentry
    obtain ⟨at_, hat, rfl⟩ := List.mem_map.1 hentry
    apply hslots _ (hc _ (List.mem_map.2 ⟨at_, hat, rfl⟩))
  have hslot : ∀ n a, (n, a) ∈ s.slots → g (h a) = f a := fun n a hmem => hslots (n, a) hmem
  -- what the slots are changed to is computed, and they are met in the same order on both sides
  cases s with
  | text => rfl
  | fraction m a b =>
    change mapSlotsM g (.fraction m (h a) (h b)) = mapSlotsM f (.fraction m a b)
    rw [mapSlotsM, mapSlotsM, hslot .numerator a (by simp [slots]),
      hslot .denominator b (by simp [slots])]
  | bevelledFraction m a b =>
    change mapSlotsM g (.bevelledFraction m (h a) (h b)) = mapSlotsM f (.bevelledFraction m a b)
    rw [mapSlotsM, mapSlotsM, hslot .numerator a (by simp [slots]),
      hslot .denominator b (by simp [slots])]
  | sqrt a =>
    change mapSlotsM g (.sqrt (h a)) = mapSlotsM f (.sqrt a)
    rw [mapSlotsM, mapSlotsM, hslot .radicand a (by simp [slots])]
  | nthRoot a b =>
    change mapSlotsM g (.nthRoot (h a) (h b)) = mapSlotsM f (.nthRoot a b)
    rw [mapSlotsM, mapSlotsM, hslot .index a (by simp [slots]),
      hslot .radicand b (by simp [slots])]
  | script a p q =>
    change mapSlotsM g (.script (h a) (p.map h) (q.map h)) = mapSlotsM f (.script a p q)
    rw [mapSlotsM, mapSlotsM, hslot .base a (by simp [slots]),
      hoptional .superscript p (by simp +contextual [slots]),
      hoptional .subscript q (by simp +contextual [slots])]
  | bracket l r c d scale p q =>
    change mapSlotsM g (.bracket l r (h c) 0 none (p.map h) (q.map h))
      = mapSlotsM f (.bracket l r c 0 none p q)
    rw [mapSlotsM, mapSlotsM, hslot .content c (by simp [slots]),
      hoptional .superscript p (by simp +contextual [slots]),
      hoptional .subscript q (by simp +contextual [slots])]
  | largeOperator o l m a b c =>
    change mapSlotsM g (.largeOperator o l m (h a) (h b) (h c))
      = mapSlotsM f (.largeOperator o l m a b c)
    rw [mapSlotsM, mapSlotsM, hslot .lower a (by simp [slots]), hslot .upper b (by simp [slots]),
      hslot .operand c (by simp [slots])]
  | derivative o l p m a b =>
    have horder : mapSlotsM.order g (mapSlotsOr.order h o) = mapSlotsM.order f o := by
      cases o with
      | number => rfl
      | sequence order =>
        rw [mapSlotsOr.order, mapSlotsM.order, mapSlotsM.order,
          hslot .order order (by simp [slots, Order.slot?, slots.present])]
    change mapSlotsM g (.derivative (mapSlotsOr.order h o) l p m (h a) (h b))
      = mapSlotsM f (.derivative o l p m a b)
    rw [mapSlotsM, mapSlotsM, horder, hslot .function a (by simp [slots]),
      hslot .differentials b (by simp [slots])]
  | integral t style l m a b p q =>
    change mapSlotsM g (.integral t style l m (h a) (h b) (p.map h) (q.map h))
      = mapSlotsM f (.integral t style l m a b p q)
    rw [mapSlotsM, mapSlotsM, hslot .integrand a (by simp [slots]),
      hslot .differentials b (by simp [slots]), hoptional .lower p (by simp +contextual [slots]),
      hoptional .upper q (by simp +contextual [slots])]
  | matrix t c =>
    change mapSlotsM g (.matrix t (mapSlotsOr.grid h h c.visible)) = mapSlotsM f (.matrix t c.visible)
    rw [mapSlotsM, mapSlotsM, hgrid c fun _ h => h]
  | stack c =>
    change mapSlotsM g (.stack (mapSlotsOr.grid h h c.visible)) = mapSlotsM f (.stack c.visible)
    rw [mapSlotsM, mapSlotsM, hgrid c fun _ h => h]
  | cases c =>
    change mapSlotsM g (.cases (mapSlotsOr.grid h h c.visible)) = mapSlotsM f (.cases c.visible)
    rw [mapSlotsM, mapSlotsM, hgrid c fun _ h => h]
  | accent t p a l =>
    change mapSlotsM g (.accent t p (h a) (l.map h)) = mapSlotsM f (.accent t p a l)
    rw [mapSlotsM, mapSlotsM, hslot .base a (by simp [slots]),
      hoptional .label l (by simp +contextual [slots])]
  | function t a b c d =>
    change mapSlotsM g (.function t (h a) (h b) (h c) (h d)) = mapSlotsM f (.function t a b c d)
    rw [mapSlotsM, mapSlotsM, hslot .name a (by simp [slots]), hslot .argument b (by simp [slots]),
      hslot .base c (by simp [slots]), hslot .constraint d (by simp [slots])]

end Essential

/-! ### Forms of nodes -/

/-- Whether a construct is a derivative whose order is an expression. -/
def Shape.isSymbolic {α : Type} : Shape α → Bool
  | .derivative (.sequence _) _ _ _ _ _ => true
  | _ => false

/-- All wrappers of a construct as they stand in its canonical form. -/
def formWrappers {α : Type} (w : Wrapping) (s : Shape α) : List Wrapper :=
  (attributeWrappers s ++ outerWrappers w s).map fun (kind, param) => (kind, param.named)

theorem formWrappers_map {α β : Type} (f : α → β) (w : Wrapping) (s : Shape α) :
  formWrappers w (s.map f) = formWrappers w s
  := by
  rw [formWrappers, outerWrappers_map, formWrappers]
  cases s <;> rfl

theorem Node.form_slot (ns : List Node) :
  form.slot (ns.map form) = canonicalForm ns
  := by
  rw [form.slot, List.mapM_map]
  rfl

/-- The form of a construct, given those of its slots. -/
theorem Node.form_mk (l : Label) {s : Shape Node} (hs : s.isSymbolic = false) :
  form (.mk l s) = (do return .mk (formWrappers l.wrapping s) (← s.essential.mapSlotsM canonicalForm))
  := by
  have hslots : (s.map form).essential.mapSlotsM form.slot = s.essential.mapSlotsM canonicalForm := by
    rw [Shape.map, Shape.essential_mapSlots rfl]
    apply Shape.mapSlotsM_congr
    intro slot _
    apply form_slot
  rw [form, Tree.fold_mk, ← form, ← hslots, ← formWrappers_map form l.wrapping s]
  cases s with
  | derivative o =>
    cases o with
    | number n => rfl
    | sequence => contradiction
  | _ => rfl

/-- The form of a derivative whose order is an expression. -/
theorem Node.form_symbolic (l : Label) (o a b : List Node) (longForm isPartial : Bool)
    (mode : DisplayMode) :
  form (.mk l (.derivative (.sequence o) longForm isPartial mode a b)) = do
    let order ← Form.normalOrder (← canonicalForm o)
    return .mk (formWrappers l.wrapping (.derivative (.sequence o) longForm isPartial mode a b))
      (.derivative order longForm isPartial mode (← canonicalForm a) (← canonicalForm b))
  := by
  rw [form, Tree.fold_mk, ← form]
  simp only [← form_slot]
  rfl

/-! ### Joining -/

@[simp]
theorem Form.text?_ofText (W : List Wrapper) (value : Text) (format : TextFormat) :
  text? (ofText W value format) = some (value, format)
  := rfl

@[simp]
theorem Form.label_ofText (W : List Wrapper) (value : Text) (format : TextFormat) :
  (ofText W value format).label = W
  := rfl

/-- The form of a text that is cut in two is that of the whole. -/
theorem Form.join_join_ofText (W : List Wrapper) (value value' : Text) (format : TextFormat)
    (fs : List Form) :
  join (ofText W value format) (join (ofText W value' format) fs)
    = join (ofText W (value ++ value') format) fs
  := by
  cases value with
  | nil => rfl
  | cons c cs =>
    cases value' with
    | nil =>
      rw [List.append_nil]
      rfl
    | cons d ds =>
      cases fs with
      | nil => simp [join]
      | cons g gs =>
        cases hg : text? g with
        | none => simp [join, hg]
        | some text =>
          by_cases hformat : format = text.2
          · by_cases hlabel : W = g.label
            · simp [join, hg, hformat, hlabel]
            · simp [join, hg, hformat, hlabel]
          · simp [join, hg, hformat]

/-- A text that is cut into characters has the form of the whole. -/
theorem foldr_join_chars (W : List Wrapper) (fmt : TextFormat) (v : Text) (fs : List Form) :
  (v.map fun c => Form.ofText W [c] fmt).foldr Form.join fs = Form.join (Form.ofText W v fmt) fs
  := by
  induction v with
  | nil => rfl
  | cons c cs ih =>
    rw [List.map_cons, List.foldr_cons, ih, Form.join_join_ofText, List.singleton_append]

theorem canonicalForm_cons (n : Node) (ns : List Node) :
  canonicalForm (n :: ns) = do
    let f ← Node.form n
    let fs ← canonicalForm ns
    return Form.join f fs
  := by
  rw [canonicalForm, List.mapM_cons]
  rcases Node.form n with e | f
  · rfl
  · rcases hns : ns.mapM Node.form with e | fs
    · rw [canonicalForm, hns]
      rfl
    · rw [canonicalForm, hns]
      rfl

theorem canonicalForm_append (a b : List Node) :
  canonicalForm (a ++ b) = do
    let gs ← a.mapM Node.form
    let fs ← canonicalForm b
    return gs.foldr Form.join fs
  := by
  induction a with
  | nil =>
    rw [List.nil_append, List.mapM_nil]
    rcases canonicalForm b with e | fs <;> rfl
  | cons n a ih =>
    rw [List.cons_append, canonicalForm_cons, ih, List.mapM_cons]
    rcases Node.form n with e | f
    · rfl
    · rcases a.mapM Node.form with e | gs
      · rfl
      · rcases canonicalForm b with e | fs <;> rfl

/-- A node is read as nodes that have its form, or that are joined to it. -/
def KeepsForm (n : Node) : Prop :=
  (∃ f gs, Node.form n = .ok f ∧ (Node.reread n).mapM Node.form = .ok gs
    ∧ ∀ fs, gs.foldr Form.join fs = Form.join f fs)
  ∨ ∃ n', Node.reread n = [n'] ∧ Node.form n' = Node.form n

/-- Siblings keep their canonical form if each of them does. -/
theorem canonicalForm_flatMap {ns : List Node} (h : ∀ n ∈ ns, KeepsForm n) :
  canonicalForm (ns.flatMap Node.reread) = canonicalForm ns
  := by
  induction ns with
  | nil => rfl
  | cons n ns ih =>
    have hns := ih fun n hn => h n (List.mem_cons_of_mem _ hn)
    rw [List.flatMap_cons, canonicalForm_cons, ← hns]
    rcases h n List.mem_cons_self with ⟨f, gs, hf, hgs, hjoin⟩ | ⟨n', hreread, hform⟩
    · rw [canonicalForm_append, hf, hgs]
      rcases canonicalForm (ns.flatMap Node.reread) with e | fs
      · rfl
      · change Except.ok _ = Except.ok _
        rw [hjoin]
    · rw [hreread, List.singleton_append, canonicalForm_cons, hform]

/-! ### Rereading keeps the form -/

section Keeps

variable {structural : Bool} {n : Node}

/-- The wrappers around a node, and the color if it is text, are written and read as they are. -/
structure Node.IsDecorated (n : Node) : Prop where
  outer : ∀ w ∈ n.outer, w.Clean
  nodup : (n.outer.map (·.1)).Nodup
  color {v : Text} {f : TextFormat} {scale : Option Scale} :
    n.shape = .text v f scale → ∀ c ∈ f.color, CleanColor c

theorem Node.Legible.isDecorated (h : n.Legible structural) :
  n.IsDecorated
  where
  outer := h.outer
  nodup := h.nodup
  color hshape := by
    have hlegible := h.shape
    rw [hshape] at hlegible
    apply hlegible.2

/-- The attributes of a text stand for wrappers of different kinds. -/
theorem attributes_eq {f : TextFormat} (h : ∀ c ∈ f.color, CleanColor c) :
  attributeCommandsOf f = f.wrappers ∧ (∀ w ∈ f.wrappers, w.Clean) ∧ (f.wrappers.map (·.1)).Nodup
  := by
  obtain ⟨bold, italic, underline, strikethrough, color, textMode⟩ := f
  have hcolor : color.filter (!·.isEmpty) = color := by
    cases color with
    | none => rfl
    | some c =>
      rw [Option.filter_some, if_pos]
      have := (h c rfl).ne_nil
      cases c with
      | nil => contradiction
      | cons => rfl
  refine ⟨?_, ?_, ?_⟩
  · simp only [attributeCommandsOf, TextFormat.wrappers, hcolor]
  · intro w hw
    simp only [TextFormat.wrappers, hcolor, List.mem_append, List.mem_map, Option.mem_toList] at hw
    rcases hw with ((⟨s, -, rfl⟩ | hw) | ⟨c, hc, rfl⟩) | hw
    · apply Wrapper.Clean.underline
    · split at hw
      · rw [List.mem_singleton.1 hw]
        apply Wrapper.Clean.cancel
      · contradiction
    · apply Wrapper.Clean.color (h c hc)
    · split at hw
      · rw [List.mem_singleton.1 hw]
        apply Wrapper.Clean.textMode
      · contradiction
  · simp only [TextFormat.wrappers, hcolor]
    cases underline <;> cases strikethrough <;> cases color <;> cases textMode <;> simp

/-- The wrappers that are written around a text and around its run. -/
def textWrappers (l : Label) (v : Text) (f : TextFormat) (scale : Option Scale) : List Wrapper :=
  attributeCommandsOf f ++ outerWrappers l.wrapping (.text v f scale : Shape Node)

/-- The wrappers that are written around a text and around its run are those of its form. -/
theorem wrappers_text {l : Label} {v : Text} {f : TextFormat} {scale : Option Scale}
    (h : Node.IsDecorated (.mk l (.text v f scale))) :
  (∀ w ∈ textWrappers l v f scale, w.Clean)
    ∧ ((textWrappers l v f scale).map (·.1)).Nodup
    ∧ formWrappers l.wrapping (.text v f scale : Shape Node)
      = (textWrappers l v f scale).map fun (kind, param) => (kind, param.named)
  := by
  obtain ⟨heq, hclean, hnodup⟩ := attributes_eq (h.color rfl)
  rw [textWrappers, heq]
  refine ⟨?_, ?_, rfl⟩
  · intro w hw
    rcases List.mem_append.1 hw with hw | hw
    · apply hclean w hw
    · apply h.outer w hw
  · rw [List.map_append, List.nodup_append]
    refine ⟨hnodup, h.nodup, ?_⟩
    rintro kind hkind _ hkind' rfl
    obtain ⟨w, hw, rfl⟩ := List.mem_map.1 hkind'
    simp only [outerWrappers, attributeWrappers, List.mem_map, List.mem_filter] at hw
    obtain ⟨kind, ⟨-, hnot⟩, rfl⟩ := hw
    simp only [List.contains_eq_mem, Bool.not_eq_true', decide_eq_false_iff_not] at hnot
    apply hnot hkind

theorem enwrap_plain (ws : List Wrapper) (s : Shape Node) :
  Node.enwrap ws (.plain 0 s) = .mk { id := 0, wrapping := ws.foldl Wrapping.reread {} } s
  := rfl

/-- A text is read as its characters, with all its wrappers around each of them. -/
theorem reread_text {l : Label} {v : Text} {f : TextFormat} {scale : Option Scale}
    (h : Node.IsDecorated (.mk l (.text v f scale))) :
  Node.reread (.mk l (.text v f scale)) = v.map fun c =>
    .mk { id := 0, wrapping := .ofWrappers (textWrappers l v f scale) }
      (.text [c] { bold := f.bold, italic := f.italic } none)
  := by
  obtain ⟨hclean, hnodup, -⟩ := wrappers_text h
  rw [Node.reread_mk, ← Wrapping.foldl_reread_empty hclean hnodup]
  simp only [Shape.reread, textReread, List.map_map, textWrappers, List.foldl_append]
  rfl

/-- A legible construct is read as the construct of what its nodes are read as, with all its
wrappers around it. -/
theorem reread_construct {l : Label} {s : Shape Node} (h : Node.Legible structural (.mk l s))
    (hs : s.isText = false) :
  Node.reread (.mk l s)
    = [.mk { id := 0, wrapping := .ofWrappers (outerWrappers l.wrapping s) }
        (s.renewed id Node.reread)]
  := by
  have hreread : s.reread id Node.reread = [.plain 0 (s.renewed id Node.reread)] := by
    cases s <;> first | contradiction | rfl
  have hfold : (outerWrappers l.wrapping s).foldl Wrapping.reread {}
      = .ofWrappers (outerWrappers l.wrapping s) := Wrapping.foldl_reread_empty h.outer h.nodup
  rw [Node.reread_mk, hreread, List.map_singleton, enwrap_plain, hfold]

/-- A text keeps its form. -/
theorem KeepsForm.text {l : Label} {v : Text} {f : TextFormat} {scale : Option Scale}
    (h : Node.IsDecorated (.mk l (.text v f scale))) :
  KeepsForm (.mk l (.text v f scale))
  := by
  obtain ⟨-, hnodup, hwrappers⟩ := wrappers_text h
  have hform : ∀ (l : Label) (v : Text) (f : TextFormat) (scale : Option Scale),
      Node.form (.mk l (.text v f scale)) = .ok (Form.ofText
        (formWrappers l.wrapping (.text v f scale : Shape Node)) v
        { bold := f.bold, italic := f.italic }) := by
    intro l v f scale
    rw [Node.form_mk l rfl]
    rfl
  have hchar : ∀ c : Char, formWrappers (.ofWrappers (textWrappers l v f scale))
      (.text [c] { bold := f.bold, italic := f.italic } none : Shape Node)
        = (textWrappers l v f scale).map fun (kind, param) => (kind, param.named) := by
    intro c
    rw [formWrappers, Wrapping.outerWrappers_ofWrappers hnodup rfl]
    rfl
  left
  refine ⟨_, v.map fun c => Form.ofText
    ((textWrappers l v f scale).map fun (kind, param) => (kind, param.named)) [c]
    { bold := f.bold, italic := f.italic }, hform l v f scale, ?_, ?_⟩
  · rw [reread_text h, List.mapM_map]
    apply mapM_eq_ok
    intro c _
    simp only [Function.comp]
    rw [hform, hchar]
  · intro fs
    rw [foldr_join_chars, hwrappers]

/-- Outside of texts the wrappers of the form are those around the construct. -/
theorem wrappers_construct {l : Label} {s : Shape Node} (h : Node.Legible structural (.mk l s))
    (hs : s.isText = false) {s' : Shape Node} (hs' : s'.isText = false) :
  formWrappers (.ofWrappers (outerWrappers l.wrapping s)) s' = formWrappers l.wrapping s
  := by
  have hnone : ∀ {s : Shape Node}, s.isText = false → attributeWrappers s = [] := by
    intro s hs
    cases s <;> first | contradiction | rfl
  have houter : outerWrappers (.ofWrappers (outerWrappers l.wrapping s)) s'
      = outerWrappers l.wrapping s := Wrapping.outerWrappers_ofWrappers h.nodup (hnone hs')
  rw [formWrappers, formWrappers, houter, hnone hs', hnone hs]

/-- A legible construct keeps its form if its slots do. -/
theorem KeepsForm.construct {l : Label} {s : Shape Node} (h : Node.Legible structural (.mk l s))
    (hs : s.isText = false) (hsymbolic : s.isSymbolic = false)
    (hslots : ∀ slot ∈ s.slots,
      canonicalForm (slot.2.flatMap Node.reread) = canonicalForm slot.2) :
  KeepsForm (.mk l s)
  := by
  have hrenewed : s.renewed id Node.reread = s.essential.mapSlots (List.flatMap Node.reread) := by
    cases s with
    | derivative o =>
      cases o with
      | number => rfl
      | sequence => contradiction
    | _ => rfl
  right
  refine ⟨_, reread_construct h hs, ?_⟩
  rw [hrenewed]
  have htext : (s.essential.mapSlots (List.flatMap Node.reread)).isText = false := by
    cases s <;> first | contradiction | rfl
  have hsymbolic' : (s.essential.mapSlots (List.flatMap Node.reread)).isSymbolic = false := by
    cases s with
    | derivative o =>
      cases o with
      | number => rfl
      | sequence => contradiction
    | _ => rfl
  rw [Node.form_mk _ hsymbolic', Node.form_mk _ hsymbolic, wrappers_construct h hs htext,
    Shape.essential_mapSlots rfl, Shape.essential_essential, Shape.mapSlotsM_congr hslots]

/-- The form of a plain text that is cut into characters. -/
theorem canonicalForm_chars {w : Text} (hne : w ≠ []) :
  canonicalForm (w.map charNode) = .ok [Form.ofText [] w {}]
  := by
  have hforms : (w.map charNode).mapM Node.form = .ok (w.map fun c => Form.ofText [] [c] {}) := by
    rw [List.mapM_map]
    apply mapM_eq_ok
    intro c _
    rw [Function.comp, charNode, Node.plain, Node.form_mk _ rfl]
    rfl
  rw [canonicalForm, hforms]
  change Except.ok (Form.joinAll _) = _
  rw [Form.joinAll, foldr_join_chars]
  cases w with
  | nil => contradiction
  | cons c cs => rfl

/-- A plain numeral denotes a number. -/
theorem numeralOf?_numeral {digits : Text} (hplain : Numeral.isPlain digits = true) :
  Form.numeralOf? [Form.ofText [] digits {}] = some digits
  := by
  obtain ⟨hne, hdigits⟩ := Numeral.all_isDigit_of_isPlain hplain
  have hisDigits : Text.isDigits digits = true := by
    rw [Text.isDigits, Bool.and_eq_true, List.all_eq_true]
    refine ⟨?_, fun c hc => Numeral.isDigitChar_of_isDigit (hdigits c hc)⟩
    rw [Bool.not_eq_true', List.isEmpty_eq_false_iff]
    apply hne
  simp [Form.numeralOf?, Form.text?, Form.ofText, Tree.shape, Tree.label, hisDigits]

/-- A numeral is the number that it writes. -/
theorem normalOrder_numeral {digits : Text} (hplain : Numeral.isPlain digits = true)
    (hlength : digits.length ≤ Numeral.maxDigits) :
  Form.normalOrder [Form.ofText [] digits {}]
    = .ok (.number (Nat.ofDigitChars 10 digits 0 : Nat))
  := by
  obtain ⟨hne, hdigits⟩ := Numeral.all_isDigit_of_isPlain hplain
  rw [Form.normalOrder, numeralOf?_numeral hplain]
  simp only [Numeral.read_digits hne hdigits, Nat.not_lt.2 hlength, if_false]

/-- A legible derivative whose order is an expression keeps its form if its slots do. -/
theorem KeepsForm.symbolic {l : Label} {o a b : List Node} {longForm isPartial : Bool}
    {mode : DisplayMode}
    (h : Node.Legible structural (.mk l (.derivative (.sequence o) longForm isPartial mode a b)))
    (ho : canonicalForm (o.flatMap Node.reread) = canonicalForm o)
    (ha : canonicalForm (a.flatMap Node.reread) = canonicalForm a)
    (hb : canonicalForm (b.flatMap Node.reread) = canonicalForm b) :
  KeepsForm (.mk l (.derivative (.sequence o) longForm isPartial mode a b))
  := by
  right
  refine ⟨_, reread_construct h rfl, ?_⟩
  generalize hs : Shape.derivative (.sequence o) longForm isPartial mode a b = s at h ⊢
  have hwrappers := @wrappers_construct _ _ _ h (by rw [← hs]; rfl) (s.renewed id Node.reread)
    (by rw [← hs]; rfl)
  subst hs
  rw [Node.form_symbolic, ← hwrappers]
  cases hnumeral : numeral? o with
  | none =>
    have horder : Order.reread id Node.reread (.sequence o)
        = .sequence (o.flatMap Node.reread) := by
      rw [Order.reread, List.map_id, hnumeral]
    simp only [Shape.renewed, horder]
    rw [Node.form_symbolic, ho, ha, hb]
  | some digits =>
    obtain ⟨hplain, hisPlain⟩ := Option.filter_eq_some_iff.1 hnumeral
    have horder : Order.reread id Node.reread (.sequence o)
        = .number (Nat.ofDigitChars 10 digits 0 : Nat) := by
      rw [Order.reread, List.map_id, hnumeral]
    have hform : canonicalForm o = .ok [Form.ofText [] digits {}] := by
      rw [← ho, reread_of_plainText? hplain]
      apply canonicalForm_chars (Numeral.all_isDigit_of_isPlain hisPlain).1
    simp only [Shape.renewed, horder]
    rw [Node.form_mk _ rfl, hform, ← ha, ← hb]
    change _ = (do
      let order ← Form.normalOrder [Form.ofText [] digits {}]
      _)
    rw [normalOrder_numeral hisPlain (h.shape digits hnumeral)]
    simp only [Shape.essential, Shape.mapSlotsM, Shape.mapSlotsM.order]
    rcases canonicalForm (a.flatMap Node.reread) with e | fa
    · rfl
    · rcases canonicalForm (b.flatMap Node.reread) with e | fb <;> rfl

/-- A legible node keeps its form. -/
theorem Node.keepsForm (n : Node) (h : ∀ k ∈ Tree.walk n, Node.Legible structural k) :
  KeepsForm n
  := by
  induction n using Tree.induction with
  | h l s ih =>
    rw [Tree.walk_mk] at h
    have hnode := h _ List.mem_cons_self
    have hslots : ∀ slot ∈ s.slots,
        canonicalForm (slot.2.flatMap Node.reread) = canonicalForm slot.2 := by
      intro slot hslot
      apply canonicalForm_flatMap
      intro n hn
      have hchild : n ∈ s.children := List.mem_flatMap.2 ⟨slot, hslot, hn⟩
      apply ih n (Shape.children_subset s hchild)
      intro k hk
      apply h k (List.mem_cons_of_mem _ (List.mem_flatMap.2 ⟨n, hchild, hk⟩))
    cases hs : s.isText with
    | true =>
      cases s with
      | text => apply KeepsForm.text hnode.isDecorated
      | _ => contradiction
    | false =>
      cases hsymbolic : s.isSymbolic with
      | false => apply KeepsForm.construct hnode hs hsymbolic hslots
      | true =>
        cases s with
        | derivative o longForm isPartial mode a b =>
          cases o with
          | number => contradiction
          | sequence o =>
            apply KeepsForm.symbolic hnode
            · apply hslots (.order, o)
              simp [Shape.slots, Order.slot?, Shape.slots.present]
            · apply hslots (.function, a)
              simp [Shape.slots]
            · apply hslots (.differentials, b)
              simp [Shape.slots]
        | _ => contradiction

end Keeps

/-- What a legible equation is read as after it is written has its canonical form. -/
theorem Legible.canonicalForm_reread {structural : Bool} {ns : List Node}
    (h : Legible structural ns) :
  canonicalForm (ns.flatMap Node.reread) = canonicalForm ns
  := by
  apply canonicalForm_flatMap
  intro n hn
  apply Node.keepsForm
  intro k hk
  apply h.nodes k (List.mem_flatMap.2 ⟨n, hn, hk⟩)

end Formula
