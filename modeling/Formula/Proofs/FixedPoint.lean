import Formula.Proofs.Settling

/-!
# Rereading reaches a fixed point

Reading drops empty texts, so an order or a name in which such a text hides a numeral or the
name of an operator becomes plain only when it is read, and is read as a number or a built-in
function the next time.  What an equation is read as is read as itself once it is settled, and
settling changes nothing in its markup.  So the markup of an equation does not change any more
after it was written and read once, unless what was hidden is the order one, or the name of an
operator before a base.
-/

namespace Formula

open Build Markup Writing

variable {structural : Bool} {l : Label} {s : Shape Node} {n : Node} {ns ns' : List Node}

/-! ### Dropping empty texts -/

/-- The siblings without the empty texts among them, whatever is around those. -/
def dropEmpty (ns : List Node) : List Node :=
  ns.filter fun n => !(n.shape.isText && n.shape.value.isEmpty)

theorem plainText?_append (ns ns' : List Node) :
  plainText? (ns ++ ns') = (do return (← plainText? ns) ++ (← plainText? ns'))
  := by
  induction ns with
  | nil => cases h : plainText? ns' <;> simp [plainText?, h]
  | cons n ns ih =>
    rw [List.cons_append, plainText?, ih, plainText?]
    cases Node.plainText? n <;> cases plainText? ns <;> cases plainText? ns' <;> simp

theorem plainText?_flatMap {f g : Node → List Node}
    (h : ∀ n ∈ ns, plainText? (f n) = plainText? (g n)) :
  plainText? (ns.flatMap f) = plainText? (ns.flatMap g)
  := by
  induction ns with
  | nil => rfl
  | cons n ns ih =>
    rw [List.flatMap_cons, List.flatMap_cons, plainText?_append, plainText?_append,
      h n List.mem_cons_self, ih fun n hn => h n (List.mem_cons_of_mem _ hn)]

theorem dropEmpty_eq_flatMap (ns : List Node) :
  dropEmpty ns = ns.flatMap fun n => dropEmpty [n]
  := by
  induction ns with
  | nil => rfl
  | cons n ns ih =>
    rw [List.flatMap_cons, ← ih]
    exact List.filter_append [n] ns

/-! ### Rereading nodes -/

/-- A text of one character is plain where nothing is around it and it has no format. -/
theorem plainText?_char (ws : List Wrapper) (hnodup : (ws.map (·.1)).Nodup) (f : TextFormat)
    (hf : f = { bold := f.bold, italic := f.italic }) (c : Char) :
  Node.plainText? (.mk { id := 0, wrapping := .ofWrappers ws } (.text [c] f none))
    = if ws = [] ∧ f = {} then some [c] else none
  := by
  have hattributes : attributeWrappers (.text [c] f none : Shape Node) = [] := by
    rw [hf]
    rfl
  have houter : Node.outer (.mk { id := 0, wrapping := .ofWrappers ws } (.text [c] f none)) = ws :=
    Wrapping.outerWrappers_ofWrappers hnodup hattributes
  simp only [Node.plainText?, Tree.shape, houter, List.cons_ne_nil, false_or]

theorem plainText?_map_char {P : Prop} [Decidable P] {node : Char → Node}
    (h : ∀ c, Node.plainText? (node c) = if P then some [c] else none) (c : Char) (v : Text) :
  plainText? ((c :: v).map node) = if P then some (c :: v) else none
  := by
  induction v generalizing c with
  | nil =>
    rw [List.map_singleton, plainText?, plainText?, h]
    split <;> rfl
  | cons d v ih =>
    rw [List.map_cons, plainText?, h, ih]
    split <;> rfl

theorem Shape.isText_renewed (hs : s.isText = false) :
  (s.renewed id Node.reread).isText = false
  := by
  cases s <;> first | contradiction | rfl

/-- A construct is not plain text. -/
theorem Node.plainText?_construct (l : Label) (hs : s.isText = false) :
  plainText? (.mk l s) = none
  := by
  cases s <;> first | contradiction | rfl

/-- Only dropping empty texts makes plain text of what is reread. -/
theorem plainText?_reread (h : ∀ n ∈ ns, n.Legible structural) :
  plainText? (ns.flatMap Node.reread) = plainText? (dropEmpty ns)
  := by
  rw [dropEmpty_eq_flatMap]
  apply plainText?_flatMap
  intro n hn
  have hlegible := h n hn
  obtain ⟨l, s⟩ := n
  cases hs : s.isText with
  | false =>
    have hkept : dropEmpty [.mk l s] = [.mk l s] := by simp [dropEmpty, Tree.shape, hs]
    simp only [reread_construct hlegible hs, hkept, plainText?,
      Node.plainText?_construct _ (s.isText_renewed hs), Node.plainText?_construct _ hs]
  | true =>
    cases s with
    | text v f scale =>
      obtain ⟨-, hnodup, -⟩ := wrappers_text hlegible.isDecorated
      rw [reread_text hlegible.isDecorated]
      cases v with
      | nil => rfl
      | cons c v =>
        have hkept : dropEmpty [.mk l (.text (c :: v) f scale)] = [.mk l (.text (c :: v) f scale)] :=
          rfl
        have hplain : textWrappers l (c :: v) f scale = []
            ∧ ({ bold := f.bold, italic := f.italic } : TextFormat) = {}
            ↔ Node.outer (.mk l (.text (c :: v) f scale)) = [] ∧ f = {} := by
          obtain ⟨bold, italic, underline, strikethrough, color, textMode⟩ := f
          simp only [textWrappers, attributeCommandsOf, List.append_eq_nil_iff, List.map_eq_nil_iff,
            Option.toList_eq_nil_iff, ite_eq_right_iff, List.cons_ne_nil, imp_false,
            Bool.not_eq_true, TextFormat.mk.injEq, and_true]
          tauto
        rw [plainText?_map_char (plainText?_char _ hnodup _ rfl), hkept, plainText?, plainText?,
          Node.plainText?]
        simp only [hplain, Tree.shape, reduceCtorEq, false_or]
        split <;> simp
    | _ => contradiction

theorem numeral?_reread (h : ∀ n ∈ ns, n.Legible structural) :
  numeral? (ns.flatMap Node.reread) = numeral? (dropEmpty ns)
  := by
  rw [numeral?, numeral?, plainText?_reread h]

/-! ### Slots of what is reread -/

theorem Grid.cell_visible {α : Type} (c : Grid α) {k : Nat × Nat} (h : k ∈ c.coordinates) :
  c.visible.cell k.1 k.2 = c.cell k.1 k.2
  := by
  rw [cell, visible]
  simp only
  rw [lookup_map_self h fun k => c.cell k.1 k.2]
  rfl

theorem Shape.slots_essential {α : Type} (s : Shape α) :
  s.essential.slots = s.slots
  := by
  have hgrid : ∀ c : Grid α, slots.ofGrid c.visible = slots.ofGrid c := by
    intro c
    have hcoordinates : c.visible.coordinates = c.coordinates := rfl
    rw [slots.ofGrid, slots.ofGrid, hcoordinates]
    apply List.map_congr_left
    intro k hk
    rw [Grid.cell_visible c hk]
  cases s with
  | matrix t c => apply hgrid
  | stack c => apply hgrid
  | cases c => apply hgrid
  | _ => rfl

/-- Where no order becomes a number, a construct is read slot by slot. -/
theorem Shape.renewed_eq (h : ∀ o ∈ s.order?, numeral? o = none) :
  s.renewed id Node.reread = s.essential.mapSlots (List.flatMap Node.reread)
  := by
  cases s with
  | derivative o longForm isPartial mode a b =>
    cases o with
    | number => rfl
    | sequence o =>
      have hnone := h o rfl
      rw [renewed, Order.reread, List.map_id, hnone]
      rfl
  | _ => rfl

/-- The wrappers around a construct that is read are those that it is written with. -/
theorem outerWrappers_renewed (h : Node.Legible structural (.mk l s)) (hs : s.isText = false) :
  outerWrappers (.ofWrappers (outerWrappers l.wrapping s)) (s.renewed id Node.reread)
    = outerWrappers l.wrapping s
  := by
  have hnone : attributeWrappers (s.renewed id Node.reread) = [] := by
    have hrenewed := s.isText_renewed hs
    revert hrenewed
    cases s.renewed id Node.reread <;> intro hrenewed <;> first | contradiction | rfl
  apply Wrapping.outerWrappers_ofWrappers h.nodup hnone

/-- The slots of a construct that is read are read from slots. -/
theorem Shape.exists_of_mem_slots_renewed {f : Node → List Node} {slot : SlotName × List Node}
    (h : slot ∈ (s.renewed id f).slots) :
  ∃ old ∈ s.slots, slot.2 = old.2.flatMap f
  := by
  have hessential : slot ∈ (s.essential.mapSlots (List.flatMap f)).slots →
      ∃ old ∈ s.slots, slot.2 = old.2.flatMap f := by
    intro h
    rw [mapSlots, slots_mapSlotsOr rfl, slots_essential] at h
    obtain ⟨old, hold, rfl⟩ := List.mem_map.1 h
    exact ⟨old, hold, rfl⟩
  cases s with
  | derivative o longForm isPartial mode a b =>
    cases o with
    | number => exact hessential h
    | sequence o =>
      rw [renewed, Order.reread, List.map_id] at h
      split at h
      · simp only [slots, Order.slot?, slots.present, List.nil_append, List.mem_cons,
          List.not_mem_nil, or_false] at h
        rcases h with rfl | rfl
        · exact ⟨(.function, a), by simp [slots], rfl⟩
        · exact ⟨(.differentials, b), by simp [slots], rfl⟩
      · exact hessential h
  | _ => exact hessential h

/-! ### What is reread is legible once it is settled -/

/-- The name of a function that has a name of its own. -/
def Shape.name {α : Type} : Shape α → List α
  | .function _ a _ _ _ => a
  | _ => []

/-- Whether a construct is a function of the user's that has a base. -/
def Shape.isBased {α : Type} : Shape α → Bool
  | .function type _ _ _ _ => type = "functionsub".toList
  | _ => false

/-- A node in which no empty text hides the order one, an order of too many digits, or the name
of an operator before a base. -/
structure Node.Settled (n : Node) : Prop where
  order : ∀ o ∈ n.shape.order?, numeral? o = none → ∀ digits, numeral? (dropEmpty o) = some digits →
    digits ≠ ['1'] ∧ digits.length ≤ Numeral.maxDigits
  name : n.shape.isBased = true → ∀ w ∈ reservedNames .withBase,
    Formula.plainText? (dropEmpty n.shape.name) ≠ some w

/-- A legible node that is tidy and settled. -/
structure Node.Rereadable (structural : Bool) (n : Node) : Prop extends
    Node.Settled n, Node.Tidy n where
  legible : n.Legible structural

/-- A numeral that has few enough digits is read as an order that may be written. -/
theorem legible_number {digits : Text} (hplain : Numeral.isPlain digits = true)
    (hlength : digits.length ≤ Numeral.maxDigits) :
  Order.Legible (.number (Nat.ofDigitChars 10 digits 0 : Nat))
  := by
  constructor
  · exact_mod_cast (Numeral.toDigits_ofDigitChars hplain).1
  · apply Numeral.isWritable_ofDigitChars hplain hlength

/-- What a construct of a rereadable node is read as is legible once it is settled. -/
theorem Node.Rereadable.settleable_renewed (h : Node.Rereadable structural (.mk l s))
    (hs : s.isText = false)
    (hchildren : ∀ slot ∈ s.slots, ∀ n ∈ slot.2, n.Legible structural) :
  (s.renewed id Node.reread).Settleable
  := by
  have hlegible : s.Legible := h.legible.shape
  cases s with
  | derivative o longForm isPartial mode a b =>
    cases o with
    | number => exact ⟨hlegible, fun o ho => by contradiction⟩
    | sequence o =>
      rw [Shape.renewed, Order.reread, List.map_id]
      cases hnumeral : numeral? o with
      | some digits =>
        have hplain := (Option.filter_eq_some_iff.1 hnumeral).2
        exact ⟨legible_number hplain (hlegible digits hnumeral), fun o ho => by contradiction⟩
      | none =>
        apply Shape.Settleable.derivative
        rw [numeral?_reread (hchildren (.order, o)
          (by simp [Shape.slots, Shape.slots.present, Order.slot?]))]
        apply h.order o rfl hnumeral
  | function type name argument base constraint =>
    obtain ⟨info, hinfo, hname, hbase, hconstraint, -⟩ := hlegible
    have hnil : ∀ {ns : List Node}, ns = [] → ns.flatMap Node.reread = [] := by
      rintro _ rfl
      rfl
    apply Shape.Settleable.function hinfo (hnil ∘ hname) (hnil ∘ hbase) (hnil ∘ hconstraint)
    intro htype w hw
    rw [plainText?_reread (hchildren (.name, name) (by simp [Shape.slots]))]
    apply h.name (decide_eq_true htype) w hw
  | text => contradiction
  | script a p q =>
    refine ⟨?_, fun o ho => by contradiction⟩
    simpa [Shape.renewed, Shape.essential, Shape.mapSlots, Shape.mapSlotsOr, Shape.settle,
      Shape.Legible] using hlegible
  | integral t st l m a b p q =>
    refine ⟨?_, fun o ho => by contradiction⟩
    simpa [Shape.renewed, Shape.essential, Shape.mapSlots, Shape.mapSlotsOr, Shape.settle,
      Shape.Legible] using hlegible
  | accent t p a l =>
    refine ⟨?_, fun o ho => by contradiction⟩
    simpa [Shape.renewed, Shape.essential, Shape.mapSlots, Shape.mapSlotsOr, Shape.settle,
      Shape.Legible] using hlegible
  | _ => exact ⟨hlegible, fun o ho => by contradiction⟩

/-- A rereadable node is read as tidy nodes, of which the constructs are settleable. -/
theorem Node.tidy_reread (n : Node) (h : ∀ k ∈ Tree.walk n, Rereadable structural k) :
  ∀ k ∈ walk (reread n), Tidy k ∧ k.shape.Settleable
  := by
  induction n using Tree.induction with
  | h l s ih =>
    rw [Tree.walk_mk] at h
    have hnode := h _ List.mem_cons_self
    have hbelow : ∀ slot ∈ s.slots, ∀ n ∈ slot.2, ∀ k ∈ Tree.walk n, Rereadable structural k :=
      fun slot hslot n hn k hk => h k (List.mem_cons_of_mem _
        (List.mem_flatMap.2 ⟨n, List.mem_flatMap.2 ⟨slot, hslot, hn⟩, hk⟩))
    cases hs : s.isText with
    | true =>
      cases s with
      | text v f scale =>
        obtain ⟨hclean, hnodup, -⟩ := wrappers_text hnode.legible.isDecorated
        rw [reread_text hnode.legible.isDecorated]
        intro k hk
        simp only [walk, List.flatMap_map, Tree.walk_mk, Shape.children, Shape.slots,
          List.flatMap_nil, List.mem_flatMap, List.mem_singleton] at hk
        obtain ⟨c, hc, rfl⟩ := hk
        have houter : outer (.mk { id := 0, wrapping := .ofWrappers (textWrappers l v f scale) }
            (.text [c] { bold := f.bold, italic := f.italic } none)) = textWrappers l v f scale :=
          Wrapping.outerWrappers_ofWrappers hnodup rfl
        refine ⟨⟨by rwa [houter], by rwa [houter], ?_, ?_⟩, ⟨?_, fun _ hcolor => by contradiction⟩,
          fun o ho => by contradiction⟩
        · intro hmem
          apply hnode.value
          obtain rfl := List.mem_singleton.1 hmem
          apply hc
        · intro hmem
          contradiction
        · intro d hd
          obtain rfl := List.mem_singleton.1 hd
          apply hnode.legible.shape.1 d hc
      | _ => contradiction
    | false =>
      have houter : outer (.mk { id := 0, wrapping := .ofWrappers (outerWrappers l.wrapping s) }
          (s.renewed id reread)) = outerWrappers l.wrapping s :=
        outerWrappers_renewed hnode.legible hs
      rw [reread_construct hnode.legible hs]
      intro k hk
      rw [walk, List.flatMap_singleton, Tree.walk_mk] at hk
      rcases List.mem_cons.1 hk with rfl | hk
      · refine ⟨⟨?_, ?_, ?_, ?_⟩, ?_⟩
        · rw [houter]
          apply hnode.legible.outer
        · rw [houter]
          apply hnode.legible.nodup
        · cases s <;> first | contradiction | exact List.not_mem_nil
        · have hdelimiters : (s.renewed id reread).delimiters = s.delimiters := by
            cases s <;> rfl
          change _ ∉ (s.renewed id reread).delimiters
          rw [hdelimiters]
          apply hnode.delimiters
        · apply hnode.settleable_renewed hs
          intro slot hslot n hn
          apply (hbelow slot hslot n hn n (Tree.mem_walk_self n)).legible
      · obtain ⟨m, hm, hk⟩ := List.mem_flatMap.1 hk
        obtain ⟨slot, hslot, hm⟩ := List.mem_flatMap.1 hm
        obtain ⟨old, hold, heq⟩ := Shape.exists_of_mem_slots_renewed hslot
        rw [heq] at hm
        obtain ⟨n, hn, hm⟩ := List.mem_flatMap.1 hm
        have hchild : n ∈ s.allChildren :=
          s.children_subset (List.mem_flatMap.2 ⟨old, hold, hn⟩)
        apply ih n hchild (hbelow old hold n hn) k (List.mem_flatMap.2 ⟨m, hm, hk⟩)

/-! ### What is read is its own sketch -/

theorem Shape.map_renewed {α : Type} (g : Node → Node) (node : α → Node) (f : α → List Node)
    (s : Shape α) :
  (s.renewed node f).map g = s.renewed node fun a => (f a).map g
  := by
  have hslots : (fun l : List α => (l.flatMap f).map g) = List.flatMap fun a => (f a).map g := by
    funext l
    rw [List.map_flatMap]
  have hmap : ∀ s : Shape α, (s.essential.mapSlots (List.flatMap f)).map g
      = s.essential.mapSlots (List.flatMap fun a => (f a).map g) := by
    intro s
    rw [mapSlots, map_mapSlotsOr, hslots, mapSlots]
  cases s with
  | derivative o =>
    cases o with
    | number => simp [renewed, Order.reread, map, mapSlots, mapSlotsOr, mapSlotsOr.order,
        List.map_flatMap]
    | sequence o =>
      rw [renewed, renewed, Order.reread, Order.reread]
      split <;> simp [map, mapSlots, mapSlotsOr, mapSlotsOr.order, List.map_flatMap]
  | _ => exact hmap _

/-- What is read is its own sketch. -/
theorem Node.map_sketch_reread (n : Node) :
  (reread n).map sketch = reread n
  := by
  induction n using Tree.induction with
  | h l s ih =>
    have hshape : ∀ s : Shape Node, (∀ n ∈ s.allChildren, (reread n).map sketch = reread n) →
        ((s.renewed id reread).map sketch).withDepth 0 = s.renewed id reread := by
      intro s ih
      have hrenewed : (s.renewed id fun n => (reread n).map sketch) = s.renewed id reread :=
        Shape.renewed_congr ih fun _ => rfl
      rw [Shape.map_renewed, hrenewed]
      cases s <;> rfl
    rw [reread_mk, List.map_map]
    cases s with
    | text v f =>
      rw [Shape.reread, textReread, List.map_map, List.map_map]
      apply List.map_congr_left
      intro c _
      rfl
    | _ =>
      simp only [Shape.reread, List.map_singleton, Function.comp, enwrap_plain, sketch_mk,
        hshape _ ih]

/-! ### What is settled is read as itself -/

theorem Shape.essential_renewed {f : Node → List Node} (s : Shape Node) :
  (s.renewed id f).essential = s.renewed id f
  := by
  cases s with
  | derivative => rfl
  | _ => exact (essential_mapSlots rfl _).trans (congrArg _ (essential_essential _))

/-- A construct of which the nodes are read as themselves is read as itself. -/
theorem Shape.renewed_eq_self (hessential : s.essential = s)
    (horder : ∀ o ∈ s.order?, numeral? o = none) (h : ∀ n ∈ s.children, Node.reread n = [n]) :
  s.renewed id Node.reread = s
  := by
  have hslot : ∀ l ⊆ s.allChildren, l.flatMap Node.reread = id l := by
    intro l hl
    rw [← hessential, allChildren_essential] at hl
    rw [List.flatMap_congr fun n hn => h n (hl hn), List.flatMap_singleton', id]
  rw [renewed_eq horder, hessential, mapSlots, mapSlotsOr_congr hslot hslot]
  apply s.mapSlots_id

theorem Node.Tidy.settle (h : n.Tidy) :
  (Node.settle n).Tidy
  := by
  obtain ⟨houter, hnodup, hvalue, hdelimiters⟩ := h
  have hsame : (Node.settle n).shape.value = n.shape.value
      ∧ (Node.settle n).shape.delimiters = n.shape.delimiters := by
    obtain ⟨l, s⟩ := n
    rw [settle_mk]
    cases s with
    | function type name =>
      simp only [Tree.shape, Shape.map, Shape.mapSlots, Shape.mapSlotsOr, Shape.settle]
      split <;> exact ⟨rfl, rfl⟩
    | _ => exact ⟨rfl, rfl⟩
  refine ⟨?_, ?_, ?_, ?_⟩
  · rwa [outer_settle]
  · rwa [outer_settle]
  · rwa [hsame.1]
  · rwa [hsame.2]

/-- What a rereadable node is read as is tidy and legible once it is settled, and no order in it
is a numeral then. -/
theorem Node.tidy_settle_reread {n : Node} (h : ∀ k ∈ Tree.walk n, Rereadable structural k) :
  ∀ k ∈ walk ((reread n).map settle), Tidy k ∧ k.shape.Legible
    ∧ ∀ o ∈ k.shape.order?, numeral? o = none
  := by
  intro k hk
  obtain ⟨m, hm, rfl⟩ := exists_of_mem_walk_settle hk
  obtain ⟨htidy, hsettleable⟩ := n.tidy_reread h m hm
  exact ⟨htidy.settle, hsettleable.settle⟩

/-- What a rereadable node is read as is read as itself once it is settled. -/
theorem Node.reread_settle_reread (n : Node) (h : ∀ k ∈ Tree.walk n, Rereadable structural k) :
  ∀ m ∈ (reread n).map settle, reread m = [m]
  := by
  induction n using Tree.induction with
  | h l s ih =>
    have hsettled := tidy_settle_reread h
    have hlegible : Formula.Legible structural ((reread (.mk l s)).map settle) :=
      Formula.Legible.of_tidy (fun k hk => (hsettled k hk).1) fun k hk => (hsettled k hk).2.1
    rw [Tree.walk_mk] at h
    have hnode := h _ List.mem_cons_self
    cases hs : s.isText with
    | true =>
      cases s with
      | text v f scale =>
        obtain ⟨-, hnodup, -⟩ := wrappers_text hnode.legible.isDecorated
        rw [reread_text hnode.legible.isDecorated, List.map_map] at hlegible ⊢
        intro m hm
        have hm' := hlegible.node hm
        obtain ⟨c, hc, rfl⟩ := List.mem_map.1 hm
        have hsame : textWrappers { id := 0, wrapping := .ofWrappers (textWrappers l v f scale) }
            [c] { bold := f.bold, italic := f.italic } none = textWrappers l v f scale :=
          Wrapping.outerWrappers_ofWrappers hnodup rfl
        exact (reread_text hm'.isDecorated).trans (by rw [hsame]; rfl)
      | _ => contradiction
    | false =>
      let shape := (s.renewed id reread).map settle
      have hshape : shape = s.renewed id fun a => (reread a).map settle :=
        Shape.map_renewed settle id reread s
      rw [reread_construct hnode.legible hs, List.map_singleton, settle_mk] at hlegible hsettled ⊢
      intro m hm
      obtain rfl := List.mem_singleton.1 hm
      have hmem := hlegible.node hm
      have htext : shape.settle.isText = false := by
        rw [Shape.isText_settle, Shape.isText_map, s.isText_renewed hs]
      have houter : outerWrappers (.ofWrappers (outerWrappers l.wrapping s)) shape.settle
          = outerWrappers l.wrapping s := by
        rw [outerWrappers_settle, outerWrappers_map, outerWrappers_renewed hnode.legible hs]
      have hself : shape.settle.renewed id reread = shape.settle := by
        apply Shape.renewed_eq_self
        · rw [Shape.settle_essential, hshape, Shape.essential_renewed]
        · apply (hsettled _ (mem_walk_of_mem hm)).2.2
        · intro k hk
          obtain ⟨slot, hslot, hk⟩ := List.mem_flatMap.1 (Shape.children_settle_subset _ hk)
          rw [hshape] at hslot
          obtain ⟨old, hold, heq⟩ := Shape.exists_of_mem_slots_renewed hslot
          rw [heq] at hk
          obtain ⟨a, ha, hk⟩ := List.mem_flatMap.1 hk
          have hchild : a ∈ s.children := List.mem_flatMap.2 ⟨old, hold, ha⟩
          apply ih a (s.children_subset hchild) _ k hk
          intro j hj
          apply h j (List.mem_cons_of_mem _ (List.mem_flatMap.2 ⟨a, hchild, hj⟩))
      exact (reread_construct hmem htext).trans (by rw [houter, hself])

/-! ### Empty texts in an order -/

/-- A construct alone, without wrappers, is written as itself. -/
theorem toMarkup_plain (config : WriteConfig) {id : Nat} {s : Shape Node} (hs : s.isText = false)
    {m : Text}
    (h : writeShape (settingsFor config [.plain id s]) false
      (s.map (piece (settingsFor config [.plain id s]))) = .ok m) :
  toMarkup .builtin config [.plain id s] = .ok (trimMarkup m)
  := by
  have hjoin : join (separator false) [m] = m := by
    simp [join, endsInCommand, endsInCommandReversed]
  let settings := settingsFor config [.plain id s]
  obtain ⟨houter, hbody⟩ := piece_mk settings { id := id } s
  have hempty : (piece settings (.plain id s)).outer = [] := houter
  have hrun : writeRun settings false [piece settings (.plain id s)] = .ok m := by
    rw [writeRun, Node.plain, hbody hs]
    exact h
  have hplain : writePlain settings false [piece settings (.plain id s)] = .ok m := by
    simp only [writePlain, List.splitBy, List.splitBy.loop, List.reverse_singleton,
      List.mapM_cons, List.mapM_nil, hrun]
    exact congrArg _ hjoin
  have hwrapped : writeWrapped settings false [piece settings (.plain id s)] = .ok m := by
    simp only [writeWrapped, List.head?_cons, Option.map_some, Option.getD_some, hempty,
      List.any_nil, Bool.or_false, hplain]
    rfl
  have hpieces : writePieces settings false [piece settings (.plain id s)] = .ok m := by
    simp only [writePieces, List.splitBy, List.splitBy.loop, List.reverse_singleton,
      List.mapM_cons, List.mapM_nil, hwrapped]
    exact congrArg _ hjoin
  rw [toMarkup_eq, List.map_singleton, hpieces, Except.map]

/-- A text of one letter or digit. -/
def charText (id : Nat) (c : Char) : Node := .plain id (.text [c] {} none)

/-- An empty text that is canceled. -/
def canceledNothing : Node :=
  .mk { id := 2, wrapping := { params := { cancel := some .none }, order := [.cancel] } }
    (.text [] {} none)

/-- A derivative with a canceled empty text in its order. -/
def hidden (c : Char) : Node :=
  .plain 1 (.derivative (.sequence [canceledNothing, charText 3 c]) false false .inline
    [charText 4 'f'] [charText 5 'x'])

/-- The derivative of one letter by another. -/
def quotient (o : Order Node) : Node :=
  .plain 0 (.derivative o false false .inline [charNode 'f'] [charNode 'x'])

theorem writeContent_char {settings : Settings} (htable : settings.table = .builtin) {c : Char}
    (hc : isPlainChar c = true) :
  writeContent settings false ([charNode c].map (piece settings)) = .ok [c]
  := writeContent_of_plainText? htable rfl (by simpa using hc)

theorem toMarkup_quotient {o : Order Node} {order : Option Text}
    (hfirst : isFirstOrder (Shape.mapSlotsOr.order (List.map (piece (settingsFor {} [quotient o]))) o)
      = order.isNone)
    (hwrite : ∀ m ∈ order, writeOrder (settingsFor {} [quotient o]) false
      (Shape.mapSlotsOr.order (List.map (piece (settingsFor {} [quotient o]))) o) = .ok m) :
  toMarkup .builtin {} [quotient o]
    = .ok (trimMarkup (fractionName .inline false
        ++ fractionArguments false false order ['f'] ['x']))
  := by
  have htable : (settingsFor {} [quotient o]).table = .builtin := rfl
  apply toMarkup_plain _ rfl
  exact @writeAsFraction_eq (settingsFor {} [quotient o]) _ _ false false false o .inline
    order ['f'] ['x'] hfirst hwrite (writeContent_char htable rfl) (writeContent_char htable rfl)

theorem toMarkup_quotient_one :
  toMarkup .builtin {} [quotient (.number 1)] = .ok "\\derivfrac{df}{dx}".toList
  := by
  rw [@toMarkup_quotient _ none rfl (by simp)]
  rfl

theorem toMarkup_quotient_char :
  toMarkup .builtin {} [quotient (.sequence [charNode '1'])]
    = .ok "\\derivfrac{d^{1}f}{dx^{1}}".toList
  := by
  have htable : (settingsFor {} [quotient (.sequence [charNode '1'])]).table = .builtin := rfl
  have hwrite : writeOrder (settingsFor {} [quotient (.sequence [charNode '1'])]) false
      (.sequence ([charNode '1'].map (piece (settingsFor {} [quotient (.sequence [charNode '1'])]))))
      = .ok ['1'] := by
    rw [writeOrder, writeContent_char htable rfl]
    rfl
  rw [@toMarkup_quotient _ (some ['1']) rfl fun m hm => Option.some.inj hm ▸ hwrite]
  rfl

theorem expressible_charText (config : WriteConfig) (id : Nat) {c : Char}
    (hc : isPlainChar c = true) :
  (charText id c).Expressible config
  := by
  refine ⟨⟨.text [c] {} none, {}, _, rfl, rfl⟩, .empty, fun p hp => by contradiction, ?_,
    fun p hp => by contradiction⟩
  intro d hd
  obtain rfl := List.mem_singleton.1 hd
  constructor
  · simp [isTextChar, isBlank_of_isPlainChar hc]
  · apply ne_of_isPlainChar hc (by decide)

theorem expressible_quotient (config : WriteConfig) {id : Nat} {o : List Node} {f x : Node}
    (ho : ∀ digits, numeral? o = some digits → digits.length ≤ Numeral.maxDigits)
    (hbelow : ∀ n ∈ walk (o ++ [f, x]), n.Expressible config) :
  Expressible config [.plain id (.derivative (.sequence o) false false .inline [f] [x])]
  := by
  intro n hn
  rw [walk, List.flatMap_singleton, Node.plain, Tree.walk_mk] at hn
  rcases List.mem_cons.1 hn with rfl | hn
  · refine ⟨⟨.derivative (.sequence o) false false .inline, {}, _, rfl, rfl⟩, .empty,
      fun p hp => by contradiction, ho⟩
  · apply hbelow n
    simpa [Shape.children, Shape.slots, Shape.slots.present, Order.slot?] using hn

theorem expressible_quotient_char (config : WriteConfig) {c : Char} (hc : isPlainChar c = true) :
  Expressible config [quotient (.sequence [charNode c])]
  := by
  apply expressible_quotient
  · intro digits hdigits
    obtain rfl : [c] = digits := Option.some.inj (Option.filter_eq_some_iff.1 hdigits).1
    exact (by decide : 1 ≤ Numeral.maxDigits)
  · intro n hn
    have hmem : n = charText 0 c ∨ n = charText 0 'f' ∨ n = charText 0 'x' := by
      simpa [walk, charNode, charText, Node.plain, Tree.walk_mk, Shape.children, Shape.slots]
        using hn
    rcases hmem with rfl | rfl | rfl
    · apply expressible_charText _ _ hc
    · apply expressible_charText _ _ rfl
    · apply expressible_charText _ _ rfl

theorem expressible_hidden (config : WriteConfig) {c : Char} (hc : isPlainChar c = true) :
  Expressible config [hidden c]
  := by
  have hnothing : canceledNothing.Expressible config := by
    refine ⟨⟨.text [] {} none, {}, _, rfl, rfl⟩, ?_, fun p hp => by contradiction,
      fun c hc => by contradiction, fun p hp => by contradiction⟩
    exact @Wrapping.Reachable.apply {} _ .cancel .none .empty rfl
  apply expressible_quotient
  · intro digits hdigits
    have hnone : numeral? [canceledNothing, charText 3 c] = none := rfl
    rw [hnone] at hdigits
    contradiction
  · intro n hn
    have hmem : n = canceledNothing ∨ n = charText 3 c ∨ n = charText 4 'f'
        ∨ n = charText 5 'x' := by
      simpa [walk, canceledNothing, charText, Node.plain, Tree.walk_mk, Shape.children,
        Shape.slots] using hn
    rcases hmem with rfl | rfl | rfl | rfl
    · exact hnothing
    · apply expressible_charText _ _ hc
    · apply expressible_charText _ _ rfl
    · apply expressible_charText _ _ rfl

theorem mem_walk_hidden {n : Node} {c : Char} (h : n ∈ walk [hidden c]) :
  n = hidden c ∨ n.shape.order? = none ∧ n.shape.isBased = false
  := by
  have hmem : n = hidden c ∨ n = canceledNothing ∨ n = charText 3 c ∨ n = charText 4 'f'
      ∨ n = charText 5 'x' := by
    simpa [walk, hidden, canceledNothing, charText, Node.plain, Tree.walk_mk, Shape.children,
      Shape.slots, Shape.slots.present, Order.slot?] using h
  rcases hmem with rfl | rfl | rfl | rfl | rfl
  · exact .inl rfl
  all_goals exact .inr ⟨rfl, rfl⟩

/-! ### The fixed point -/

section FixedPoint

variable {config : Config}

theorem toMarkup_store_bare (write : WriteConfig) {made read : List Node}
    (h : made.map Node.bare = read) :
  toMarkup .builtin write (config.store made) = toMarkup .builtin write (config.store read)
  := by
  rw [← toMarkup_bare, map_bare_store, h]

/-- What is legible once it is settled is so when it is read from markup. -/
theorem Legible.of_read (h : Legible structural ((ns.flatMap Node.reread).map Node.settle))
    {made : List Node} (hmade : made.map Node.bare = ns.flatMap Node.reread) :
  Legible structural ((config.store made).map Node.settle)
    ∧ ((config.store made).map Node.settle).flatMap Node.reread
      = ((ns.flatMap Node.reread).map Node.settle).flatMap Node.reread
  := by
  have hsketch : ((config.store made).map Node.settle).map Node.sketch
      = (ns.flatMap Node.reread).map Node.settle := by
    rw [map_sketch_settle, map_sketch_store, ← map_sketch_bare, hmade, List.map_flatMap]
    simp only [Node.map_sketch_reread]
  constructor
  · apply Legible.of_sketch
    rwa [hsketch]
  · rw [← flatMap_reread_sketch, hsketch]

/-- If an equation is legible, and what it is read as once that is settled, its markup is read
as an equation that is written as what is settled, and so is the markup of that. -/
theorem Legible.exists_rewritten {ns : List Node} (h : Legible config.write.structural ns)
    (hread : Legible config.write.structural ((ns.flatMap Node.reread).map Node.settle))
    (supply₁ supply₂ : Supply) :
  ∃ m₁ again₁ m₂ again₂, toMarkup .builtin config.write ns = .ok m₁
    ∧ ((ofMarkup .builtin config m₁).runOn supply₁).1 = .ok again₁
    ∧ toMarkup .builtin config.write again₁ = .ok m₂
    ∧ ((ofMarkup .builtin config m₂).runOn supply₂).1 = .ok again₂
    ∧ toMarkup .builtin config.write (config.store ((ns.flatMap Node.reread).map Node.settle))
      = .ok m₂
    ∧ toMarkup .builtin config.write again₂ = toMarkup .builtin config.write
        (config.store (((ns.flatMap Node.reread).map Node.settle).flatMap Node.reread))
  := by
  obtain ⟨m₁, hm₁, hspelled₁⟩ := h.exists_toMarkup
  obtain ⟨made₁, hread₁, hbare₁⟩ := hspelled₁.exists_ofMarkup config supply₁
  obtain ⟨hlegible₁, hagain₁⟩ := @Legible.of_read _ _ config hread _ hbare₁
  obtain ⟨m₂, hm₂, hspelled₂⟩ := hlegible₁.exists_toMarkup
  obtain ⟨made₂, hread₂, hbare₂⟩ := hspelled₂.exists_ofMarkup config supply₂
  rw [toMarkup_settle] at hm₂
  refine ⟨m₁, _, m₂, _, hm₁, hread₁, hm₂, hread₂, ?_, ?_⟩
  · rw [← map_settle_store, toMarkup_settle, ← toMarkup_store_bare _ hbare₁, hm₂]
  · rw [toMarkup_store_bare _ (hbare₂.trans hagain₁)]

/-- What a rereadable equation is read as is legible once it is settled, and read as itself. -/
theorem legible_settle_reread (h : ∀ n ∈ walk ns, n.Rereadable structural) :
  Legible structural ((ns.flatMap Node.reread).map Node.settle)
    ∧ ((ns.flatMap Node.reread).map Node.settle).flatMap Node.reread
      = (ns.flatMap Node.reread).map Node.settle
  := by
  have hnode : ∀ n ∈ ns, ∀ k ∈ Tree.walk n, Node.Rereadable structural k := fun n hn k hk =>
    h k (List.mem_flatMap.2 ⟨n, hn, hk⟩)
  rw [List.map_flatMap]
  have hsettled : ∀ k ∈ walk (ns.flatMap fun n => (Node.reread n).map Node.settle),
      k.Tidy ∧ k.shape.Legible ∧ ∀ o ∈ k.shape.order?, numeral? o = none := by
    intro k hk
    rw [walk, List.flatMap_assoc] at hk
    obtain ⟨n, hn, hk⟩ := List.mem_flatMap.1 hk
    apply Node.tidy_settle_reread (hnode n hn) k hk
  constructor
  · apply Legible.of_tidy fun k hk => (hsettled k hk).1
    intro k hk
    apply (hsettled k hk).2.1
  · rw [List.flatMap_assoc]
    apply List.flatMap_congr
    intro n hn
    rw [List.flatMap_congr (n.reread_settle_reread (hnode n hn)), List.flatMap_singleton']

/-- The markup of an expressible equation does not change any more after it was written and
read once, unless an empty text hides the order one, an order of too many digits, or the name of
an operator before a base. -/
theorem Expressible.exists_fixedPoint {ns : List Node} (h : Expressible config.write ns)
    (hsettled : ∀ n ∈ walk ns, n.Settled) (supply₁ supply₂ : Supply) :
  ∃ m₁ again₁ m₂ again₂, toMarkup .builtin config.write ns = .ok m₁
    ∧ ((ofMarkup .builtin config m₁).runOn supply₁).1 = .ok again₁
    ∧ toMarkup .builtin config.write again₁ = .ok m₂
    ∧ ((ofMarkup .builtin config m₂).runOn supply₂).1 = .ok again₂
    ∧ toMarkup .builtin config.write again₂ = .ok m₂
  := by
  have hlegible := h.legible
  have hrereadable : ∀ n ∈ walk ns, n.Rereadable config.write.structural := fun n hn =>
    { hsettled n hn, (h n hn).tidy with legible := hlegible.nodes n hn }
  obtain ⟨hread, htwice⟩ := legible_settle_reread hrereadable
  obtain ⟨m₁, again₁, m₂, again₂, hm₁, hagain₁, hm₂, hagain₂, hwritten, heq⟩ :=
    hlegible.exists_rewritten hread supply₁ supply₂
  refine ⟨m₁, again₁, m₂, again₂, hm₁, hagain₁, hm₂, hagain₂, ?_⟩
  rw [heq, htwice, hwritten]

end FixedPoint

theorem exists_fixedPoint_hiddenNumeral :
  Expressible {} [hidden '2'] ∧ (∀ n ∈ walk [hidden '2'], n.Settled)
    ∧ ∃ m₁ again₁ m₂ again₂, toMarkup .builtin {} [hidden '2'] = .ok m₁
      ∧ ((ofMarkup .builtin {} m₁).runOn {}).1 = .ok again₁
      ∧ toMarkup .builtin {} again₁ = .ok m₂
      ∧ ((ofMarkup .builtin {} m₂).runOn {}).1 = .ok again₂
      ∧ toMarkup .builtin {} again₂ = .ok m₂
  := by
  have hexpressible : Expressible {} [hidden '2'] := expressible_hidden {} rfl
  have hsettled : ∀ n ∈ walk [hidden '2'], n.Settled := by
    intro n hn
    rcases mem_walk_hidden hn with rfl | ⟨hnone, hbased⟩
    · refine ⟨?_, fun hbased => by contradiction⟩
      intro o ho _ digits hdigits
      obtain rfl := Option.some.inj ho
      obtain rfl : ['2'] = digits := Option.some.inj hdigits
      decide
    · refine ⟨fun o ho => ?_, fun htrue => ?_⟩
      · rw [hnone] at ho
        contradiction
      · rw [hbased] at htrue
        contradiction
  exact ⟨hexpressible, hsettled,
    @Expressible.exists_fixedPoint {} _ hexpressible hsettled {} {}⟩

/-- The markup of a derivative with an empty text before the digit one in its order still changes
the second time it is written: the order is read as an expression first, and as a number then. -/
theorem exists_drift_hiddenNumeral :
  WellFormed {} [hidden '1']
    ∧ ∃ m₁ again₁ m₂ again₂ m₃, toMarkup .builtin {} [hidden '1'] = .ok m₁
      ∧ ((ofMarkup .builtin {} m₁).runOn {}).1 = .ok again₁
      ∧ toMarkup .builtin {} again₁ = .ok m₂
      ∧ ((ofMarkup .builtin {} m₂).runOn {}).1 = .ok again₂
      ∧ toMarkup .builtin {} again₂ = .ok m₃
      ∧ m₃ ≠ m₂
  := by
  have hwellFormed : WellFormed {} [hidden '1'] := by
    refine ⟨expressible_hidden {} rfl, ?_⟩
    intro n hn o ho
    rcases mem_walk_hidden hn with rfl | ⟨hnone, -⟩
    · obtain rfl := Option.some.inj ho
      intro forms hforms
      obtain rfl := Except.ok.inj hforms
      exact ⟨_, rfl⟩
    · rw [hnone] at ho
      contradiction
  have hread : ([hidden '1'].flatMap Node.reread).map Node.settle
      = [quotient (.sequence [charNode '1'])] := rfl
  have hread' : [quotient (.sequence [charNode '1'])].flatMap Node.reread
      = [quotient (.number 1)] := rfl
  have hlegible : Legible false (([hidden '1'].flatMap Node.reread).map Node.settle) := by
    rw [hread]
    exact (expressible_quotient_char {} rfl).legible
  obtain ⟨m₁, again₁, m₂, again₂, hm₁, hagain₁, hm₂, hagain₂, hwritten, heq⟩ :=
    @Legible.exists_rewritten {} _ (expressible_hidden {} rfl).legible hlegible {} {}
  rw [hread] at hwritten heq
  rw [hread'] at heq
  obtain rfl : "\\derivfrac{d^{1}f}{dx^{1}}".toList = m₂ :=
    Except.ok.inj (toMarkup_quotient_char.symm.trans hwritten)
  exact ⟨hwellFormed, m₁, again₁, _, again₂, _, hm₁, hagain₁, hm₂, hagain₂,
    heq.trans toMarkup_quotient_one, by decide⟩

end Formula
