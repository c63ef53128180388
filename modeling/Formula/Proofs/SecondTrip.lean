import Formula.Proofs.FixedPoint
import Formula.Proofs.Reading

/-!
# Stored markup

Markup that was stored is read, written and read again.  What the second reading gives is
equivalent to what the first one gave, whatever the markup was, as long as the first one met
none of the few things that have no spelling of their own: a letter as a delimiter, an
ampersand as a delimiter in a cell, a color that does not end where its braces do, a
fullwidth ampersand alone in text mode, and a function named like a built-in operator.
-/

namespace Formula

open Build Markup Writing

/-! ### What has a canonical form -/

theorem bind_eq_ok_iff {ε α β : Type} {x : Except ε α} {f : α → Except ε β} {b : β} :
  x >>= f = .ok b ↔ ∃ a, x = .ok a ∧ f a = .ok b
  := by
  constructor
  · apply exists_of_bind_eq_ok
  · rintro ⟨a, rfl, h⟩
    exact h

/-- If all slots of a construct give something together, each of them does. -/
theorem Shape.exists_of_mapSlotsM {ε α β : Type} {f : List α → Except ε (List β)} {s : Shape α}
    {t : Shape β} (h : s.essential.mapSlotsM f = .ok t) {slot : SlotName × List α}
    (hslot : slot ∈ s.slots) :
  ∃ made, f slot.2 = .ok made
  := by
  have hoptional : ∀ {part : SlotName} {p : Option (List α)} {made : Option (List β)},
      mapSlotsM.optional f p = .ok made → ∀ slot ∈ slots.present part p,
      ∃ made, f slot.2 = .ok made := by
    intro part p made hp slot hslot
    cases p with
    | none => contradiction
    | some content =>
      obtain rfl := List.mem_singleton.1 hslot
      obtain ⟨made, hmade, -⟩ := exists_of_bind_eq_ok hp
      exact ⟨made, hmade⟩
  have hcells : ∀ {cells : List ((Nat × Nat) × List α)} {made},
      mapSlotsM.cells f cells = .ok made → ∀ entry ∈ cells, ∃ made, f entry.2 = .ok made := by
    intro cells
    induction cells with
    | nil =>
      intro _ _ _ hentry
      contradiction
    | cons entry rest ih =>
      intro made hmade
      obtain ⟨content, hcontent, hmade⟩ := exists_of_bind_eq_ok hmade
      obtain ⟨others, hothers, -⟩ := exists_of_bind_eq_ok hmade
      apply List.forall_mem_cons.2 ⟨⟨content, hcontent⟩, ih hothers⟩
  have hgrid : ∀ {c : Grid α} {made}, mapSlotsM.grid f c.visible = .ok made →
      ∀ slot ∈ slots.ofGrid c, ∃ made, f slot.2 = .ok made := by
    intro c made hc slot hslot
    obtain ⟨cells, hmade, -⟩ := exists_of_bind_eq_ok hc
    obtain ⟨k, hk, rfl⟩ := List.mem_map.1 hslot
    apply hcells hmade (k, c.cell k.1 k.2) (List.mem_map.2 ⟨k, hk, rfl⟩)
  cases s with
  | text => contradiction
  | derivative o =>
    cases o <;>
    · simp only [essential, mapSlotsM, mapSlotsM.order, bind_eq_ok_iff] at h
      simp only [slots, slots.present, Order.slot?, List.mem_append, List.mem_cons,
        List.not_mem_nil, or_false] at hslot
      grind
  | matrix | stack | cases =>
    simp only [essential, mapSlotsM, bind_eq_ok_iff] at h
    obtain ⟨made, hmade, -⟩ := h
    apply hgrid hmade slot hslot
  | _ =>
    simp only [essential, mapSlotsM, bind_eq_ok_iff] at h
    simp only [slots, List.mem_append, List.mem_cons, List.not_mem_nil, or_false] at hslot
    grind

/-- The slots of a node that has a canonical form have canonical forms, and an order among them
is normal. -/
theorem Node.exists_of_form {l : Label} {s : Shape Node} {f : Form} (h : form (.mk l s) = .ok f) :
  (∀ slot ∈ s.slots, ∃ forms, canonicalForm slot.2 = .ok forms)
    ∧ ∀ o ∈ s.order?, ∃ forms order, canonicalForm o = .ok forms
      ∧ Form.normalOrder forms = .ok order
  := by
  cases hsymbolic : s.isSymbolic with
  | false =>
    rw [form_mk l hsymbolic] at h
    obtain ⟨made, hmade, -⟩ := exists_of_bind_eq_ok h
    constructor
    · intro slot hslot
      apply Shape.exists_of_mapSlotsM hmade hslot
    · intro o ho
      cases s with
      | derivative o => cases o <;> contradiction
      | _ => contradiction
  | true =>
    cases s with
    | derivative o longForm isPartial mode a b =>
      cases o with
      | number => contradiction
      | sequence o =>
        rw [form_symbolic] at h
        obtain ⟨forms, hforms, h⟩ := exists_of_bind_eq_ok h
        obtain ⟨order, horder, h⟩ := exists_of_bind_eq_ok h
        obtain ⟨fa, ha, h⟩ := exists_of_bind_eq_ok h
        obtain ⟨fb, hb, -⟩ := exists_of_bind_eq_ok h
        constructor
        · intro slot hslot
          simp only [Shape.slots, Shape.slots.present, Order.slot?, List.mem_append,
            List.mem_cons, List.not_mem_nil, or_false] at hslot
          rcases hslot with rfl | rfl | rfl
          · exact ⟨forms, hforms⟩
          · exact ⟨fa, ha⟩
          · exact ⟨fb, hb⟩
        · intro o' ho'
          obtain rfl := Option.some.inj ho'
          exact ⟨forms, order, hforms, horder⟩
    | _ => contradiction

theorem exists_form_of_canonicalForm {ns : List Node} {forms : List Form}
    (h : canonicalForm ns = .ok forms) {n : Node} (hn : n ∈ ns) :
  ∃ f, Node.form n = .ok f
  := by
  obtain ⟨fs, hfs, -⟩ := exists_of_bind_eq_ok h
  obtain ⟨f, -, hf⟩ := exists_of_mapM hfs hn
  exact ⟨f, hf⟩

/-- All orders of an equation that has a canonical form are normal. -/
theorem exists_normalOrder {ns : List Node} {forms : List Form} (h : canonicalForm ns = .ok forms) :
  ∀ n ∈ walk ns, ∀ o ∈ n.shape.order?, ∃ forms order, canonicalForm o = .ok forms
    ∧ Form.normalOrder forms = .ok order
  := by
  have hnode : ∀ m : Node, (∃ f, Node.form m = .ok f) → ∀ n ∈ Tree.walk m, ∀ o ∈ n.shape.order?,
      ∃ forms order, canonicalForm o = .ok forms ∧ Form.normalOrder forms = .ok order := by
    intro m
    induction m using Tree.induction with
    | h l s ih =>
      rintro ⟨f, hf⟩ n hn
      obtain ⟨hslots, horder⟩ := Node.exists_of_form hf
      rw [Tree.walk_mk] at hn
      rcases List.mem_cons.1 hn with rfl | hn
      · apply horder
      · obtain ⟨child, hchild, hn⟩ := List.mem_flatMap.1 hn
        obtain ⟨slot, hslot, hmem⟩ := List.mem_flatMap.1 hchild
        obtain ⟨forms, hforms⟩ := hslots slot hslot
        apply ih child (s.children_subset hchild) (exists_form_of_canonicalForm hforms hmem) n hn
  intro n hn
  obtain ⟨m, hm, hn⟩ := List.mem_flatMap.1 hn
  apply hnode m (exists_form_of_canonicalForm h hm) n hn

/-! ### The form of a numeral -/

theorem Node.exists_form_of_plainText? {n : Node} {v : Text} (h : plainText? n = some v) :
  ∃ f, form n = .ok f ∧ ∀ u, Form.join f (Form.join (Form.ofText [] u {}) [])
    = Form.join (Form.ofText [] (v ++ u) {}) []
  := by
  obtain ⟨l, s⟩ := n
  cases s with
  | text value format scale =>
    simp only [plainText?, Tree.shape, Option.ite_none_right_eq_some, Option.some.injEq] at h
    obtain ⟨⟨houter, hplain⟩, rfl⟩ := h
    refine ⟨_, form_mk l rfl, ?_⟩
    intro u
    cases value with
    | nil => rfl
    | cons c cs =>
      obtain rfl := hplain.resolve_left (List.cons_ne_nil _ _)
      have hwrappers : formWrappers l.wrapping (.text (c :: cs) {} scale : Shape Node) = [] :=
        congrArg _ houter
      rw [hwrappers]
      cases u <;> simp [Form.join, Form.ofText, Form.text?, Tree.shape, Tree.label]
  | _ => contradiction

/-- The canonical form of siblings that are written as plain text is that text. -/
theorem canonicalForm_of_plainText? {ns : List Node} {w : Text} (h : plainText? ns = some w) :
  canonicalForm ns = .ok (Form.join (Form.ofText [] w {}) [])
  := by
  induction ns generalizing w with
  | nil =>
    obtain rfl := Option.some.inj h
    rfl
  | cons n ns ih =>
    obtain ⟨v, u, hv, hu, rfl⟩ := plainText?_cons_eq_some h
    obtain ⟨f, hf, hjoin⟩ := Node.exists_form_of_plainText? hv
    obtain ⟨fs, hfs, hrest⟩ := exists_of_bind_eq_ok (ih hu)
    rw [canonicalForm, List.mapM_cons, hf, hfs]
    change Except.ok (Form.join f (Form.joinAll fs)) = _
    rw [Except.ok.inj hrest, hjoin]

/-- A numeral with a normal form has few enough digits. -/
theorem length_le_of_normalOrder {o : List Node} {digits : Text} (h : numeral? o = some digits)
    {forms : List Form} (hforms : canonicalForm o = .ok forms) {order : Order Form}
    (horder : Form.normalOrder forms = .ok order) :
  digits.length ≤ Numeral.maxDigits
  := by
  obtain ⟨hplain, hisPlain⟩ := Option.filter_eq_some_iff.1 h
  obtain ⟨hne, hdigits⟩ := Numeral.all_isDigit_of_isPlain hisPlain
  have hjoin : Form.join (Form.ofText [] digits {}) [] = [Form.ofText [] digits {}] := by
    cases digits with
    | nil => contradiction
    | cons => rfl
  rw [canonicalForm_of_plainText? hplain, hjoin] at hforms
  obtain rfl := Except.ok.inj hforms
  by_contra hlong
  rw [Form.normalOrder, numeralOf?_numeral hisPlain] at horder
  simp only [Numeral.read_digits hne hdigits, if_pos (Nat.lt_of_not_le hlong)] at horder
  contradiction

/-! ### What has a spelling -/

/-- A node in which nothing is without a spelling: no delimiter is a letter, a color ends where
its braces do, a name is not that of a built-in operator, and no ampersand is mistaken. -/
structure Node.Spellable (structural : Bool) (n : Node) : Prop where
  delimiters : ∀ d ∈ n.shape.delimiters, ∀ c ∈ d, Text.isLetter c = false
  color : ∀ c, n.wrapping.params.color = some (.text c) → Closed false c
  name : ∀ w ∈ operatorNames, Formula.plainText? n.shape.name ≠ some w
  spares : ∀ slot ∈ n.shape.slots, SparesAmpersand slot.2
  cells : n.shape.grid?.isSome →
    ∀ slot ∈ n.shape.slots, ∀ k ∈ slot.2, exposes structural k = false

/-- An equation in which nothing is without a spelling. -/
structure Spellable (structural : Bool) (ns : List Node) : Prop where
  spares : SparesAmpersand ns
  nodes : ∀ n ∈ walk ns, n.Spellable structural

section Spellable

variable {structural : Bool} {s : Shape Node} {n : Node} {ns : List Node}

/-- A construct that was read is legible if nothing in it is without a spelling, and an order
in it is no numeral of too many digits. -/
theorem Shape.Legible.of_asRead (hsound : s.Sound) (h : s.AsRead .builtin)
    (hdelimiters : ∀ d ∈ s.delimiters, ∀ c ∈ d, Text.isLetter c = false)
    (hname : ∀ w ∈ operatorNames, plainText? s.name ≠ some w)
    (horder : ∀ o ∈ s.order?, ∀ digits, numeral? o = some digits →
      digits.length ≤ Numeral.maxDigits) :
  s.Legible
  := by
  cases s with
  | text v f scale =>
    obtain ⟨hgives, hformat, -⟩ := h
    obtain ⟨c, rfl, hc⟩ := hgives.exists_char
    constructor
    · intro d hd
      obtain rfl := List.mem_singleton.1 hd
      exact hc
    · rw [hformat]
      intro c hc
      contradiction
  | bracket left right =>
    obtain ⟨⟨c, rfl, hblank, hback⟩, ⟨d, rfl, hblank', hback'⟩, -⟩ := h
    simp only [delimiters, List.forall_mem_cons, List.not_mem_nil, false_implies, implies_true,
      and_true] at hdelimiters
    exact ⟨.char hblank hdelimiters.1 hback, .char hblank' hdelimiters.2 hback'⟩
  | derivative o =>
    cases o with
    | number => exact ⟨hsound, h⟩
    | sequence o => exact horder o rfl
  | matrix => exact ⟨h, by have := hsound.rows; omega, by have := hsound.cols; omega⟩
  | stack => exact ⟨by have := hsound.rows; omega, by have := hsound.cols; omega⟩
  | cases => exact ⟨by have := hsound.rows; omega, by have := hsound.cols; omega⟩
  | function =>
    obtain ⟨info, hinfo, hcommand, hbase, hconstraint⟩ := h
    refine ⟨info, hinfo, hcommand, hbase, hconstraint, ?_⟩
    intro _ w hw
    apply hname w (mem_operatorNames hw)
  | _ => exact hsound

/-- A node that was read is legible if it is spellable. -/
theorem Node.Spellable.legible (h : n.Spellable structural) (hread : n.AsRead .builtin)
    (horder : ∀ o ∈ n.shape.order?, ∀ digits, numeral? o = some digits →
      digits.length ≤ Numeral.maxDigits) :
  n.Legible structural
  where
  outer := by
    apply hread.wrapping.sound.clean_outerWrappers
    intro p hp
    obtain ⟨c, rfl, hne, hstrip⟩ := hread.wrapping.color p hp
    exact ⟨c, rfl, hne, hstrip, h.color c hp⟩
  nodup := hread.wrapping.sound.nodup_outerWrappers
  shape := .of_asRead hread.sound hread.shape h.delimiters h.name horder
  spares := h.spares
  cells := h.cells

/-- An equation that was read and has a canonical form is legible if it is spellable. -/
theorem Spellable.legible (h : Spellable structural ns) (hread : AllRead .builtin ns)
    {forms : List Form} (hform : canonicalForm ns = .ok forms) :
  Legible structural ns
  where
  spares := h.spares
  nodes n hn := by
    apply (h.nodes n hn).legible (hread n hn)
    intro o ho digits hdigits
    obtain ⟨forms, order, hforms, horder⟩ := exists_normalOrder hform n hn o ho
    apply length_le_of_normalOrder hdigits hforms horder

/-- A node is spellable where its sketch is. -/
theorem Node.Spellable.of_sketch (h : (sketch n).Spellable structural) :
  n.Spellable structural
  := by
  have hspares := spares_of_sketch h.spares
  have hcells := cells_of_sketch h.cells
  obtain ⟨hdelimiters, hcolor, hname, -, -⟩ := h
  obtain ⟨l, s⟩ := n
  rw [sketch_mk] at hdelimiters hcolor hname
  refine ⟨?_, hcolor, ?_, hspares, hcells⟩
  · cases s <;> exact hdelimiters
  · intro w hw
    have hsketch := hname w hw
    cases s with
    | function => rwa [← Formula.plainText?_sketch]
    | _ => exact hsketch

/-- An equation is spellable where its sketch is. -/
theorem Spellable.of_sketch (h : Spellable structural (ns.map Node.sketch)) :
  Spellable structural ns
  where
  spares := h.spares.of_sketch
  nodes n hn := by
    apply Node.Spellable.of_sketch
    apply h.nodes
    rw [walk_sketch]
    apply List.mem_map_of_mem hn

end Spellable

/-! ### The second trip -/

section SecondTrip

variable {config : Config} {supply : Supply} {s : Text} {again : List Node}

/-- What markup is read as is equivalent to what it is read as after it was written again, if
it has a canonical form and everything in it has a spelling. -/
theorem Spellable.exists_equivalent_again
    (hread : ((ofMarkup .builtin config s).runOn supply).1 = .ok again)
    (hform : ∃ forms, canonicalForm again = .ok forms)
    (hspellable : Spellable config.write.structural again) (supply' : Supply) :
  ∃ markup again', toMarkup .builtin config.write again = .ok markup
    ∧ ((ofMarkup .builtin config markup).runOn supply').1 = .ok again'
    ∧ equivalent again' again = .ok true
  := by
  have hall : AllRead .builtin again := by
    have hyields := yields_ofMarkup .builtin config s supply
    rcases hr : (ofMarkup .builtin config s).runOn supply with ⟨fault | made, rest⟩
    · rw [hr] at hread
      contradiction
    · rw [hr] at hread hyields
      obtain rfl := Except.ok.inj hread
      exact hyields.2.2.1
  obtain ⟨forms, hforms⟩ := hform
  apply (hspellable.legible hall hforms).exists_again ⟨forms, hforms⟩

end SecondTrip

theorem spellable_quotient :
  Spellable false [quotient (.number 1)]
  where
  spares := SparesAmpersand.of_value (by simp [quotient, Node.plain, Tree.shape, Shape.value])
  nodes n hn := by
    have hmem : n = quotient (.number 1) ∨ n = charNode 'f' ∨ n = charNode 'x' := by
      simpa [walk, quotient, charNode, Node.plain, Tree.walk_mk, Shape.children, Shape.slots,
        Shape.slots.present, Order.slot?] using hn
    have hchar : ∀ c, c ≠ '＆' → SparesAmpersand [charNode c] := by
      intro c hc
      apply SparesAmpersand.of_value
      simpa [charNode, Node.plain, Tree.shape, Shape.value] using hc.symm
    rcases hmem with rfl | rfl | rfl
    · refine ⟨fun _ h => by contradiction, fun _ h => by contradiction, by decide, ?_,
        fun h => by contradiction⟩
      intro slot hslot
      have hmem : slot = (.function, [charNode 'f']) ∨ slot = (.differentials, [charNode 'x']) := by
        simpa [quotient, Node.plain, Tree.shape, Shape.slots, Shape.slots.present, Order.slot?]
          using hslot
      rcases hmem with rfl | rfl
      · apply hchar _ (by decide)
      · apply hchar _ (by decide)
    all_goals exact ⟨fun _ h => by contradiction, fun _ h => by contradiction, by decide,
      fun _ h => by contradiction, fun h => by contradiction⟩

theorem exists_equivalent_again_quotient :
  ∃ again, ((ofMarkup .builtin {} "\\derivfrac{d^{1}f}{dx^{1}}".toList).runOn {}).1 = .ok again
    ∧ (∃ forms, canonicalForm again = .ok forms) ∧ Spellable false again
    ∧ ∃ markup again', toMarkup .builtin {} again = .ok markup
      ∧ ((ofMarkup .builtin {} markup).runOn {}).1 = .ok again'
      ∧ equivalent again' again = .ok true
  := by
  have hexpressible : Expressible {} [quotient (.sequence [charNode '1'])] :=
    expressible_quotient_char {} rfl
  obtain ⟨m, hm, hspelled⟩ := hexpressible.legible.exists_toMarkup
  obtain rfl : "\\derivfrac{d^{1}f}{dx^{1}}".toList = m :=
    Except.ok.inj (toMarkup_quotient_char.symm.trans hm)
  obtain ⟨made, hread, hbare⟩ := hspelled.exists_ofMarkup {} {}
  have hquotient : made.map Node.bare = [quotient (.number 1)] := hbare
  have hform : ∃ forms, canonicalForm (({} : Config).store made) = .ok forms := by
    rw [Config.canonicalForm_store, ← canonicalForm_bare, hquotient]
    exact ⟨_, rfl⟩
  have hspellable : Spellable false (({} : Config).store made) := by
    apply Spellable.of_sketch
    rw [map_sketch_store, ← map_sketch_bare, hquotient]
    exact spellable_quotient
  exact ⟨_, hread, hform, hspellable,
    @Spellable.exists_equivalent_again {} {} _ _ hread hform hspellable {}⟩

end Formula
