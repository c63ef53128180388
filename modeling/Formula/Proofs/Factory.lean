import Formula.Proofs.Canonical
import Formula.Proofs.Sound
import Formula.Proofs.Written

/-!
# Well-formed equations

An equation is expressible when its nodes are made by blueprints, its wrappers were applied
one by one, and its texts, colors, delimiters, orders and names are among those that markup
can express.  It is well formed when its orders have canonical forms besides.  An expressible
equation is legible, and a well-formed one has a canonical form.
-/

namespace Formula

open Markup Writing

/-! ### Parts of a construct -/

namespace Shape

variable {α : Type}

/-- The color among the attributes of a construct. -/
def color : Shape α → Option Text
  | .text _ f _ => f.color
  | _ => none

/-- The delimiters of a construct. -/
def delimiters : Shape α → List Text
  | .bracket l r _ _ _ _ _ => [l, r]
  | _ => []

/-- The order of a construct, if it is an expression. -/
def order? : Shape α → Option (List α)
  | .derivative (.sequence s) _ _ _ _ _ => some s
  | _ => none

end Shape

/-! ### Ampersands -/

/-- A character that is read is part of a text. -/
theorem Node.mem_value_of_mem_inside {n : Node} {c : Char} (h : charNode c ∈ inside n) :
  c ∈ n.shape.value
  := by
  obtain ⟨l, s⟩ := n
  cases s with
  | text v f scale =>
    obtain ⟨d, hd, hchar⟩ := List.mem_map.1 h
    have hshape := congrArg Tree.shape hchar
    simp only [Node.rewrap, Tree.withWrapping, Tree.withLabel, charWith, charNode, Tree.shape,
      Shape.text.injEq, List.cons.injEq] at hshape
    rw [← hshape.1.1]
    apply hd
  | _ => cases congrArg Tree.shape (List.mem_singleton.1 h)

/-- Siblings without a fullwidth ampersand. -/
theorem SparesAmpersand.of_value {ns : List Node} (h : ∀ n ∈ ns, '＆' ∉ n.shape.value) :
  SparesAmpersand ns
  where
  group g hg n _ w _ _ heq := by
    have hmem : charNode '＆' ∈ g.flatMap Node.inside := by simp [heq]
    obtain ⟨k, hk, hinside⟩ := List.mem_flatMap.1 hmem
    apply h k (mem_of_mem_groups hg hk) (Node.mem_value_of_mem_inside hinside)
  run g hg r hr n _ F _ _ heq := by
    have hmem : '＆' ∈ r.flatMap (·.shape.value) := by simp [heq]
    obtain ⟨k, hk, hvalue⟩ := List.mem_flatMap.1 hmem
    apply h k (mem_of_mem_groups hg (mem_of_mem_runs hr hk)) hvalue

/-- A node in which no ampersand is a delimiter. -/
theorem Node.exposes_eq_false {structural : Bool} {n : Node}
    (h : ∀ k ∈ Tree.walk n, ['&'] ∉ k.shape.delimiters) :
  exposes structural n = false
  := by
  induction n using Tree.induction with
  | h l s ih =>
    rw [Tree.walk_mk] at h
    have hself := h _ List.mem_cons_self
    have hslot : ∀ slot ∈ s.slots, (slot.2.map (exposes structural)).any id = false := by
      intro slot hslot
      rw [List.any_map, List.any_eq_false]
      intro k hk
      have hchild : k ∈ s.children := List.mem_flatMap.2 ⟨slot, hslot, hk⟩
      rw [Function.comp, ih k (Shape.children_subset s hchild) fun m hm =>
        h m (List.mem_cons_of_mem _ (List.mem_flatMap.2 ⟨k, hchild, hm⟩))]
      simp
    rw [exposes_mk, Bool.and_eq_false_iff]
    right
    cases s with
    | bracket left right content =>
      simp only [Shape.delimiters, Tree.shape, List.mem_cons, List.not_mem_nil, or_false, not_or]
        at hself
      have hcontent := hslot (.content, content) (by simp [Shape.slots])
      simp [Shape.map, Shape.mapSlots, Shape.mapSlotsOr, Shape.exposes, hcontent, Ne.symm hself.1,
        Ne.symm hself.2]
    | nthRoot index radicand => apply hslot (.index, index) (by simp [Shape.slots])
    | derivative order =>
      cases order with
      | number => rfl
      | sequence nodes =>
        have horder := hslot (.order, nodes)
          (by simp [Shape.slots, Shape.slots.present, Order.slot?])
        simp [Shape.map, Shape.mapSlots, Shape.mapSlotsOr, Shape.mapSlotsOr.order, Shape.exposes,
          horder]
    | _ => rfl

/-! ### Tidy nodes -/

/-- A node of which the wrappers are legible and no ampersand is mistaken. -/
structure Node.Tidy (n : Node) : Prop where
  outer : ∀ w ∈ n.outer, w.Clean
  nodup : (n.outer.map (·.1)).Nodup
  value : '＆' ∉ n.shape.value
  delimiters : ['&'] ∉ n.shape.delimiters

/-- Where no ampersand is mistaken, an equation is legible if its constructs are. -/
theorem Legible.of_tidy {structural : Bool} {ns : List Node} (htidy : ∀ n ∈ walk ns, n.Tidy)
    (hshape : ∀ n ∈ walk ns, n.shape.Legible) :
  Legible structural ns
  where
  spares := SparesAmpersand.of_value fun n hn => (htidy n (mem_walk_of_mem hn)).value
  nodes n hn := by
    have hbelow : ∀ slot ∈ n.shape.slots, walk slot.2 ⊆ walk ns := by
      intro slot hslot k hk
      obtain ⟨m, hm, hn⟩ := List.mem_flatMap.1 hn
      apply List.mem_flatMap.2 ⟨m, hm, Tree.walk_subset hn (walk_slot_subset hslot hk)⟩
    refine ⟨(htidy n hn).outer, (htidy n hn).nodup, hshape n hn, ?_, ?_⟩
    · intro slot hslot
      apply SparesAmpersand.of_value
      intro k hk
      apply (htidy k (hbelow slot hslot (mem_walk_of_mem hk))).value
    · intro _ slot hslot k hk
      apply Node.exposes_eq_false
      intro m hm
      apply (htidy m (hbelow slot hslot (List.mem_flatMap.2 ⟨k, hk, hm⟩))).delimiters

/-! ### Colors and wrappers -/

/-- A color with a name that has no blanks around it, and neither backslashes nor braces. -/
structure PlainColor (color : Text) : Prop where
  ne_nil : color ≠ []
  strip : Text.strip color = color
  plain : ∀ c ∈ color, c ≠ '\\' ∧ c ≠ '{' ∧ c ≠ '}'

theorem PlainColor.clean {color : Text} (h : PlainColor color) :
  CleanColor color
  where
  ne_nil := h.ne_nil
  strip := h.strip
  closed := Closed.plain h.plain (by simp)

section Outer

variable {w : Wrapping} {s : Shape Node}

/-- The wrappers around a node are of different kinds. -/
theorem Wrapping.Sound.nodup_outerWrappers (h : w.Sound) :
  ((outerWrappers w s).map (·.1)).Nodup
  := by
  simp only [outerWrappers, List.map_map, Function.comp_def, List.map_id']
  apply h.nodup.filter

/-- The wrappers around a node are read as they are written if the color is. -/
theorem Wrapping.Sound.clean_outerWrappers (h : w.Sound)
    (hcolor : ∀ p ∈ w.params.color, ∃ c, p = .text c ∧ CleanColor c) :
  ∀ x ∈ outerWrappers w s, x.Clean
  := by
  intro x hx
  simp only [outerWrappers, List.mem_map, List.mem_filter] at hx
  obtain ⟨kind, ⟨hmem, -⟩, rfl⟩ := hx
  obtain ⟨p, hp⟩ := Option.isSome_iff_exists.1 ((h.mem_order_iff kind).1 hmem)
  rw [Wrapping.param, hp, Option.getD_some]
  cases kind with
  | underline =>
    obtain ⟨style, rfl⟩ := h.underline p hp
    apply Wrapper.Clean.underline
  | cancel =>
    obtain rfl := h.cancel p hp
    apply Wrapper.Clean.cancel
  | color =>
    obtain ⟨c, rfl, hc⟩ := hcolor p hp
    apply Wrapper.Clean.color hc
  | textMode =>
    obtain rfl := h.textMode p hp
    apply Wrapper.Clean.textMode

/-- A color around a node is the one that its wrapping holds. -/
theorem Node.color_of_mem_outer {n : Node} {c : Text} (h : (.color, .text c) ∈ n.outer) :
  n.wrapping.params.color = some (.text c)
  := by
  simp only [Node.outer, outerWrappers, List.mem_map, Prod.mk.injEq] at h
  obtain ⟨kind, -, rfl, hparam⟩ := h
  rw [Wrapping.param, WrapperParams.get?] at hparam
  cases hcolor : n.wrapping.params.color with
  | none =>
    rw [hcolor] at hparam
    cases hparam
  | some p =>
    rw [hcolor, Option.getD_some] at hparam
    rw [hparam]

end Outer

/-! ### Well-formed nodes -/

/-- The construct without the size of its delimiters. -/
def Shape.unsized {α : Type} : Shape α → Shape α
  | .bracket l r c _ _ p q => .bracket l r c 0 none p q
  | s => s

/-- The construct as it is made: with nothing in its slots, and a bracket of no size. -/
def Shape.asMade (s : Shape Node) : Shape Node := (s.mapSlots fun _ => []).unsized

/-- Some blueprint makes such a construct. -/
def Shape.FromBlueprint (s : Shape Node) : Prop :=
  ∃ (blueprint : Blueprint) (supply : Supply) (made : Node),
    (blueprint.build.runOn supply).1 = .ok made ∧ made.shape.asMade = s.asMade

theorem Shape.sound_asMade_iff {s : Shape Node} :
  s.asMade.Sound ↔ s.Sound
  := by
  have hunsized : ∀ s : Shape Node, s.unsized.Sound ↔ s.Sound := by
    intro s
    cases s <;> rfl
  rw [asMade, hunsized, mapSlots, sound_mapSlotsOr_iff]

theorem Shape.FromBlueprint.sound {s : Shape Node} (h : s.FromBlueprint) :
  s.Sound
  := by
  obtain ⟨blueprint, supply, made, hmade, hshape⟩ := h
  rw [← Shape.sound_asMade_iff, ← hshape, Shape.sound_asMade_iff]
  apply (Blueprint.sound_build blueprint).of_ok hmade

/-- The names of all operators that are read as built-in functions. -/
def operatorNames : List Text := reservedNames .simple ++ reservedNames .withConstraint

/-- The slots of a function that its type does not write are empty, and a name that is
written is not that of an operator. -/
structure FunctionExpressible (config : WriteConfig) (info : FunctionInfo)
    (name base constraint : List Node) : Prop where
  name_eq : info.command.isSome → name = []
  base_eq : info.form ≠ .withBase → base = []
  constraint_eq : info.form ≠ .withConstraint → constraint = []
  markup_ne : info.command = none → ∀ w ∈ operatorNames, toMarkup .builtin config name ≠ .ok w

/-- An order that has few enough digits to be written, be it a number or an expression that
spells one. -/
def Order.Expressible : Order Node → Prop
  | .number n => Numeral.isWritable n = true
  | .sequence s => ∀ digits, numeral? s = some digits → digits.length ≤ Numeral.maxDigits

/-- The fields of a construct are among those that markup can express. -/
def Shape.Expressible (config : WriteConfig) : Shape Node → Prop
  | .text v f _ => (∀ c ∈ v, isTextChar c = true ∧ c ≠ '＆') ∧ ∀ c ∈ f.color, PlainColor c
  | .bracket l r _ _ _ _ _ => l ∈ Delimiter.glyphs ∧ r ∈ Delimiter.glyphs
  | .derivative o _ _ _ _ _ => o.Expressible
  | .matrix t _ => t.isSome
  | .function t a _ c d =>
    ∀ info, FunctionInfo.find? t = some info → FunctionExpressible config info a c d
  | _ => True

/-- A node that a blueprint makes, to which wrappers were applied. -/
structure Node.Expressible (config : WriteConfig) (n : Node) : Prop where
  made : n.shape.FromBlueprint
  wrapped : n.wrapping.Reachable
  color : ∀ p ∈ n.wrapping.params.color, ∃ c, p = .text c ∧ PlainColor c
  shape : n.shape.Expressible config

/-- An equation of which all nodes are expressible. -/
def Expressible (config : WriteConfig) (ns : List Node) : Prop :=
  ∀ n ∈ walk ns, n.Expressible config

/-- An expression that may be compared as the order of a derivative: if it is a run of digits,
it is a numeral. -/
def NormalOrder (s : List Node) : Prop :=
  ∀ forms, canonicalForm s = .ok forms → ∃ order, Form.normalOrder forms = .ok order

/-- An expressible equation of which the orders may be compared. -/
structure WellFormed (config : WriteConfig) (ns : List Node) : Prop where
  expressible : Expressible config ns
  normal : ∀ n ∈ walk ns, ∀ o ∈ n.shape.order?, NormalOrder o

/-! ### Expressible equations are legible -/

section Expressible

variable {config : WriteConfig} {n : Node} {ns : List Node}

theorem Node.Expressible.value (h : n.Expressible config) :
  '＆' ∉ n.shape.value
  := by
  intro hmem
  obtain ⟨l, s⟩ := n
  cases s with
  | text => apply (h.shape.1 _ hmem).2 rfl
  | _ => contradiction

theorem Node.Expressible.delimiters (h : n.Expressible config) :
  ['&'] ∉ n.shape.delimiters
  := by
  have hglyphs : ['&'] ∉ Delimiter.glyphs := by decide
  intro hmem
  obtain ⟨l, s⟩ := n
  cases s with
  | bracket left right =>
    simp only [Shape.delimiters, Tree.shape, List.mem_cons, List.not_mem_nil, or_false] at hmem
    rcases hmem with rfl | rfl
    · apply hglyphs h.shape.1
    · apply hglyphs h.shape.2
  | _ => contradiction

/-- A text of letters and digits is written as itself. -/
theorem toMarkup_of_plainText? {w : Text} (h : plainText? ns = some w)
    (hw : ∀ c ∈ w, isPlainChar c = true) :
  toMarkup .builtin config ns = .ok w
  := by
  have hpieces := @writePieces_of_plainText? (settingsFor config ns) false _ _ rfl h hw
  rw [toMarkup_eq, hpieces, Except.map, trimMarkup_of_isPlainChar hw]

/-- A name that is read as an operator is written as its markup. -/
theorem toMarkup_of_operator {w : Text} (hw : w ∈ operatorNames) (h : plainText? ns = some w) :
  toMarkup .builtin config ns = .ok w
  := by
  have hletters : Text.isLetters w = true := by
    rcases List.mem_append.1 hw with hw | hw
    · apply isLetters_reservedNames _ _ hw
    · apply isLetters_reservedNames _ _ hw
  apply toMarkup_of_plainText? h (isPlainChar_of_isLetters hletters)

theorem mem_operatorNames {form : FunctionForm} {w : Text} (h : w ∈ reservedNames form) :
  w ∈ operatorNames
  := by
  cases form with
  | withConstraint => apply List.mem_append_right _ h
  | _ => apply List.mem_append_left _ h

/-- A sound construct that is expressible is legible. -/
theorem Shape.Expressible.legible {s : Shape Node} (h : s.Expressible config)
    (hsound : s.Sound) :
  s.Legible
  := by
  cases s with
  | text v f =>
    exact ⟨fun c hc => (h.1 c hc).1, fun c hc => (h.2 c hc).clean⟩
  | bracket => exact ⟨.known h.1, .known h.2⟩
  | derivative order =>
    cases order with
    | number => exact ⟨hsound, h⟩
    | sequence nodes => exact h
  | matrix => exact ⟨h, by have := hsound.rows; omega, by have := hsound.cols; omega⟩
  | stack => exact ⟨by have := hsound.rows; omega, by have := hsound.cols; omega⟩
  | cases => exact ⟨by have := hsound.rows; omega, by have := hsound.cols; omega⟩
  | function type =>
    obtain ⟨info, hinfo⟩ := Option.isSome_iff_exists.1 hsound
    have hfunction := h info hinfo
    refine ⟨info, hinfo, hfunction.name_eq, hfunction.base_eq, hfunction.constraint_eq, ?_⟩
    intro hnone w hw hplain
    have hmem := mem_operatorNames hw
    apply hfunction.markup_ne hnone w hmem (toMarkup_of_operator hmem hplain)
  | _ => apply hsound

/-- An expressible node is tidy. -/
theorem Node.Expressible.tidy (h : n.Expressible config) :
  n.Tidy
  where
  outer := by
    apply h.wrapped.sound.clean_outerWrappers
    intro p hp
    obtain ⟨c, hc, hplain⟩ := h.color p hp
    exact ⟨c, hc, hplain.clean⟩
  nodup := h.wrapped.sound.nodup_outerWrappers
  value := h.value
  delimiters := h.delimiters

/-- Every expressible equation is legible. -/
theorem Expressible.legible (h : Expressible config ns) :
  Legible config.structural ns
  := by
  apply Legible.of_tidy fun n hn => (h n hn).tidy
  intro n hn
  apply (h n hn).shape.legible (h n hn).made.sound

end Expressible

/-! ### Canonical forms exist -/

theorem Shape.mapSlotsM_pure {ε : Type} {α : Type} (s : Shape α) :
  s.mapSlotsM (fun slot => (.ok slot : Except ε (List α))) = .ok s
  := by
  have hoptional : ∀ p : Option (List α),
      mapSlotsM.optional (fun slot => (.ok slot : Except ε (List α))) p = .ok p := by
    intro p
    cases p <;> rfl
  have hcells : ∀ cells : List ((Nat × Nat) × List α),
      mapSlotsM.cells (fun slot => (.ok slot : Except ε (List α))) cells = .ok cells := by
    intro cells
    induction cells with
    | nil => rfl
    | cons entry rest ih =>
      rw [mapSlotsM.cells, ih]
      rfl
  have hgrid : ∀ g : Grid α,
      mapSlotsM.grid (fun slot => (.ok slot : Except ε (List α))) g = .ok g := by
    intro g
    rw [mapSlotsM.grid, hcells]
    rfl
  cases s with
  | derivative o => cases o <;> rfl
  | script a p q => simp only [mapSlotsM, hoptional]; rfl
  | bracket l r c d scale p q => simp only [mapSlotsM, hoptional]; rfl
  | integral t style l m a b p q => simp only [mapSlotsM, hoptional]; rfl
  | accent t p a l => simp only [mapSlotsM, hoptional]; rfl
  | matrix t g => simp only [mapSlotsM, hgrid]; rfl
  | stack g => simp only [mapSlotsM, hgrid]; rfl
  | cases g => simp only [mapSlotsM, hgrid]; rfl
  | _ => rfl

/-- A node of which the slots have canonical forms has one. -/
theorem Node.exists_form {l : Label} {s : Shape Node}
    (hslots : ∀ slot ∈ s.slots, ∃ forms, canonicalForm slot.2 = .ok forms)
    (horder : ∀ o ∈ s.order?, NormalOrder o) :
  ∃ f, form (.mk l s) = .ok f
  := by
  cases hsymbolic : s.isSymbolic with
  | false =>
    let forms := fun slot : List Node => (canonicalForm slot).toOption.getD []
    have hforms : ∀ slot ∈ s.slots, .ok (forms slot.2) = canonicalForm slot.2 := by
      intro slot hslot
      obtain ⟨made, hmade⟩ := hslots slot hslot
      simp only [forms, hmade]
      rfl
    rw [form_mk l hsymbolic, ← Shape.mapSlotsM_congr hforms, Shape.mapSlotsM_pure]
    exact ⟨_, rfl⟩
  | true =>
    cases s with
    | derivative order longForm isPartial mode a b =>
      cases order with
      | number => contradiction
      | sequence o =>
        obtain ⟨forms, hforms⟩ := hslots (.order, o)
          (by simp [Shape.slots, Shape.slots.present, Order.slot?])
        obtain ⟨order, hnormal⟩ := horder o rfl forms hforms
        obtain ⟨fa, ha⟩ := hslots (.function, a) (by simp [Shape.slots])
        obtain ⟨fb, hb⟩ := hslots (.differentials, b) (by simp [Shape.slots])
        simp only at hforms ha hb
        rw [form_symbolic, hforms, ha, hb]
        change ∃ f, (do
          let order ← Form.normalOrder forms
          _) = Except.ok f
        rw [hnormal]
        exact ⟨_, rfl⟩
    | _ => contradiction

theorem exists_canonicalForm_of_forms {ns : List Node} (h : ∀ n ∈ ns, ∃ f, Node.form n = .ok f) :
  ∃ forms, canonicalForm ns = .ok forms
  := by
  obtain ⟨forms, hforms, -⟩ := @exists_mapM _ _ _ Node.form (fun _ _ => True) ns fun n hn => by
    obtain ⟨f, hf⟩ := h n hn
    exact ⟨f, hf, trivial⟩
  rw [canonicalForm, hforms]
  exact ⟨_, rfl⟩

/-- An equation in which all orders that are expressions are normal has a canonical form. -/
theorem exists_canonicalForm {ns : List Node} (h : ∀ n ∈ walk ns, ∀ o ∈ n.shape.order?, NormalOrder o) :
  ∃ forms, canonicalForm ns = .ok forms
  := by
  have hnode : ∀ n : Node, (∀ k ∈ Tree.walk n, ∀ o ∈ k.shape.order?, NormalOrder o) →
      ∃ f, Node.form n = .ok f := by
    intro n
    induction n using Tree.induction with
    | h l s ih =>
      intro h
      rw [Tree.walk_mk] at h
      apply Node.exists_form _ (h _ List.mem_cons_self)
      intro slot hslot
      apply exists_canonicalForm_of_forms
      intro n hn
      have hchild : n ∈ s.children := List.mem_flatMap.2 ⟨slot, hslot, hn⟩
      apply ih n (Shape.children_subset s hchild)
      intro k hk
      apply h k (List.mem_cons_of_mem _ (List.mem_flatMap.2 ⟨n, hchild, hk⟩))
  apply exists_canonicalForm_of_forms
  intro n hn
  apply hnode
  intro k hk
  apply h k (List.mem_flatMap.2 ⟨n, hn, hk⟩)

/-- Every well-formed equation has a canonical form. -/
theorem WellFormed.exists_canonicalForm {config : WriteConfig} {ns : List Node}
    (h : WellFormed config ns) :
  ∃ forms, canonicalForm ns = .ok forms
  := by
  apply Formula.exists_canonicalForm h.normal

end Formula
