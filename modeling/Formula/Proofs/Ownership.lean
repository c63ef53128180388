import Formula.Proofs.AsRead
import Formula.Proofs.Derivative
import Formula.Proofs.Endings

/-!
# What the readers give

Each reader, given lawful readers of the insides of an item, gives nodes that are as they are
read, and puts every node that is made into one slot.  It fails only for the order of a
derivative, when that has too many digits.
-/

namespace Formula

open Build Markup

variable {t : SymbolTable} {n : Nat} {nested : Nested} {s rest : Text}
  {given : Multiset Nat} {E : Fault → Prop}

/-- A numeral of more digits than may be read stands in a text of at most `n` characters. -/
def TooLong (n : Nat) (fault : Fault) : Prop :=
  ∃ digits : Text, fault = .numeral digits (.tooLong digits.length)
    ∧ Numeral.maxDigits < digits.length ∧ digits.length ≤ n

/-- The nodes of an item. -/
def Item.content : Item → List Node
  | .nodes ns => ns
  | .script _ ns => ns

/-- The nodes of the scripts that follow a construct. -/
def Bounds.content (b : Bounds) : List Node :=
  b.superscript.getD [] ++ b.subscript.getD []

/-- Readers of the insides of an item that give nodes as they are read, and own them. -/
structure Nested.Lawful (nested : Nested) (t : SymbolTable) (E : Fault → Prop) : Prop where
  sequence : ∀ s, Yields (nested.sequence s) id 0 (AllRead t) E
  spaced : ∀ s, Yields (nested.spaced s) id 0 (AllRead t) E
  item : ∀ s, Text.skipBlanks s = s →
    Yields (nested.item s) Prod.fst 0 (fun r => AllRead t r.1) E

/-- An item is as it is read, and owns the given identifiers and those taken. -/
abbrev Build.YieldsItem (b : Build (Item × Text)) (t : SymbolTable) (given : Multiset Nat)
    (E : Fault → Prop) : Prop :=
  Yields b (·.1.content) given (fun r => AllRead t r.1.content) E

/-- A reader that is lawful where the readers of the insides are. -/
def Reader.Lawful (reader : Reader) (t : SymbolTable) : Prop :=
  ∀ (n : Nat) (nested : Nested), nested.Lawful t (TooLong n) → ∀ s : Text, s.length ≤ n →
    ∀ b ∈ reader t nested s, YieldsItem b t 0 (TooLong n)

/-! ### Single steps -/

/-- A node without wrappers is given with what stands in its slots. -/
theorem yieldsItem_node {i : Nat} {shape : Shape Node}
    (hids : {i} + ids shape.children = given) (hsound : shape.Sound) (hread : shape.AsRead t)
    (hchildren : AllRead t shape.children) :
  YieldsItem (pure (Item.node i shape, rest)) t given E
  := by
  apply Yields.pure
  · rw [← hids]
    apply ids_mk
  · apply allRead_mk.2
    exact ⟨⟨.empty, hsound, hread⟩, hchildren⟩

/-- Nodes that were read already are given as they are. -/
theorem yieldsItem_nodes {ns : List Node} (hids : ids ns = given) (h : AllRead t ns) :
  YieldsItem (pure (Item.nodes ns, rest)) t given E
  := Yields.pure hids h

theorem allRead_text {i : Nat} {value : Text} (h : t.Gives value) :
  AllRead t [.plain i (.text value {} none)]
  := by
  apply allRead_mk.2
  refine ⟨⟨.empty, trivial, h, rfl, rfl⟩, ?_⟩
  apply allRead_nil

/-- A new text is given alone. -/
theorem yieldsItem_text {value : Text} (h : t.Gives value) :
  YieldsItem (do return (.nodes [← Build.text value], rest)) t 0 E
  := by
  apply Yields.node_bind
  intro i
  apply yieldsItem_nodes
  · apply ids_mk
  · apply allRead_text h

namespace Nested.Lawful

variable (h : nested.Lawful t E)

include h

theorem argument (s : Text) :
  Yields (nested.argument s) Prod.fst 0 (fun r => AllRead t r.1) E
  := by
  apply Yields.bind (h.sequence _)
  intro ns hns
  apply Yields.pure
  · rw [zero_add]
    rfl
  · apply hns

theorem group? (s : Text) :
  Yields (nested.group? s) Prod.fst 0 (fun r => AllRead t r.1) E
  := by
  rw [Nested.group?]
  split
  · apply Yields.pure
    · rfl
    · apply allRead_nil
  · apply Yields.bind (h.sequence _)
    intro ns hns
    apply Yields.pure
    · rw [zero_add]
      rfl
    · apply hns

end Nested.Lawful

/-! ### Scripts -/

namespace Bounds

variable {b : Bounds}

/-- A script that is read is added to those read before; one that stands next is there
afterwards. -/
theorem yields_readOne (h : nested.Lawful t E) (hb : AllRead t b.content) (s : Text) :
  Yields (readOne nested b s) (·.1.content) (ids b.content)
    (fun r => AllRead t r.1.content
      ∧ ((b.superscript.isSome ∨ b.subscript.isSome) ∨ (scriptMarker? s).isSome →
        r.1.superscript.isSome ∨ r.1.subscript.isSome)) E
  := by
  rw [readOne]
  split
  · rename_i hmarker
    apply Yields.pure rfl
    refine ⟨hb, ?_⟩
    rw [hmarker]
    simp
  · rename_i side after hmarker
    split
    · rename_i hpresent
      apply Yields.pure rfl
      refine ⟨hb, fun _ => ?_⟩
      cases side
      · apply Or.inl hpresent
      · apply Or.inr hpresent
    · rename_i habsent
      apply Yields.bind (h.sequence _)
      intro ns hns
      obtain ⟨p, q⟩ := b
      cases side with
      | superscript =>
        obtain rfl : p = none := by simpa [get?] using habsent
        apply Yields.pure
        · simp [set, content, add_comm]
        · simp_all [set, content]
      | subscript =>
        obtain rfl : q = none := by simpa [get?] using habsent
        apply Yields.pure
        · simp [set, content]
        · simp_all [set, content]

theorem yields_read (h : nested.Lawful t E) (s : Text) :
  Yields (read nested s) (·.1.content) 0
    (fun r => AllRead t r.1.content
      ∧ ((scriptMarker? s).isSome → r.1.superscript.isSome ∨ r.1.subscript.isSome)) E
  := by
  apply Yields.bind (yields_readOne h allRead_nil s)
  rintro ⟨b, rest⟩ ⟨hb, hsome⟩
  rw [zero_add]
  apply (yields_readOne h hb rest).mono _ fun _ hf => hf
  rintro r ⟨hr, hmore⟩
  refine ⟨hr, fun hmarker => hmore (Or.inl (hsome (Or.inr hmarker)))⟩

end Bounds

namespace Reading

/-! ### Styles, fractions and roots -/

theorem yields_applyMode {mode : DisplayMode} {ns : List Node} (h : AllRead t ns) :
  Yields (applyMode mode ns) id (ids ns) (AllRead t) E
  := by
  have hdropped : Yields (applyMode.dropped mode ns) id (ids ns) (AllRead t) E :=
    Yields.remark_bind _ (Yields.pure rfl h)
  unfold applyMode
  split
  · rename_i node
    obtain ⟨l, s⟩ := node
    split
    · rename_i s' hs'
      obtain ⟨hchildren, hsound, hread⟩ := Shape.of_withMode? (t := t) hs'
      rw [allRead_mk] at h
      apply Yields.pure
      · rw [ids_mk, show s.children = s'.children from hchildren.symm]
        apply ids_mk
      · apply allRead_mk.2
        refine ⟨⟨h.1.wrapping, hsound h.1.sound, hread h.1.shape⟩, ?_⟩
        rw [hchildren]
        apply h.2
    · apply hdropped
  · apply hdropped

/-- Nodes with a display mode set are given as an item. -/
theorem yields_styled {mode : DisplayMode} {ns : List Node} (h : AllRead t ns) :
  YieldsItem (do return (.nodes (← applyMode mode ns), rest)) t (ids ns) E
  := by
  rw [← zero_add (ids ns)]
  apply Yields.bind_handing (yields_applyMode h)
  intro ns hns
  apply yieldsItem_nodes
  · rw [zero_add]
    rfl
  · apply hns

theorem lawful_style : Reader.Lawful style t
  := by
  intro n nested h s hs b hb
  unfold style at hb
  split at hb
  · obtain ⟨⟨command, mode, -⟩, -, rfl⟩ := Option.map_eq_some_iff.1 hb
    apply Yields.bind (h.sequence _)
    intro ns hns
    rw [zero_add]
    apply yields_styled hns
  · obtain ⟨⟨-, mode, rest⟩, -, rfl⟩ := Option.map_eq_some_iff.1 hb
    dsimp only
    split
    · rw [pure_bind]
      apply yields_styled allRead_nil
    · apply Yields.bind (h.item _ (skipBlanks_skipBlanks rest))
      rintro ⟨ns, rest⟩ hns
      rw [zero_add]
      apply yields_styled hns

theorem lawful_fraction : Reader.Lawful fraction t
  := by
  intro n nested h s hs b hb
  obtain ⟨⟨command, mode, rest⟩, -, rfl⟩ := Option.map_eq_some_iff.1 hb
  apply Yields.fresh_bind
  intro i
  apply Yields.bind (h.sequence _)
  intro top htop
  apply Yields.bind (h.sequence _)
  intro bottom hbottom
  apply yieldsItem_node
  · simp [Shape.children, Shape.slots]
  · trivial
  · trivial
  · simpa [Shape.children, Shape.slots] using ⟨htop, hbottom⟩

theorem lawful_root : Reader.Lawful root t
  := by
  intro n nested h s hs b hb
  obtain ⟨rest, -, rfl⟩ := Option.map_eq_some_iff.1 hb
  apply Yields.fresh_bind
  intro i
  split
  · apply Yields.bind (h.sequence _)
    intro radicand hradicand
    apply yieldsItem_node
    · simp [Shape.children, Shape.slots]
    · trivial
    · trivial
    · simpa [Shape.children, Shape.slots] using hradicand
  · apply Yields.bind (h.sequence _)
    intro index hindex
    apply Yields.bind (h.sequence _)
    intro radicand hradicand
    apply yieldsItem_node
    · simp [Shape.children, Shape.slots]
    · trivial
    · trivial
    · simpa [Shape.children, Shape.slots] using ⟨hindex, hradicand⟩

/-! ### Derivatives -/

/-- A numeral that is recognised as an order is no longer than the text it stands in. -/
theorem of_numericOrder? {digits : Text} (h : numericOrder? s = some digits) :
  Numeral.isPlain digits = true ∧ digits.length ≤ s.length
  := by
  rw [numericOrder?_eq] at h
  split at h
  · rename_i hplain
    obtain rfl := Option.some.inj h
    refine ⟨hplain, ?_⟩
    rw [Text.trimBoth, List.length_reverse]
    have hback := (List.dropWhile_sublist Text.isMarginBlank
      (l := (s.dropWhile Text.isMarginBlank).reverse)).length_le
    have hfront := (List.dropWhile_sublist Text.isMarginBlank (l := s)).length_le
    rw [List.length_reverse] at hback
    exact hback.trans hfront
  · contradiction

/-- An order is read, unless it is a numeral of too many digits. -/
theorem yields_order (h : nested.Lawful t (TooLong n)) {o : Option Text}
    (ho : (o.getD []).length ≤ n) :
  Yields (order nested o) (fun o => (o.slot?).getD []) 0
    (fun o => AllRead t ((o.slot?).getD []) ∧ o.AsRead ∧ ∀ k, o = .number k → 1 ≤ k)
    (TooLong n)
  := by
  unfold order
  split
  · apply Yields.pure
    · rfl
    · refine ⟨allRead_nil, rfl, ?_⟩
      rintro _ ⟨⟩
      rfl
  · rename_i s
    split
    · apply Yields.bind (h.sequence s)
      intro ns hns
      apply Yields.pure
      · rw [zero_add]
        rfl
      · refine ⟨hns, trivial, ?_⟩
        rintro _ ⟨⟩
    · rename_i digits hnumeric
      obtain ⟨hplain, hlength⟩ := of_numericOrder? hnumeric
      obtain ⟨hne, hdigits⟩ := Numeral.all_isDigit_of_isPlain hplain
      rw [Numeral.read_digits hne hdigits]
      by_cases hlong : Numeral.maxDigits < digits.length
      · rw [if_pos hlong]
        apply Yields.throw
        exact ⟨digits, rfl, hlong, hlength.trans ho⟩
      · rw [if_neg hlong]
        apply Yields.pure
        · rfl
        · refine ⟨allRead_nil, Numeral.isWritable_ofDigitChars hplain (Nat.le_of_not_lt hlong), ?_⟩
          rintro _ ⟨⟩
          have := (Numeral.toDigits_ofDigitChars hplain).1
          omega

/-- A derivative is sound when its order is. -/
theorem sound_derivative {o : Order Node} (h : ∀ k, o = .number k → 1 ≤ k)
    {longForm isPartial : Bool} {mode : DisplayMode} {a b : List Node} :
  (Shape.derivative o longForm isPartial mode a b).Sound
  := by
  cases o with
  | number k => apply h k rfl
  | sequence => trivial

theorem lawful_derivative : Reader.Lawful derivative t
  := by
  intro n nested h s hs b hb
  obtain ⟨⟨command, meaning, rest⟩, hlongest, rfl⟩ := Option.map_eq_some_iff.1 hb
  have hrest := CommandTable.length_lt_of_longest? hlongest
  cases meaning with
  | structural isPartial =>
    apply Yields.fresh_bind
    intro i
    have hlength := length_optional_le rest
    rcases hoptional : Markup.optional rest with ⟨order?, rest⟩
    rw [hoptional] at hlength
    dsimp only at hlength ⊢
    apply Yields.bind (yields_order h (by omega))
    rintro order ⟨horder, hwritable, hpositive⟩
    split
    · apply Yields.bind (h.sequence _)
      intro differentials hdifferentials
      apply Yields.bind (h.sequence _)
      intro function hfunction
      apply yieldsItem_node
      · simp [Shape.children, Shape.slots]
        abel
      · apply sound_derivative hpositive
      · exact hwritable
      · simpa [Shape.children, Shape.slots] using ⟨horder, hfunction, hdifferentials⟩
    · apply Yields.bind (h.sequence _)
      intro function hfunction
      apply Yields.bind (h.sequence _)
      intro differentials hdifferentials
      apply yieldsItem_node
      · simp [Shape.children, Shape.slots]
        abel
      · apply sound_derivative hpositive
      · exact hwritable
      · simpa [Shape.children, Shape.slots] using ⟨horder, hfunction, hdifferentials⟩
    · apply Yields.bind (h.sequence _)
      intro differentials hdifferentials
      apply yieldsItem_node
      · simp [Shape.children, Shape.slots]
      · apply sound_derivative hpositive
      · exact hwritable
      · simpa [Shape.children, Shape.slots] using ⟨horder, hdifferentials⟩
  | asFraction mode longForm =>
    have hnumerator := length_argument_le rest
    dsimp only
    rw [fractionDerivative]
    rcases hargument : argument rest with ⟨numerator, rest⟩
    rw [hargument] at hnumerator
    dsimp only at hnumerator ⊢
    split
    · rename_i top bottom hpair
      apply Yields.fresh_bind
      intro i
      have horder := (Differential.lengths_of_pair? hpair).1
      apply Yields.bind (yields_order h (by omega))
      rintro order ⟨horder, hwritable, hpositive⟩
      apply Yields.bind (h.sequence _)
      intro body hbody
      apply Yields.bind (h.sequence _)
      intro differentials hdifferentials
      apply yieldsItem_node
      · simp [Shape.children, Shape.slots]
        abel
      · apply sound_derivative hpositive
      · exact hwritable
      · simpa [Shape.children, Shape.slots] using ⟨horder, hbody, hdifferentials⟩
    · apply Yields.remark_bind
      apply Yields.fresh_bind
      intro i
      apply Yields.bind (h.sequence _)
      intro above habove
      apply Yields.bind (h.sequence _)
      intro below hbelow
      have hfraction : AllRead t [Node.plain i (.fraction (some mode) above below)] := by
        apply allRead_mk.2
        refine ⟨⟨.empty, trivial, trivial⟩, ?_⟩
        simpa [Shape.children, Shape.slots] using ⟨habove, hbelow⟩
      split
      · apply Yields.bind (h.sequence _)
        intro after hafter
        apply yieldsItem_nodes
        · rw [ids_cons]
          simp [Shape.children, Shape.slots]
        · apply allRead_cons.2 ⟨hfraction, hafter⟩
      · rw [pure_bind]
        apply yieldsItem_nodes
        · simp [Shape.children, Shape.slots]
        · apply hfraction

/-! ### Grids -/

/-- A body has a row, and every row has a cell. -/
theorem splitRows_ne_nil (depth : Int) (s : Text) :
  splitRows depth s ≠ [] ∧ ∀ row ∈ splitRows depth s, row ≠ []
  := by
  have hadd : ∀ front rows, addToCell front rows ≠ []
      ∧ ((∀ row ∈ rows, row ≠ []) → ∀ row ∈ addToCell front rows, row ≠ []) := by
    intro front rows
    rcases rows with _ | ⟨_ | ⟨cell, cells⟩, rows⟩ <;> simp [addToCell]
  have hbegin : ∀ rows, beginCell rows ≠ []
      ∧ ((∀ row ∈ rows, row ≠ []) → ∀ row ∈ beginCell rows, row ≠ []) := by
    intro rows
    cases rows <;> simp [beginCell]
  fun_induction splitRows depth s <;> grind

/-- The greatest of some lengths is none less than any of them. -/
theorem le_foldl_max {α : Type} {f : α → Nat} (l : List α) (start : Nat) :
  start ≤ l.foldl (fun k a => max k (f a)) start
    ∧ ∀ a ∈ l, f a ≤ l.foldl (fun k a => max k (f a)) start
  := by
  induction l generalizing start with
  | nil => simp
  | cons a l ih =>
    obtain ⟨hstart, hall⟩ := ih (max start (f a))
    rw [List.foldl_cons]
    refine ⟨by omega, ?_⟩
    intro b hb
    rcases List.mem_cons.1 hb with rfl | hb
    · omega
    · apply hall b hb

/-- What is made in turn comes from something. -/
theorem exists_of_forall₂ {α β : Type} {R : α → β → Prop} {l : List α} {l' : List β} {b : β}
    (h : List.Forall₂ R l l') (hb : b ∈ l') :
  ∃ a ∈ l, R a b
  := by
  induction h with
  | nil => contradiction
  | cons hab _ ih =>
    rcases List.mem_cons.1 hb with rfl | hb
    · exact ⟨_, List.mem_cons_self, hab⟩
    · obtain ⟨a, ha, hab⟩ := ih hb
      exact ⟨a, List.mem_cons_of_mem _ ha, hab⟩

/-- A grid of some rows is given with what stands in the rows. -/
theorem yieldsItem_grid {kind : GridKind} {i cols : Nat} {cells : List (List (List Node))}
    (hrows : cells ≠ []) (hcols : 1 ≤ cols) (hlength : ∀ row ∈ cells, row.length ≤ cols)
    (hread : ∀ row ∈ cells, ∀ ns ∈ row, AllRead t ns) :
  YieldsItem (pure (Item.node i (kind.shape (.ofRows cols cells)), rest)) t
    ({i} + ids cells.flatten.flatten) E
  := by
  have hsound := Grid.sound_ofRows hrows hcols
  have hchildren : (kind.shape (.ofRows cols cells)).children = cells.flatten.flatten := by
    rw [← Grid.flatMap_cells_ofRows hlength, ← hsound.flatMap_slots]
    cases kind <;> rfl
  apply yieldsItem_node
  · rw [hchildren]
  · cases kind <;> exact hsound
  · cases kind <;> trivial
  · rw [hchildren, allRead_iff_forall]
    intro n hn
    obtain ⟨ns, hns, hn⟩ := List.mem_flatten.1 hn
    obtain ⟨row, hrow, hns⟩ := List.mem_flatten.1 hns
    apply allRead_iff_forall.1 (hread row hrow ns hns) n hn

theorem lawful_environment : Reader.Lawful environment t
  := by
  intro n nested h s hs b hb
  simp only [environment, Option.bind_eq_bind, Option.mem_def, Option.bind_eq_some_iff] at hb
  obtain ⟨⟨name, rest⟩, -, kind, -, hb⟩ := hb
  obtain rfl := Option.some.inj hb
  apply Yields.fresh_bind
  intro i
  apply Yields.bind (Yields.mapM fun row _ => Yields.mapM fun content _ => h.sequence content)
  intro cells hcells
  have hflatMap : List.flatMap (id : List Node → List Node) = List.flatten :=
    funext fun _ => List.flatMap_id
  have hflatten : List.flatMap (List.flatMap id) cells = cells.flatten.flatten := by
    rw [hflatMap, List.flatten_flatten, List.flatMap_def]
  rw [zero_add, hflatten]
  obtain ⟨hne, hnonempty⟩ := splitRows_ne_nil 0
    (environmentBody name (columnSpecification kind rest).2).1
  obtain ⟨-, hmax⟩ := le_foldl_max (f := List.length) (splitRows 0
    (environmentBody name (columnSpecification kind rest).2).1) (columnSpecification kind rest).1
  apply yieldsItem_grid
  · rintro rfl
    apply hne (List.forall₂_nil_right_iff.1 hcells)
  · obtain ⟨row, hrow⟩ := List.exists_mem_of_ne_nil _ hne
    have := List.length_pos_of_ne_nil (hnonempty row hrow)
    exact (Nat.succ_le_of_lt this).trans (hmax row hrow)
  · intro row hrow
    obtain ⟨texts, htexts, hrow⟩ := exists_of_forall₂ hcells hrow
    rw [← hrow.length_eq]
    apply hmax texts htexts
  · intro row hrow ns hns
    obtain ⟨texts, -, hrow⟩ := exists_of_forall₂ hcells hrow
    obtain ⟨-, -, hns⟩ := exists_of_forall₂ hrow hns
    apply hns

/-! ### Operators -/

theorem lawful_largeOperator : Reader.Lawful largeOperator t
  := by
  intro n nested h s hs b hb
  obtain ⟨⟨command, glyph, rest⟩, hlongest, rfl⟩ := Option.map_eq_some_iff.1 hb
  have hglyph := LargeOperator.isSome_commandFor? (CommandTable.mem_entries_of_longest? hlongest)
  apply Yields.fresh_bind
  intro i
  split
  apply Yields.bind (Bounds.yields_read h _)
  rintro ⟨bounds, rest⟩ ⟨hbounds, -⟩
  rw [Bounds.content, allRead_append] at hbounds
  apply Yields.bind (h.group? _)
  rintro ⟨operand, rest⟩ hoperand
  apply yieldsItem_node
  · simp [Shape.children, Shape.slots, Bounds.content]
    abel
  · apply hglyph
  · trivial
  · simpa [Shape.children, Shape.slots] using ⟨hbounds.2, hbounds.1, hoperand⟩

/-- A bound of an integral is read if it is to be there. -/
theorem yields_bound (h : nested.Lawful t E) (present : Bool) (s : Text) :
  Yields (integral.bound present nested s) (fun r => r.1.getD []) 0
    (fun r => AllRead t (r.1.getD []) ∧ r.1.isSome = present) E
  := by
  unfold integral.bound
  split
  · rename_i hpresent
    apply Yields.bind (h.argument s)
    intro r hr
    apply Yields.pure
    · rw [zero_add]
      rfl
    · exact ⟨hr, hpresent.symm⟩
  · rename_i hpresent
    apply Yields.pure
    · rfl
    · exact ⟨allRead_nil, by simpa using hpresent⟩

theorem lawful_integral : Reader.Lawful integral t
  := by
  intro n nested h s hs b hb
  obtain ⟨⟨-, command, rest⟩, -, rfl⟩ := Option.map_eq_some_iff.1 hb
  apply Yields.fresh_bind
  intro i
  apply Yields.bind (h.argument _)
  rintro ⟨integrand, rest⟩ hintegrand
  apply Yields.bind (h.argument _)
  rintro ⟨differentials, rest⟩ hdifferentials
  apply Yields.bind (yields_bound h command.form.hasLower rest)
  rintro ⟨lower, rest⟩ ⟨hlower, hhasLower⟩
  apply Yields.bind (yields_bound h command.form.hasUpper rest)
  rintro ⟨upper, rest⟩ ⟨hupper, hhasUpper⟩
  apply yieldsItem_node
  · simp [Shape.children, Shape.slots]
    abel
  · obtain ⟨type, style, form⟩ := command
    cases form <;> cases lower <;> cases upper <;>
      simp_all [IntegralForm.hasLower, IntegralForm.hasUpper, IntegralForm.argCount, Shape.Sound,
        IntegralForm.bounds, IntegralForm.limitMode, IntegralBounds.fold]
  · trivial
  · simpa [Shape.children, Shape.slots] using ⟨hintegrand, hdifferentials, hlower, hupper⟩

/-- The argument of a function is read, and the function is given with its slots. -/
theorem yieldsItem_function (h : nested.Lawful t E) {i : Nat} {type : Text} {info : FunctionInfo}
    {name : List Node} (base constraint : List Node) (hinfo : FunctionInfo.find? type = some info)
    (hname : info.command.isSome → name = []) (hbase : info.form ≠ .withBase → base = [])
    (hconstraint : info.form ≠ .withConstraint → constraint = [])
    (hread : AllRead t (name ++ (base ++ constraint))) (rest : Text) :
  YieldsItem (do
    let (argument, rest) ← nested.group? rest
    return (.node i (.function type name argument base constraint), rest)) t
    ({i} + ids name + ids (base ++ constraint)) E
  := by
  simp only [allRead_append] at hread
  apply Yields.bind (h.group? rest)
  rintro ⟨argument, rest⟩ hargument
  apply yieldsItem_node
  · simp [Shape.children, Shape.slots]
    abel
  · rw [Shape.Sound, hinfo]
    rfl
  · exact ⟨info, hinfo, hname, hbase, hconstraint⟩
  · simpa [Shape.children, Shape.slots] using ⟨hread.1, hargument, hread.2⟩

/-- What follows the name of a function is read into the slots of its form. -/
theorem yields_functionArguments (h : nested.Lawful t E) {i : Nat} {type : Text}
    {info : FunctionInfo} {name : List Node} (hinfo : FunctionInfo.find? type = some info)
    (hname : info.command.isSome → name = []) (hread : AllRead t name) (rest : Text) :
  YieldsItem (functionArguments nested i type name rest) t ({i} + ids name) E
  := by
  rw [functionArguments]
  simp only [hinfo, Option.map_some, Option.getD_some, pure_bind]
  split
  · rename_i hform _
    apply Yields.bind (h.argument _)
    rintro ⟨base, rest⟩ hbase
    have hfunction := yieldsItem_function h (i := i) base [] hinfo hname
      (absurd hform) (fun _ => rfl) (by simpa using ⟨hread, hbase⟩) rest
    simpa using hfunction
  · rename_i hform _
    apply Yields.bind (h.argument _)
    rintro ⟨constraint, rest⟩ hconstraint
    have hfunction := yieldsItem_function h (i := i) [] constraint hinfo
      hname (fun _ => rfl) (absurd hform) (by simpa using ⟨hread, hconstraint⟩) rest
    simpa using hfunction
  · have hfunction := yieldsItem_function h (i := i) [] [] hinfo hname
      (fun _ => rfl) (fun _ => rfl) (by simpa using hread) rest
    simpa using hfunction

/-- Every command of a function names a type that has a command. -/
theorem functions_checked : ∀ entry ∈ FunctionInfo.commands,
    ∃ info ∈ FunctionInfo.find? entry.2, info.command.isSome = true
  := by decide

/-- The type of a function that is written with an operator name is known, and its name is kept
only where it has no command. -/
theorem find?_namedFunctionType (star : Bool) (written name rest : Text) :
  ∃ info, FunctionInfo.find? (namedFunctionType star written name rest).1 = some info
    ∧ (info.command.isSome → (namedFunctionType star written name rest).2 = false)
  := by
  unfold namedFunctionType
  split
  · rename_i type htype
    obtain ⟨info, hinfo, -⟩ := functions_checked _ (mem_of_lookup_eq_some htype)
    exact ⟨info, hinfo, fun _ => rfl⟩
  · split
    · exact ⟨⟨"functionlim".toList, .withConstraint, none⟩, by decide, by simp⟩
    · split
      · exact ⟨⟨"functionsub".toList, .withBase, none⟩, by decide, by simp⟩
      · exact ⟨⟨"function".toList, .simple, none⟩, by decide, by simp⟩

theorem find?_commandFunctionType {command type : Text}
    (h : (command, type) ∈ FunctionInfo.commands) (rest : Text) :
  ∃ info, FunctionInfo.find? (commandFunctionType type rest) = some info
  := by
  obtain ⟨info, hinfo, -⟩ := functions_checked _ h
  unfold commandFunctionType
  split
  · split
    · exact ⟨⟨"logn".toList, .withBase, some "\\log".toList⟩, by decide⟩
    · exact ⟨info, hinfo⟩
  · exact ⟨info, hinfo⟩

theorem lawful_function : Reader.Lawful function t
  := by
  intro n nested h s hs b hb
  unfold function at hb
  split at hb
  · rename_i star rest _
    obtain rfl := Option.some.inj hb
    rw [namedFunction]
    rcases argument rest with ⟨name, rest⟩
    dsimp only
    obtain ⟨info, hinfo, hkeep⟩ := find?_namedFunctionType star
      ("\\operatorname".toList ++ (if star then ['*'] else [])) name rest
    rcases htype : namedFunctionType star
      ("\\operatorname".toList ++ (if star then ['*'] else [])) name rest with ⟨type, keepName⟩
    rw [htype] at hinfo hkeep
    apply Yields.fresh_bind
    intro i
    dsimp only
    split
    · rename_i hkept
      apply Yields.bind (h.sequence _)
      intro name hname
      rw [zero_add]
      apply yields_functionArguments h hinfo _ hname
      intro hcommand
      have hdropped : keepName = false := hkeep hcommand
      rw [hdropped] at hkept
      contradiction
    · rw [pure_bind]
      apply yields_functionArguments h hinfo (fun _ => rfl) allRead_nil
  · obtain ⟨⟨command, type, rest⟩, hlongest, rfl⟩ := Option.map_eq_some_iff.1 hb
    have hmem := CommandTable.mem_entries_of_longest? hlongest
    obtain ⟨info, hinfo⟩ := find?_commandFunctionType (List.mem_filter.1 hmem).1 rest
    apply Yields.fresh_bind
    intro i
    apply yields_functionArguments h hinfo (fun _ => rfl) allRead_nil

/-! ### Formatting, accents and symbols -/

/-- Every escape stands for a character that may stand in text. -/
theorem escapes_checked : ∀ entry ∈ Escape.table.entries, isTextChar entry.2 = true
  := by decide

theorem lawful_escape : Reader.Lawful escape t
  := by
  intro n nested h s hs b hb
  obtain ⟨⟨command, c, rest⟩, hlongest, rfl⟩ := Option.map_eq_some_iff.1 hb
  apply yieldsItem_text
  exact Or.inl ⟨c, rfl, escapes_checked _ (CommandTable.mem_entries_of_longest? hlongest)⟩

theorem lawful_emphasis : Reader.Lawful emphasis t
  := by
  intro n nested h s hs b hb
  obtain ⟨⟨command, change, rest⟩, -, rfl⟩ := Option.map_eq_some_iff.1 hb
  apply Yields.bind (h.argument rest)
  rintro ⟨ns, rest⟩ hns
  apply yieldsItem_nodes
  · rw [ids_map fun n _ => ids_emphasize change n, zero_add]
  · apply allRead_map (fun n _ => allRead_emphasize) hns

/-- Taking blanks off both ends leaves none there. -/
theorem strip_strip (s : Text) :
  Text.strip (Text.strip s) = Text.strip s
  := by
  have htrim : ∀ s, Text.strip s = List.rdropWhile Text.isBlank (s.dropWhile Text.isBlank) :=
    fun _ => rfl
  have hfront : (Text.strip s).dropWhile Text.isBlank = Text.strip s := by
    obtain ⟨back, hback⟩ := List.rdropWhile_prefix Text.isBlank (s.dropWhile Text.isBlank)
    rw [← htrim] at hback
    cases hstrip : Text.strip s with
    | nil => rfl
    | cons c cs =>
      have hc := List.head?_dropWhile_not Text.isBlank s
      rw [← hback, hstrip] at hc
      rw [List.dropWhile_cons_of_neg (by simpa using hc)]
  rw [htrim (Text.strip s), hfront, htrim, List.rdropWhile_idempotent]

/-- A color is read for a color command only, and without blanks around it. -/
theorem of_colorOf {kind : WrapperKind} {color : Option Text}
    (h : colorOf kind s = (color, rest)) :
  (kind = .color → ∃ c, color = some c ∧ Text.strip c = c) ∧ (kind ≠ .color → color = none)
  := by
  unfold colorOf at h
  split at h
  · rename_i hkind
    obtain ⟨rfl, -⟩ := Prod.mk.inj h
    exact ⟨fun _ => ⟨_, rfl, strip_strip _⟩, absurd hkind⟩
  · rename_i hkind
    obtain ⟨rfl, -⟩ := Prod.mk.inj h
    exact ⟨fun hcolor => absurd hcolor hkind, fun _ => rfl⟩

/-- Nodes are wrapped one by one, or left as they are where a color is missing. -/
theorem yieldsItem_wrapped {kind : WrapperKind} {color : Option Text} {command : Text}
    {ns : List Node} (hcolor : kind = .color → ∃ c, color = some c ∧ Text.strip c = c)
    (hother : kind ≠ .color → color = none) (hns : AllRead t ns) :
  YieldsItem (if color = some [] then do
      Build.remark (.colorMissing command)
      return (.nodes ns, rest)
    else
      let param := (color.map WrapperParam.text).getD .none
      return (.nodes (ns.map fun n => n.withWrapping (n.wrapping.wrap kind param)), rest)) t
    (ids ns) E
  := by
  split
  · apply Yields.remark_bind
    apply yieldsItem_nodes rfl hns
  · rename_i hmissing
    apply yieldsItem_nodes
    · apply ids_map fun n _ => ids_withWrapping n _
    · rw [allRead_iff_forall] at hns ⊢
      intro _ hmem
      obtain ⟨⟨l, s⟩, hn, rfl⟩ := List.mem_map.1 hmem
      have hread := hns _ hn
      apply allRead_withWrapping _ hread
      apply (allRead_mk.1 hread).1.wrapping.wrap
      · intro hkind
        obtain ⟨c, rfl, hc⟩ := hcolor hkind
        refine ⟨c, rfl, ?_, hc⟩
        rintro rfl
        exact hmissing rfl
      · intro hkind
        rw [hother hkind]
        rfl

theorem lawful_wrapper : Reader.Lawful wrapper t
  := by
  intro n nested h s hs b hb
  obtain ⟨⟨command, kind, rest⟩, -, rfl⟩ := Option.map_eq_some_iff.1 hb
  dsimp only
  rcases hcolorOf : colorOf kind rest with ⟨color, rest⟩
  obtain ⟨hcolor, hother⟩ := of_colorOf hcolorOf
  rcases argument rest with ⟨content, rest⟩
  dsimp only
  split
  · apply Yields.bind (h.spaced content)
    intro ns hns
    rw [zero_add]
    apply yieldsItem_wrapped hcolor hother hns
  · apply Yields.bind (h.sequence content)
    intro ns hns
    rw [zero_add]
    apply yieldsItem_wrapped hcolor hother hns

theorem lawful_accent : Reader.Lawful accent t
  := by
  intro n nested h s hs b hb
  obtain ⟨⟨command, plain, rest⟩, hlongest, rfl⟩ := Option.map_eq_some_iff.1 hb
  have hplain : plain.labeled = false := by
    obtain ⟨type, htype, hentry⟩ :=
      List.mem_map.1 (CommandTable.mem_entries_of_longest? hlongest)
    obtain ⟨-, rfl⟩ := Prod.mk.inj hentry
    simpa using (List.mem_filter.1 htype).2
  dsimp only
  rcases argument rest with ⟨base, rest⟩
  dsimp only
  apply Yields.fresh_bind
  intro i
  apply Yields.bind (h.sequence _)
  intro base hbase
  split
  · rename_i side after hlabeled hmarker
    apply Yields.bind (h.argument after)
    rintro ⟨label, rest⟩ hlabel
    apply yieldsItem_node
    · simp [Shape.children, Shape.slots]
    · exact ⟨rfl, hlabeled.symm⟩
    · trivial
    · simpa [Shape.children, Shape.slots] using ⟨hbase, hlabel⟩
  · rename_i hnot
    apply yieldsItem_node
    · simp [Shape.children, Shape.slots]
    · refine ⟨rfl, ?_⟩
      -- a label is asked for only where a script follows
      cases hmarker : scriptMarker? rest with
      | none => cases plain <;> first | rfl | contradiction
      | some marker =>
        cases hlabeled : (plain.withLabel ((scriptMarker? rest).map (·.1))).labeled with
        | false => rw [← hmarker, hlabeled]; rfl
        | true => exact absurd hmarker (hnot _ _ hlabeled)
    · trivial
    · simpa [Shape.children, Shape.slots] using hbase

theorem lawful_symbol : Reader.Lawful symbol t
  := by
  intro n nested h s hs b hb
  simp only [symbol, Option.bind_eq_bind, Option.mem_def, Option.bind_eq_some_iff] at hb
  obtain ⟨⟨command, rest⟩, -, glyph, hglyph, hb⟩ := hb
  obtain rfl := Option.some.inj hb
  apply yieldsItem_text
  exact Or.inr ⟨command, hglyph⟩

/-! ### Scripts, brackets, spacing and groups -/

theorem lawful_script : Reader.Lawful script t
  := by
  intro n nested h s hs b hb
  unfold script at hb
  split at hb
  · contradiction
  · obtain ⟨side, -, rfl⟩ := Option.map_eq_some_iff.1 hb
    apply Yields.bind (h.argument _)
    rintro ⟨content, rest⟩ hcontent
    apply Yields.pure
    · rw [zero_add]
      rfl
    · exact hcontent

/-- What is computed about the delimiters that have a spelling: each is one character, neither
blank nor a backslash. -/
theorem delimiters_checked : ∀ entry ∈ Delimiter.table.entries,
    (match entry.2 with
      | [c] => !Text.isBlank c && c != '\\'
      | _ => false) = true
  := by decide

/-- A delimiter that is read is one character. -/
theorem isGlyph_delimiter (s : Text) :
  Delimiter.IsGlyph (delimiter s).1
  := by
  have hdot : Delimiter.IsGlyph ['.'] := ⟨'.', rfl, by decide, by decide⟩
  unfold delimiter
  split
  · apply hdot
  · rename_i c cs hskip
    split
    · rename_i glyph rest hlongest
      have hchecked := delimiters_checked _ (CommandTable.mem_entries_of_longest? hlongest)
      split at hchecked
      · rename_i d hglyph
        simp only [Bool.and_eq_true, Bool.not_eq_true', bne_iff_ne] at hchecked
        exact ⟨d, hglyph, hchecked⟩
      · contradiction
    · split
      · apply hdot
      · rename_i hplain
        have hblank := List.head?_dropWhile_not Text.isBlank s
        rw [show s.dropWhile Text.isBlank = c :: cs from hskip] at hblank
        refine ⟨c, rfl, by simpa using hblank, ?_⟩
        rintro rfl
        simp at hplain

/-- A bracket is given with the bounds that follow it. -/
theorem yieldsItem_bracket (h : nested.Lawful t E) {left right : Text}
    (hleft : Delimiter.IsGlyph left) (hright : Delimiter.IsGlyph right) (content rest : Text) :
  YieldsItem (do
    let i ← Build.fresh
    let content ← nested.sequence content
    let (bounds, rest) ← Bounds.read nested rest
    return (.node i (.bracket left right content 0 none bounds.superscript bounds.subscript),
      rest)) t 0 E
  := by
  apply Yields.fresh_bind
  intro i
  apply Yields.bind (h.sequence content)
  intro content hcontent
  apply Yields.bind (Bounds.yields_read h rest)
  rintro ⟨bounds, rest⟩ ⟨hbounds, -⟩
  rw [Bounds.content, allRead_append] at hbounds
  apply yieldsItem_node
  · simp [Shape.children, Shape.slots, Bounds.content]
  · trivial
  · exact ⟨hleft, hright, rfl⟩
  · simpa [Shape.children, Shape.slots] using ⟨hcontent, hbounds⟩

theorem lawful_bracket : Reader.Lawful bracket t
  := by
  intro n nested h s hs b hb
  obtain ⟨⟨size, rest⟩, -, rfl⟩ := Option.map_eq_some_iff.1 hb
  dsimp only
  have hleft := isGlyph_delimiter rest
  rcases hdelimiter : delimiter rest with ⟨left, rest⟩
  rw [hdelimiter] at hleft
  dsimp only
  split
  · rename_i content after _
    have hright := isGlyph_delimiter after
    rw [pure_bind]
    apply yieldsItem_bracket h hleft hright
  · apply Yields.remark_bind
    rw [pure_bind]
    apply yieldsItem_bracket h hleft ⟨'.', rfl, by decide, by decide⟩

theorem lawful_spacing : Reader.Lawful spacing t
  := by
  intro n nested h s hs b hb
  unfold spacing at hb
  split at hb
  · obtain rfl := Option.some.inj hb
    apply yieldsItem_text
    exact Or.inl ⟨' ', rfl, rfl⟩
  · obtain ⟨⟨-, rest⟩, -, rfl⟩ := Option.map_eq_some_iff.1 hb
    apply yieldsItem_nodes rfl allRead_nil

theorem lawful_group : Reader.Lawful group t
  := by
  intro n nested h s hs b hb
  unfold group at hb
  split at hb
  · rename_i cs
    obtain rfl := Option.some.inj hb
    rcases Markup.group cs with ⟨content, rest⟩
    dsimp only
    split
    · apply yieldsItem_nodes rfl allRead_nil
    · apply Yields.bind (h.sequence content)
      intro ns hns
      split
      · rename_i hmarker
        apply Yields.fresh_bind
        intro i
        apply Yields.bind (Bounds.yields_read h rest)
        rintro ⟨bounds, rest⟩ ⟨hbounds, hsome⟩
        rw [Bounds.content, allRead_append] at hbounds
        apply yieldsItem_node
        · simp [Shape.children, Shape.slots, Bounds.content, -Multiset.singleton_add]
          abel
        · apply hsome hmarker
        · trivial
        · simpa [Shape.children, Shape.slots] using ⟨hns, hbounds⟩
      · split
        · apply Yields.fresh_bind
          intro i
          apply Yields.bind (h.sequence _)
          intro below hbelow
          apply yieldsItem_node
          · simp [Shape.children, Shape.slots, -Multiset.singleton_add]
            abel
          · trivial
          · trivial
          · simpa [Shape.children, Shape.slots] using ⟨hns, hbelow⟩
        · apply yieldsItem_nodes
          · rw [zero_add]
            rfl
          · apply hns
  · contradiction

theorem yields_literal {c : Char} (hc : Text.isBlank c = false) (cs : Text) :
  YieldsItem (literal c cs) t 0 E
  := by
  have htext : YieldsItem (do return (.nodes [← Build.text [c]], cs)) t 0 E := by
    apply yieldsItem_text
    exact Or.inl ⟨c, rfl, by simp [isTextChar, hc]⟩
  unfold literal
  split
  · split
    · apply Yields.remark_bind
      apply htext
    · apply htext
  · apply htext

theorem lawful_readers : ∀ reader ∈ readers, Reader.Lawful reader t
  := by
  simp only [readers, List.forall_mem_cons, List.not_mem_nil, IsEmpty.forall_iff, implies_true,
    and_true]
  exact ⟨lawful_style, lawful_derivative, lawful_fraction, lawful_root, lawful_environment,
    lawful_largeOperator, lawful_integral, lawful_function, lawful_escape, lawful_emphasis,
    lawful_wrapper, lawful_accent, lawful_symbol, lawful_script, lawful_bracket, lawful_spacing,
    lawful_group⟩

end Reading

end Formula
