import Formula.Proofs.Congruence

/-!
# Equations that can be compared

An equation has a canonical form unless the order of some derivative in it is plain text that
counts as digits, but is no numeral: some of the digits are not decimal, or there are too
many.  Among the equations that have one, equivalence is an equivalence relation, and the
comparison that ends a round trip does not fail.
-/

namespace Formula

open Build

/-! ### Numerals of decimal digits -/

namespace Numeral

/-- The text consists of decimal digits, and no more than a numeral may have. -/
def IsDecimal (s : Text) : Prop :=
  s.length ≤ maxDigits ∧ ∀ c ∈ s, (Text.digitValue? c).isSome = true

theorem length_leadingDigits (s : Text) :
  (leadingDigits s).length = (s.takeWhile fun c => (Text.digitValue? c).isSome).length
  := by
  induction s with
  | nil => rfl
  | cons c s ih =>
    rw [leadingDigits] at ih ⊢
    cases hc : Text.digitValue? c with
    | none => simp [hc]
    | some v => simpa [hc] using ih

/-- A text is read as a number exactly if it consists of decimal digits, one or several. -/
theorem exists_read_iff {s : Text} (hne : s ≠ []) :
  (∃ n, read s = .ok n) ↔ IsDecimal s
  := by
  have hempty : s.isEmpty = false := by rwa [← Bool.not_eq_true, List.isEmpty_iff]
  have hprefix := List.takeWhile_prefix (fun c => (Text.digitValue? c).isSome) (l := s)
  rw [read, length_leadingDigits, IsDecimal]
  constructor
  · rintro ⟨n, hn⟩
    split at hn
    · contradiction
    · rename_i hshort
      split at hn
      · contradiction
      · rename_i hall
        simp only [hempty, Bool.or_false, decide_eq_true_eq, not_lt] at hall
        have hs := hprefix.eq_of_length_le hall
        rw [hs] at hshort
        exact ⟨by omega, List.takeWhile_eq_self_iff.1 hs⟩
  · rintro ⟨hlength, hall⟩
    rw [List.takeWhile_eq_self_iff.2 hall, if_neg (by omega)]
    simp [hempty]

end Numeral

/-! ### What forms show -/

namespace Form

variable {f g : Form} {fs : List Form} {v : Text}

/-- The value of a text that is empty, or has no format. -/
def shown? (f : Form) : Option Text :=
  (text? f).bind fun (value, format) =>
    if value.isEmpty || f.label.isEmpty && !format.bold && format.italic = none then some value
    else none

/-- The text that forms are together, if all of them show. -/
def allShown? : List Form → Option Text
  | [] => some []
  | f :: fs => do return (← shown? f) ++ (← allShown? fs)

theorem shown?_ofText {W : List Wrapper} {value : Text} {format : TextFormat} :
  shown? (ofText W value format)
    = if value.isEmpty || W.isEmpty && !format.bold && format.italic = none then some value
      else none
  := rfl

/-- Texts that merge show what they show one by one. -/
theorem shown?_merge (hmerges : merges f g = true) (hf : isVoid f = false) (hg : isVoid g = false) :
  shown? (merge f g) = do return (← shown? f) ++ (← shown? g)
  := by
  obtain ⟨value, value', format, hvalue, hvalue', hlabel, hmerge⟩ := exists_of_merges hmerges
  simp only [isVoid, hvalue, hvalue', Option.any_some] at hf hg
  have happend : (value ++ value').isEmpty = false := by
    cases value with
    | nil => contradiction
    | cons => rfl
  rw [hmerge, shown?_ofText, shown?, shown?, hvalue, hvalue', hlabel]
  simp only [Option.bind_some, hf, hg, happend, Bool.false_or]
  split <;> rfl

/-- A form that is put before others shows before them. -/
theorem allShown?_join (hfs : ∀ g ∈ fs, isVoid g = false) :
  allShown? (join f fs) = do return (← shown? f) ++ (← allShown? fs)
  := by
  rw [join_eq]
  cases hf : isVoid f with
  | true =>
    obtain ⟨⟨value, format⟩, hvalue, hempty⟩ := (Option.any_eq_true _ _).1 hf
    obtain rfl := List.isEmpty_iff.1 hempty
    have hshown : shown? f = some [] := by
      rw [shown?, hvalue]
      rfl
    rw [if_pos rfl, hshown]
    cases allShown? fs <;> rfl
  | false =>
    rw [if_neg (by simp)]
    cases fs with
    | nil => rfl
    | cons g gs =>
      rw [singleton_concat]
      split
      · rename_i hmerges
        rw [allShown?, allShown?, shown?_merge hmerges hf (hfs g List.mem_cons_self)]
        cases shown? f <;> cases shown? g <;> cases allShown? gs <;> simp
      · rfl

/-- Plain texts that show merge. -/
theorem merges_of_shown? (hf : Plain f ∧ isVoid f = false) (hg : Plain g ∧ isVoid g = false)
    (hfshown : (shown? f).isSome) (hgshown : (shown? g).isSome) :
  merges f g = true
  := by
  have hbare : ∀ f, Plain f ∧ isVoid f = false → (shown? f).isSome →
      ∃ value, text? f = some (value, {}) ∧ f.label = [] := by
    rintro f ⟨hplain, hvoid⟩ hshown
    cases hvalue : text? f with
    | none => simp [shown?, hvalue] at hshown
    | some text =>
      obtain ⟨value, format⟩ := text
      simp only [isVoid, hvalue, Option.any_some] at hvoid
      simp only [shown?, hvalue, Option.bind_some, hvoid, Bool.false_or, Option.isSome_ite,
        Bool.and_eq_true, List.isEmpty_iff, Bool.not_eq_true', decide_eq_true_eq] at hshown
      obtain ⟨⟨hlabel, hbold⟩, hitalic⟩ := hshown
      have hformat := hplain value format hvalue
      rw [hbold, hitalic] at hformat
      exact ⟨value, by rw [hformat], hlabel⟩
  obtain ⟨value, hvalue, hlabel⟩ := hbare f hf hfshown
  obtain ⟨value', hvalue', hlabel'⟩ := hbare g hg hgshown
  simp [merges, hvalue, hvalue', hlabel, hlabel']

/-- Tidy forms are a numeral exactly if what they show counts as digits. -/
theorem Tidy.numeralOf?_eq (h : Tidy fs) :
  numeralOf? fs = (allShown? fs).filter Text.isDigits
  := by
  match fs with
  | [] => rfl
  | [f] =>
    have hvoid := h.nonempty f List.mem_cons_self
    cases hvalue : text? f with
    | none => simp [numeralOf?, allShown?, shown?, hvalue]
    | some text =>
      simp only [isVoid, hvalue, Option.any_some] at hvoid
      simp only [numeralOf?, allShown?, shown?, hvalue, Option.bind_some, hvoid, Bool.false_or]
      generalize (f.label.isEmpty && !text.2.bold && decide (text.2.italic = none)) = bare
      cases bare with
      | false => rfl
      | true => cases hdigits : Text.isDigits text.1 <;> simp [Option.filter, hdigits]
  | f :: g :: fs =>
    have hapart := (List.isChain_cons_cons.1 h.apart).1
    have htidy : ∀ k ∈ f :: g :: fs, Plain k ∧ isVoid k = false := fun k hk =>
      ⟨h.plain k hk, h.nonempty k hk⟩
    have hnone : allShown? (f :: g :: fs) = none := by
      cases hf : shown? f with
      | none => simp [allShown?, hf]
      | some u =>
        cases hg : shown? g with
        | none => simp [allShown?, hf, hg]
        | some u' =>
          have hmerges := merges_of_shown? (htidy f (by simp)) (htidy g (by simp))
            (by rw [hf]; rfl) (by rw [hg]; rfl)
          rw [hmerges] at hapart
          contradiction
    rw [hnone]
    rfl

end Form

/-! ### What nodes show -/

variable {ns o : List Node} {fs : List Form}

/-- The value of a text that is empty, or has neither format nor wrappers. -/
def Node.shown? : Node → Option Text
  | .mk l (.text value format scale) =>
    if value.isEmpty || (formWrappers l.wrapping (.text value format scale : Shape Node)).isEmpty
        && !format.bold && format.italic = none then some value
    else none
  | _ => none

/-- The text that siblings are together, if all of them show. -/
def allShown? : List Node → Option Text
  | [] => some []
  | n :: ns => do return (← n.shown?) ++ (← allShown? ns)

/-- A node shows what its form shows. -/
theorem Node.shown?_form {n : Node} {f : Form} (h : form n = .ok f) :
  Form.shown? f = n.shown?
  := by
  obtain ⟨l, s⟩ := n
  cases hsymbolic : s.isSymbolic with
  | false =>
    rw [form_mk l hsymbolic] at h
    obtain ⟨made, hmade, hf⟩ := exists_of_bind_eq_ok h
    obtain rfl := Except.ok.inj hf
    obtain ⟨forms, -, -, rfl⟩ := Shape.exists_eq_mapSlots hmade
    cases s <;> rfl
  | true =>
    unfold Shape.isSymbolic at hsymbolic
    split at hsymbolic
    · rw [form_symbolic] at h
      obtain ⟨forms, -, h⟩ := exists_of_bind_eq_ok h
      obtain ⟨order, -, h⟩ := exists_of_bind_eq_ok h
      obtain ⟨fa, -, h⟩ := exists_of_bind_eq_ok h
      obtain ⟨fb, -, h⟩ := exists_of_bind_eq_ok h
      obtain rfl := Except.ok.inj h
      rfl
    · contradiction

/-- The canonical form of siblings shows what they show. -/
theorem allShown?_canonicalForm (h : canonicalForm ns = .ok fs) :
  Form.allShown? fs = allShown? ns
  := by
  induction ns generalizing fs with
  | nil =>
    obtain rfl : [] = fs := Except.ok.inj h
    rfl
  | cons n ns ih =>
    rw [canonicalForm_cons] at h
    obtain ⟨f, hf, h⟩ := exists_of_bind_eq_ok h
    obtain ⟨gs, hgs, h⟩ := exists_of_bind_eq_ok h
    obtain rfl := Except.ok.inj h
    obtain ⟨htidy, -⟩ := allTidy_canonicalForm hgs
    rw [Form.allShown?_join htidy.nonempty, Node.shown?_form hf, ih hgs, allShown?]

/-! ### Orders that can be compared -/

/-- If the siblings are plain text that counts as digits, the text is a numeral. -/
def Readable (o : List Node) : Prop :=
  ∀ v ∈ allShown? o, Text.isDigits v = true → Numeral.IsDecimal v

/-- All orders that are expressions can be compared. -/
def Comparable (ns : List Node) : Prop :=
  ∀ n ∈ walk ns, ∀ o ∈ n.shape.order?, Readable o

/-- An order of known canonical form has a normal form exactly if it is readable. -/
theorem exists_normalOrder_iff (h : canonicalForm o = .ok fs) :
  (∃ order, Form.normalOrder fs = .ok order) ↔ Readable o
  := by
  obtain ⟨htidy, -⟩ := allTidy_canonicalForm h
  rw [Form.normalOrder, htidy.numeralOf?_eq, allShown?_canonicalForm h]
  cases hnumeral : (allShown? o).filter Text.isDigits with
  | none =>
    simp only [Except.ok.injEq, exists_eq', true_iff]
    intro v hv hdigits
    rw [Option.mem_def] at hv
    simp [hv, Option.filter, hdigits] at hnumeral
  | some v =>
    obtain ⟨hv, hdigits⟩ := Option.filter_eq_some_iff.1 hnumeral
    have hne : v ≠ [] := by
      rintro rfl
      contradiction
    have hreadable : Readable o ↔ Numeral.IsDecimal v := by
      simp [Readable, hv, hdigits]
    rw [hreadable, ← Numeral.exists_read_iff hne]
    rcases hread : Numeral.read v with flaw | n <;> simp [hread]

/-- An equation has a canonical form exactly if all its orders can be compared. -/
theorem hasForm_iff_comparable :
  HasForm ns ↔ Comparable ns
  := by
  constructor
  · rintro ⟨fs, hfs⟩ n hn o ho
    obtain ⟨forms, order, hforms, horder⟩ := exists_normalOrder hfs n hn o ho
    exact (exists_normalOrder_iff hforms).1 ⟨order, horder⟩
  · intro h
    apply exists_canonicalForm
    intro n hn o ho forms hforms
    exact (exists_normalOrder_iff hforms).2 (h n hn o ho)

/-! ### Comparing -/

/-- Equations can be compared exactly if both have canonical forms. -/
theorem exists_equivalent_iff {x y : List Node} :
  (∃ b, equivalent x y = .ok b) ↔ Comparable x ∧ Comparable y
  := by
  rw [← hasForm_iff_comparable, ← hasForm_iff_comparable, HasForm, HasForm, equivalent]
  rcases canonicalForm x with e | fs <;> rcases canonicalForm y with e' | gs <;>
    simp [bind, Except.bind, pure, Except.pure]

theorem equivalent_symm {x y : List Node} (hx : Comparable x) (hy : Comparable y) :
  equivalent x y = equivalent y x
  := by
  obtain ⟨fs, hfs⟩ := hasForm_iff_comparable.2 hx
  obtain ⟨gs, hgs⟩ := hasForm_iff_comparable.2 hy
  rw [equivalent, equivalent, hfs, hgs]
  simp [bind, Except.bind, pure, Except.pure, eq_comm]

/-- A round trip that writes and reads an equation gives what was read, and says whether it is
equivalent, if that can be told. -/
theorem roundTrip_eq {t : SymbolTable} {config : Config} {supply : Supply} {markup : Text}
    {again : List Node} (hmarkup : toMarkup t config.write ns = .ok markup)
    (hagain : ((ofMarkup t config markup).runOn supply).1 = .ok again) :
  ((roundTrip t config ns).runOn supply).1 = (equivalent again ns).map fun b => (again, !b)
  := by
  rw [roundTrip, hmarkup, runOn_bind]
  change ((ofMarkup t config markup >>= _).runOn supply).1 = _
  rw [runOn_bind]
  rcases hrun : (ofMarkup t config markup).runOn supply with ⟨result, rest⟩
  rw [hrun] at hagain
  obtain rfl : result = .ok again := hagain
  rcases hequivalent : equivalent again ns with e | b <;> simp only [hequivalent] <;> rfl

/-- An equation has a canonical form, and is equivalent to itself, exactly if no order in it is
plain text that counts as digits and is no numeral.  Among such equations, equivalence is
symmetric, and it is transitive; and a round trip does not fail after reading exactly if both the
equation and what was read are such. -/
theorem comparable_equivalence (t : SymbolTable) (config : Config) (supply : Supply)
    (x y z : List Node) :
  (HasForm x ↔ Comparable x)
    ∧ (equivalent x x = .ok true ↔ Comparable x)
    ∧ (Comparable x → Comparable y → ∃ b, equivalent x y = .ok b ∧ equivalent y x = .ok b)
    ∧ (equivalent x y = .ok true → equivalent y z = .ok true → equivalent x z = .ok true)
    ∧ ∀ markup again, toMarkup t config.write x = .ok markup →
      ((ofMarkup t config markup).runOn supply).1 = .ok again →
      ((∃ result, ((roundTrip t config x).runOn supply).1 = .ok result)
        ↔ Comparable again ∧ Comparable x)
  := by
  refine ⟨hasForm_iff_comparable, ?_, ?_, ?_, ?_⟩
  · constructor
    · intro h
      apply (exists_equivalent_iff.1 ⟨true, h⟩).1
    · intro hx
      apply equivalent_of_canonicalForm_eq rfl (Or.inl (hasForm_iff_comparable.2 hx))
  · intro hx hy
    obtain ⟨b, hb⟩ := exists_equivalent_iff.2 ⟨hx, hy⟩
    exact ⟨b, hb, equivalent_symm hy hx ▸ hb⟩
  · intro hxy hyz
    obtain ⟨fs, hx, hy⟩ := equivalent_eq_true_iff.1 hxy
    obtain ⟨gs, hy', hz⟩ := equivalent_eq_true_iff.1 hyz
    obtain rfl := Except.ok.inj (hy.symm.trans hy')
    exact equivalent_eq_true_iff.2 ⟨fs, hx, hz⟩
  · intro markup again hmarkup hagain
    rw [roundTrip_eq hmarkup hagain, ← exists_equivalent_iff]
    rcases equivalent again x with e | b <;> simp [Except.map]

-- The square sign counts as a digit and is not decimal.
example :
  canonicalForm [quotient (.sequence [charNode '²'])] = .error (.numeral ['²'] .notDecimal)
  := rfl

/-- The order of a derivative is a one behind an empty text, a one, or the number: these are
equivalent, and the second is written and read. -/
theorem comparable_equivalence_one :
  Comparable [quotient (.sequence [charNode '1'])]
    ∧ equivalent [quotient (.sequence [charNode '1'])] [quotient (.sequence [charNode '1'])]
      = .ok true
    ∧ (∃ b, equivalent [quotient (.sequence [charNode '1'])] [quotient (.number 1)] = .ok b
      ∧ equivalent [quotient (.number 1)] [quotient (.sequence [charNode '1'])] = .ok b)
    ∧ equivalent [quotient (.sequence [.plain 1 (.text [] {} none), charNode '1'])]
        [quotient (.number 1)] = .ok true
    ∧ ∃ result, ((roundTrip .builtin {} [quotient (.sequence [charNode '1'])]).runOn {}).1
      = .ok result
  := by
  let one := [quotient (.sequence [charNode '1'])]
  let number := [quotient (.number 1)]
  let behind := [quotient (.sequence [.plain 1 (.text [] {} none), charNode '1'])]
  obtain ⟨hone, hrefl, hsymm, -, htrip⟩ := comparable_equivalence .builtin {} {} one number number
  obtain ⟨-, -, -, htrans, -⟩ := comparable_equivalence .builtin {} {} behind one number
  have hcomparable : Comparable one := hone.1 ⟨_, rfl⟩
  have hnumber : Comparable number := hasForm_iff_comparable.1 ⟨_, rfl⟩
  refine ⟨hcomparable, hrefl.2 hcomparable, hsymm hcomparable hnumber,
    htrans (by decide) (by decide), ?_⟩
  have hexpressible : Expressible {} one := expressible_quotient_char {} rfl
  obtain ⟨markup, again, hmarkup, hagain, hequivalent⟩ :=
    @Legible.exists_again {} _ hexpressible.legible (hasForm_iff_comparable.2 hcomparable) {}
  exact (htrip markup again hmarkup hagain).2 (exists_equivalent_iff.1 ⟨true, hequivalent⟩)

end Formula
