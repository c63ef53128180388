import Formula.Proofs.SecondTrip

/-!
# Canonical forms one after the other

The canonical form of siblings one after the other is that of the first followed by that of
the second, where two texts of equal format that meet at the seam are one.  A canonical form
is tidy, at every depth: it has no empty text, and no two neighbouring texts of equal format.
-/

namespace Formula

namespace Form

variable {W : List Wrapper} {value : Text} {format : TextFormat} {f g h : Form}
  {fs gs : List Form}

/-! ### Merging texts -/

/-- Whether a form is an empty text. -/
def isVoid (f : Form) : Bool := (text? f).any fun text => text.1.isEmpty

/-- Whether two forms are texts of equal format with equal wrappers. -/
def merges (f g : Form) : Bool :=
  match text? f, text? g with
  | some (_, format), some (_, format') => format = format' && f.label = g.label
  | _, _ => false

/-- The text of two forms that merge. -/
def merge (f g : Form) : Form :=
  match text? f, text? g with
  | some (value, format), some (value', _) => ofText f.label (value ++ value') format
  | _, _ => f

theorem text?_eq_some_iff :
  text? f = some (value, format) ↔ ∃ scale, f.shape = .text value format scale
  := by
  rw [text?]
  split
  · rename_i heq
    rw [heq]
    simp
  · rename_i hother
    simp only [reduceCtorEq, false_iff, not_exists]
    intro scale heq
    apply hother _ _ _ heq

/-- Forms that merge are texts that differ in their values only. -/
theorem exists_of_merges (hmerges : merges f g = true) :
  ∃ value value' format, text? f = some (value, format) ∧ text? g = some (value', format)
    ∧ g.label = f.label ∧ merge f g = ofText f.label (value ++ value') format
  := by
  cases hf : text? f with
  | none => simp [merges, hf] at hmerges
  | some v =>
    cases hg : text? g with
    | none => simp [merges, hf, hg] at hmerges
    | some v' =>
      simp only [merges, hf, hg, Bool.and_eq_true, decide_eq_true_eq] at hmerges
      refine ⟨v.1, v'.1, v.2, rfl, ?_, hmerges.2.symm, ?_⟩
      · rw [hmerges.1]
      · simp only [merge, hf, hg]

theorem merges_merge_left (hmerges : merges f g = true) :
  merges (merge f g) h = merges g h
  := by
  obtain ⟨value, value', format, hf, hg, hlabel, hmerge⟩ := exists_of_merges hmerges
  rw [hmerge, merges, merges, hg, text?_ofText, label_ofText, hlabel]
  cases text? h <;> rfl

theorem merges_merge_right (hmerges : merges g h = true) :
  merges f (merge g h) = merges f g
  := by
  obtain ⟨value, value', format, hg, hh, hlabel, hmerge⟩ := exists_of_merges hmerges
  rw [hmerge, merges, merges, hg, text?_ofText, label_ofText]
  cases text? f <;> rfl

theorem merge_merge (hfg : merges f g = true) (hgh : merges g h = true) :
  merge (merge f g) h = merge f (merge g h)
  := by
  obtain ⟨v, v', format, hf, hg, hlabel, hmerge⟩ := exists_of_merges hfg
  obtain ⟨u, u', format', hg', hh, -, hmerge'⟩ := exists_of_merges hgh
  obtain ⟨rfl, rfl⟩ := Prod.mk.inj (Option.some.inj (hg.symm.trans hg'))
  rw [hmerge, hmerge', merge, merge, hf, hh, text?_ofText, text?_ofText, label_ofText]
  simp only [List.append_assoc]

theorem isVoid_merge (hmerges : merges f g = true) (hf : isVoid f = false) :
  isVoid (merge f g) = false
  := by
  obtain ⟨value, value', format, hvalue, -, -, hmerge⟩ := exists_of_merges hmerges
  rw [isVoid, hvalue] at hf
  rw [hmerge, isVoid, text?_ofText]
  cases value with
  | nil => contradiction
  | cons => rfl

/-! ### The seam -/

/-- Forms after each other, where the last of the first and the first of the second are one if
they are texts of equal format with equal wrappers. -/
def concat (fs gs : List Form) : List Form :=
  match gs, fs.getLast? with
  | g :: rest, some f => if merges f g then fs.dropLast ++ merge f g :: rest else fs ++ gs
  | _, _ => fs ++ gs

theorem nil_concat :
  concat [] gs = gs
  := by
  cases gs <;> rfl

theorem concat_nil :
  concat fs [] = fs
  := List.append_nil fs

theorem singleton_concat :
  concat [f] (g :: gs) = if merges f g then merge f g :: gs else f :: g :: gs
  := rfl

theorem cons_concat :
  concat (f :: g :: fs) gs = f :: concat (g :: fs) gs
  := by
  cases gs with
  | nil => rw [concat_nil, concat_nil]
  | cons h hs =>
    simp only [concat, List.getLast?_cons_cons, List.dropLast_cons_cons]
    cases (g :: fs).getLast? with
    | none => rfl
    | some last =>
      dsimp only
      split <;> rfl

/-- Putting a form before others is putting it after nothing, unless it is an empty text. -/
theorem join_eq (f : Form) (fs : List Form) :
  join f fs = if isVoid f then fs else concat [f] fs
  := by
  cases hf : text? f with
  | none => cases fs <;> simp [join, isVoid, hf, concat_nil, singleton_concat, merges]
  | some text =>
    cases hvalue : text.1.isEmpty with
    | true => simp [join, isVoid, hf, hvalue]
    | false =>
      cases fs with
      | nil => simp [join, isVoid, hf, hvalue, concat_nil]
      | cons g gs =>
        cases hg : text? g <;>
          simp [join, isVoid, hf, hvalue, singleton_concat, merges, merge, hg]

theorem singleton_concat_concat (f : Form) (fs gs : List Form) :
  concat [f] (concat fs gs) = concat (concat [f] fs) gs
  := by
  match fs, gs with
  | [], gs => rw [nil_concat, concat_nil]
  | fs, [] => rw [concat_nil, concat_nil]
  | [g], h :: hs =>
    rw [singleton_concat, singleton_concat]
    cases hgh : merges g h with
    | true =>
      rw [if_pos rfl, singleton_concat, merges_merge_right hgh]
      cases hfg : merges f g with
      | true =>
        rw [if_pos rfl, if_pos rfl, singleton_concat, merges_merge_left hfg, hgh, if_pos rfl,
          merge_merge hfg hgh]
      | false =>
        rw [if_neg (by simp), if_neg (by simp), cons_concat, singleton_concat, hgh, if_pos rfl]
    | false =>
      rw [if_neg (by simp), singleton_concat]
      cases hfg : merges f g with
      | true =>
        rw [if_pos rfl, if_pos rfl, singleton_concat, merges_merge_left hfg, hgh, if_neg (by simp)]
      | false =>
        rw [if_neg (by simp), if_neg (by simp), cons_concat, singleton_concat, hgh, if_neg (by simp)]
  | g :: g' :: fs, h :: hs =>
    rw [cons_concat, singleton_concat, singleton_concat]
    split
    · rw [cons_concat]
    · rw [cons_concat, cons_concat]

/-- Putting a form before others does not touch what comes after the seam. -/
theorem join_concat (f : Form) (fs gs : List Form) :
  join f (concat fs gs) = concat (join f fs) gs
  := by
  rw [join_eq, join_eq]
  split
  · rfl
  · apply singleton_concat_concat

end Form

/-- The canonical form of siblings one after the other. -/
theorem canonicalForm_append_eq_concat (a b : List Node) :
  canonicalForm (a ++ b) = do
    let fs ← canonicalForm a
    let gs ← canonicalForm b
    return Form.concat fs gs
  := by
  induction a with
  | nil =>
    rw [List.nil_append]
    rcases canonicalForm b with e | gs
    · rfl
    · exact congrArg Except.ok Form.nil_concat.symm
  | cons n a ih =>
    rw [List.cons_append, canonicalForm_cons, canonicalForm_cons, ih]
    rcases Node.form n with e | f
    · rfl
    · rcases canonicalForm a with e | fs
      · rfl
      · rcases canonicalForm b with e | gs
        · rfl
        · exact congrArg Except.ok (Form.join_concat f fs gs)

/-! ### Tidy forms -/

namespace Form

variable {f g : Form} {fs : List Form}

/-- The format of a text has a weight and a slant only. -/
def Plain (f : Form) : Prop :=
  ∀ value format, text? f = some (value, format) →
    format = { bold := format.bold, italic := format.italic }

/-- Texts have a weight and a slant only, none is empty, and no two neighbours are texts of equal
format with equal wrappers. -/
structure Tidy (fs : List Form) : Prop where
  plain : ∀ f ∈ fs, Plain f
  nonempty : ∀ f ∈ fs, isVoid f = false
  apart : fs.IsChain fun f g => merges f g = false

/-- The forms are tidy, and so are those in every slot below. -/
inductive AllTidy : List Form → Prop
  | intro {fs : List Form} (top : Tidy fs)
    (below : ∀ f ∈ fs, ∀ slot ∈ f.shape.slots, AllTidy slot.2) : AllTidy fs

theorem Tidy.nil :
  Tidy []
  := ⟨by simp, by simp, .nil⟩

theorem plain_merge (hmerges : merges f g = true) (hf : Plain f) :
  Plain (merge f g)
  := by
  obtain ⟨value, value', format, hvalue, -, -, hmerge⟩ := exists_of_merges hmerges
  intro v fmt h
  rw [hmerge, text?_ofText, Option.some.injEq, Prod.mk.injEq] at h
  obtain ⟨-, rfl⟩ := h
  apply hf _ _ hvalue

/-- A form that is put before tidy forms leaves them tidy. -/
theorem Tidy.join (h : Tidy fs) (hplain : Plain f) :
  Tidy (join f fs)
  := by
  rw [join_eq]
  cases hf : isVoid f with
  | true => apply h
  | false =>
    rw [if_neg (by simp)]
    cases fs with
    | nil =>
      rw [concat_nil]
      exact ⟨by simpa using hplain, by simpa using hf, .singleton f⟩
    | cons g gs =>
      obtain ⟨hall, hnonempty, hapart⟩ := h
      rw [singleton_concat]
      cases hmerges : merges f g with
      | true =>
        refine ⟨List.forall_mem_cons.2 ⟨plain_merge hmerges hplain, (List.forall_mem_cons.1 hall).2⟩,
          List.forall_mem_cons.2 ⟨isVoid_merge hmerges hf, (List.forall_mem_cons.1 hnonempty).2⟩,
          ?_⟩
        cases gs with
        | nil => apply List.IsChain.singleton
        | cons h hs =>
          rw [List.isChain_cons_cons] at hapart
          apply List.isChain_cons_cons.2
          rw [merges_merge_left hmerges]
          apply hapart
      | false =>
        exact ⟨List.forall_mem_cons.2 ⟨hplain, hall⟩, List.forall_mem_cons.2 ⟨hf, hnonempty⟩,
          List.isChain_cons_cons.2 ⟨hmerges, hapart⟩⟩

/-- What holds of a form, of other forms and of every text holds after the form is put before the
others. -/
theorem forall_mem_join {P : Form → Prop} (htext : ∀ W value format, P (ofText W value format))
    (hf : P f) (hfs : ∀ g ∈ fs, P g) :
  ∀ g ∈ join f fs, P g
  := by
  rw [join_eq]
  split
  · apply hfs
  · cases fs with
    | nil => simpa [concat_nil] using hf
    | cons g gs =>
      rw [singleton_concat]
      split
      · rename_i hmerges
        obtain ⟨value, value', format, -, -, -, hmerge⟩ := exists_of_merges hmerges
        rw [hmerge]
        apply List.forall_mem_cons.2 ⟨htext _ _ _, (List.forall_mem_cons.1 hfs).2⟩
      · apply List.forall_mem_cons.2 ⟨hf, hfs⟩

end Form

/-! ### Forms of nodes -/

/-- The slots of a construct that all have canonical forms have them by one function. -/
theorem Shape.exists_eq_mapSlots {s : Shape Node} {made : Shape Form}
    (h : s.essential.mapSlotsM canonicalForm = .ok made) :
  ∃ forms : List Node → List Form, forms [] = []
    ∧ (∀ slot ∈ s.slots, canonicalForm slot.2 = .ok (forms slot.2))
    ∧ made = s.essential.mapSlots forms
  := by
  let forms := fun slot : List Node => (canonicalForm slot).toOption.getD []
  have hforms : ∀ slot ∈ s.slots, .ok (forms slot.2) = canonicalForm slot.2 := by
    intro slot hslot
    obtain ⟨content, hcontent⟩ := exists_of_mapSlotsM h hslot
    simp only [forms, hcontent]
    rfl
  rw [← mapSlotsM_congr hforms, mapSlotsM_pure] at h
  exact ⟨forms, rfl, fun slot hslot => (hforms slot hslot).symm, (Except.ok.inj h).symm⟩

/-- The form of a node is plain, and what stands in its slots are canonical forms of slots of the
node. -/
theorem Node.of_form {l : Label} {s : Shape Node} {f : Form} (h : form (.mk l s) = .ok f) :
  Form.Plain f
    ∧ ∀ slot ∈ f.shape.slots, ∃ content, (slot.1, content) ∈ s.slots
      ∧ canonicalForm content = .ok slot.2
  := by
  cases hsymbolic : s.isSymbolic with
  | false =>
    rw [form_mk l hsymbolic] at h
    obtain ⟨made, hmade, hf⟩ := exists_of_bind_eq_ok h
    obtain rfl := Except.ok.inj hf
    obtain ⟨forms, hnil, hforms, rfl⟩ := Shape.exists_eq_mapSlots hmade
    constructor
    · intro value format htext
      obtain ⟨scale, hshape⟩ := Form.text?_eq_some_iff.1 htext
      cases s with
      | text v fmt =>
        obtain ⟨-, rfl, -⟩ := Shape.text.inj hshape
        rfl
      | _ => cases hshape
    · intro slot hslot
      simp only [Tree.shape, Shape.mapSlots, Shape.slots_mapSlotsOr hnil, Shape.slots_essential]
        at hslot
      obtain ⟨⟨p, content⟩, hcontent, rfl⟩ := List.mem_map.1 hslot
      exact ⟨content, hcontent, hforms _ hcontent⟩
  | true =>
    cases s with
    | derivative order longForm isPartial mode a b =>
      cases order with
      | number => contradiction
      | sequence o =>
        rw [form_symbolic] at h
        obtain ⟨forms, hforms, h⟩ := exists_of_bind_eq_ok h
        obtain ⟨order, horder, h⟩ := exists_of_bind_eq_ok h
        obtain ⟨fa, ha, h⟩ := exists_of_bind_eq_ok h
        obtain ⟨fb, hb, h⟩ := exists_of_bind_eq_ok h
        obtain rfl := Except.ok.inj h
        have hsequence : ∀ made, order = .sequence made → made = forms := by
          rintro made rfl
          unfold Form.normalOrder at horder
          split at horder
          · exact (Order.sequence.inj (Except.ok.inj horder)).symm
          · split at horder <;> cases horder
        constructor
        · intro value format htext
          obtain ⟨scale, hshape⟩ := Form.text?_eq_some_iff.1 htext
          cases hshape
        · intro slot hslot
          simp only [Tree.shape, Shape.slots, List.mem_append, List.mem_cons, List.not_mem_nil,
            or_false] at hslot
          rcases hslot with hslot | rfl | rfl
          · cases order with
            | number => contradiction
            | sequence made =>
              obtain rfl := List.mem_singleton.1 hslot
              obtain rfl := hsequence made rfl
              exact ⟨o, by simp [Shape.slots, Shape.slots.present, Order.slot?], hforms⟩
          · exact ⟨a, by simp [Shape.slots], ha⟩
          · exact ⟨b, by simp [Shape.slots], hb⟩
    | _ => contradiction

/-! ### Forms of siblings -/

/-- Siblings have tidy forms when the slots of their nodes have. -/
theorem allTidy_of_forms {ns : List Node} {fs : List Form}
    (hnodes : ∀ n ∈ ns, ∀ f, Node.form n = .ok f → ∀ slot ∈ f.shape.slots, Form.AllTidy slot.2)
    (h : canonicalForm ns = .ok fs) :
  Form.AllTidy fs
  := by
  induction ns generalizing fs with
  | nil =>
    obtain rfl : [] = fs := Except.ok.inj h
    apply Form.AllTidy.intro .nil
    simp
  | cons n ns ih =>
    rw [canonicalForm_cons] at h
    obtain ⟨f, hf, h⟩ := exists_of_bind_eq_ok h
    obtain ⟨gs, hgs, h⟩ := exists_of_bind_eq_ok h
    obtain rfl := Except.ok.inj h
    obtain ⟨htop, hbelow⟩ := ih (fun n hn => hnodes n (List.mem_cons_of_mem _ hn)) hgs
    obtain ⟨l, s⟩ := n
    apply Form.AllTidy.intro (htop.join (Node.of_form hf).1)
    apply Form.forall_mem_join
    · intro W value format slot hslot
      contradiction
    · apply hnodes _ List.mem_cons_self f hf
    · apply hbelow

/-- A canonical form is tidy at every depth. -/
theorem allTidy_canonicalForm {ns : List Node} {fs : List Form} (h : canonicalForm ns = .ok fs) :
  Form.AllTidy fs
  := by
  have hnode : ∀ n : Node, ∀ f, Node.form n = .ok f → ∀ slot ∈ f.shape.slots,
      Form.AllTidy slot.2 := by
    intro n
    induction n using Tree.induction with
    | h l s ih =>
      intro f hf slot hslot
      obtain ⟨content, hcontent, hforms⟩ := (Node.of_form hf).2 slot hslot
      apply allTidy_of_forms _ hforms
      intro n hn
      apply ih n (s.children_subset (List.mem_flatMap.2 ⟨_, hcontent, hn⟩))
  apply allTidy_of_forms (fun n _ => hnode n) h

end Formula
