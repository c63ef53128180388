import Formula.Proofs.Seam
import Formula.Proofs.View

/-!
# Equivalence is a congruence

The form of a node is a view of it, where the canonical form of a slot is what is shown of
the slot.  Hence equivalent siblings may stand for each other among other siblings, and in
any slot at any depth.
-/

namespace Formula

variable {l l' : Label} {s s' : Shape Node} {x y ns ns' : List Node}

/-! ### The view of forms -/

theorem Shape.isSymbolic_outline {δ : Type} (F : List Node → δ) (s : Shape Node) :
  (s.outline F).isSymbolic = s.isSymbolic
  := by
  cases s with
  | derivative o => cases o <;> rfl
  | _ => rfl

theorem formWrappers_outline {δ : Type} (F : List Node → δ) (w : Wrapping) (s : Shape Node) :
  formWrappers w (s.outline F) = formWrappers w s
  := by
  cases s <;> rfl

/-- Constructs of one outline have the same essence, with the canonical forms of their slots. -/
theorem Shape.essential_eq_of_outline (houtline : s'.outline canonicalForm = s.outline canonicalForm) :
  s'.essential.mapSlots (fun slot => [canonicalForm slot])
    = s.essential.mapSlots fun slot => [canonicalForm slot]
  := by
  obtain ⟨htext', htext⟩ | ⟨v, fmt, scale, scale', rfl, rfl⟩ := text_of_outline houtline
  · rw [outline, outline, withoutLook_eq htext, withoutLook_eq htext'] at houtline
    apply houtline
  · rfl

/-- Nodes of one outline with the same wrappers have the same form. -/
theorem Node.form_eq_of_outline (hwrapping : l'.wrapping = l.wrapping)
    (houtline : s'.outline canonicalForm = s.outline canonicalForm) :
  form (.mk l' s') = form (.mk l s)
  := by
  have hsame : s'.isSymbolic = s.isSymbolic := by
    rw [← s'.isSymbolic_outline canonicalForm, houtline, Shape.isSymbolic_outline]
  have hwrappers : formWrappers l'.wrapping s' = formWrappers l.wrapping s := by
    rw [hwrapping, ← formWrappers_outline canonicalForm, houtline, formWrappers_outline]
  -- the canonical form of a slot is the one entry that stands for it in the outline
  let pick : List (Except Fault (List Form)) → Except Fault (List Form) := fun entries =>
    entries.headD (.ok [])
  have hpick : ∀ s : Shape Node, (s.essential.mapSlots fun slot => [canonicalForm slot]).mapSlotsM pick
      = s.essential.mapSlotsM canonicalForm :=
    fun s => Shape.mapSlotsM_congr fun _ _ => rfl
  cases hsymbolic : s.isSymbolic with
  | false =>
    rw [form_mk _ (hsame.trans hsymbolic), form_mk _ hsymbolic, hwrappers, ← hpick,
      Shape.essential_eq_of_outline houtline, hpick]
  | true =>
    rw [hsymbolic] at hsame
    unfold Shape.isSymbolic at hsymbolic hsame
    split at hsymbolic
    · split at hsame
      · simp only [Shape.outline, Shape.withoutLook, Shape.essential, Shape.mapSlots,
          Shape.mapSlotsOr, Shape.mapSlotsOr.order, Shape.derivative.injEq, Order.sequence.injEq,
          List.cons.injEq, and_true] at houtline
        obtain ⟨horder, rfl, rfl, rfl, hfunction, hvariable⟩ := houtline
        rw [form_symbolic, form_symbolic, hwrappers, horder, hfunction, hvariable]
      · contradiction
    · contradiction

/-- The form of a node is a view of it. -/
theorem view_form :
  View Node.form canonicalForm
  where
  slot h := by rw [← Node.form_slot, h, Node.form_slot]
  node := Node.form_eq_of_outline

/-! ### Siblings among others -/

theorem canonicalForm_append_congr {before after : List Node}
    (h : canonicalForm x = canonicalForm y) :
  canonicalForm (before ++ x ++ after) = canonicalForm (before ++ y ++ after)
  := by
  rw [canonicalForm_append_eq_concat, canonicalForm_append_eq_concat before, h,
    canonicalForm_append_eq_concat (before ++ y), canonicalForm_append_eq_concat before]

/-! ### Equivalence -/

/-- Whether siblings have a canonical form. -/
def HasForm (ns : List Node) : Prop := ∃ fs, canonicalForm ns = .ok fs

/-- Siblings are equivalent when they have the same canonical form. -/
theorem equivalent_eq_true_iff :
  equivalent x y = .ok true ↔ ∃ fs, canonicalForm x = .ok fs ∧ canonicalForm y = .ok fs
  := by
  rw [equivalent]
  rcases canonicalForm x with e | fs
  · simp [bind, Except.bind]
  · rcases canonicalForm y with e | gs
    · simp [bind, Except.bind]
    · simp [bind, Except.bind, pure, Except.pure, eq_comm]

theorem equivalent_of_canonicalForm_eq (h : canonicalForm x = canonicalForm y)
    (hform : HasForm x ∨ HasForm y) :
  equivalent x y = .ok true
  := by
  obtain ⟨fs, hfs⟩ | ⟨fs, hfs⟩ := hform
  · exact equivalent_eq_true_iff.2 ⟨fs, hfs, h.symm.trans hfs⟩
  · exact equivalent_eq_true_iff.2 ⟨fs, h.trans hfs, hfs⟩

/-- The canonical form of siblings one after the other is that of the first followed by that of
the second, up to the seam; canonical forms are tidy; and siblings that are equivalent may stand
for each other among other siblings and in every slot. -/
theorem canonicalForm_concat_tidy_congruence :
  (∀ a b fs gs, canonicalForm a = .ok fs → canonicalForm b = .ok gs →
      canonicalForm (a ++ b) = .ok (Form.concat fs gs))
    ∧ (∀ ns fs, canonicalForm ns = .ok fs → Form.AllTidy fs)
    ∧ ∀ x y, equivalent x y = .ok true →
      (∀ before after, HasForm (before ++ x ++ after) ∨ HasForm (before ++ y ++ after) →
          equivalent (before ++ x ++ after) (before ++ y ++ after) = .ok true)
        ∧ ∀ ns ns', Exchange x y ns ns' → HasForm ns ∨ HasForm ns' →
          equivalent ns ns' = .ok true
  := by
  refine ⟨?_, fun ns fs => allTidy_canonicalForm, ?_⟩
  · intro a b fs gs ha hb
    rw [canonicalForm_append_eq_concat, ha, hb]
    rfl
  · intro x y hxy
    obtain ⟨fs, hx, hy⟩ := equivalent_eq_true_iff.1 hxy
    have hsame := hx.trans hy.symm
    constructor
    · intro before after
      apply equivalent_of_canonicalForm_eq (canonicalForm_append_congr hsame)
    · intro ns ns' hexchange
      apply equivalent_of_canonicalForm_eq (view_form.exchange hexchange hsame)

/-- A number in one text, and cut into its digits. -/
def wholeNumber : List Node := [.plain 1 (.text ['1', '2'] {} none)]

def cutNumber : List Node :=
  [.plain 2 (.text ['1'] {} none), .plain 3 (.text ['2'] {} none)]

/-- A number that is cut into its digits may be the order of a derivative, or follow itself. -/
theorem canonicalForm_concat_tidy_congruence_cutNumber :
  ∃ fs, canonicalForm wholeNumber = .ok fs
    ∧ canonicalForm (wholeNumber ++ wholeNumber) = .ok (Form.concat fs fs)
    ∧ Form.AllTidy fs
    ∧ equivalent cutNumber wholeNumber = .ok true
    ∧ equivalent (wholeNumber ++ cutNumber ++ []) (wholeNumber ++ wholeNumber ++ []) = .ok true
    ∧ equivalent [.plain 4 (.derivative (.sequence cutNumber) false false .inline [] [])]
        [.plain 4 (.derivative (.sequence wholeNumber) false false .inline [] [])] = .ok true
  := by
  have hwhole : canonicalForm wholeNumber = .ok [.ofText [] ['1', '2'] {}] := rfl
  have hcut : canonicalForm cutNumber = .ok [.ofText [] ['1', '2'] {}] := rfl
  have hform : HasForm (wholeNumber ++ cutNumber ++ []) := ⟨_, rfl⟩
  have hderivative : HasForm
      [.plain 4 (.derivative (.sequence cutNumber) false false .inline [] [])] := ⟨_, rfl⟩
  have hequivalent : equivalent cutNumber wholeNumber = .ok true := by
    apply equivalent_eq_true_iff.2 ⟨_, hcut, hwhole⟩
  obtain ⟨hconcat, htidy, hcongruence⟩ := canonicalForm_concat_tidy_congruence
  obtain ⟨hamong, hslot⟩ := hcongruence cutNumber wholeNumber hequivalent
  refine ⟨_, hwhole, hconcat _ _ _ _ hwhole hwhole, htidy _ _ hwhole, hequivalent,
    hamong _ _ (Or.inl hform), ?_⟩
  have hexchange : Exchange cutNumber wholeNumber
      [.plain 4 (.derivative (.sequence cutNumber) false false .inline [] [])]
      [.plain 4 (.derivative (.sequence wholeNumber) false false .inline [] [])] :=
    @Exchange.slot _ _ [] [] _ _ { id := 4 }
      (.derivative (.sequence cutNumber) false false .inline [] []) .order rfl .whole
  apply hslot _ _ hexchange (Or.inl hderivative)

end Formula
