import Formula.Proofs.Congruence
import Formula.Proofs.Pieces
import Mathlib.Logic.Relation

/-!
# Cosmetic changes

Identifiers, the depths and scales that are stored, and the places where texts are cut in
parts of one format are cosmetic: an equation is written the same without them, unless
brackets are sized by their depths, and it has the same canonical form.
-/

namespace Formula

open Writing

/-! ### Changes that do not count -/

/-- The parts of a text, each with its identifier and its scale, as nodes of one format. -/
def textParts (w : Wrapping) (format : TextFormat) (parts : List (Nat × Text × Option Scale)) :
    List Node :=
  parts.map fun (id, value, scale) => .mk { id, wrapping := w } (.text value format scale)

/-- A change of siblings that does not count: a node gets another identifier and another look, or
a text is cut in other parts of the same format. -/
inductive Touch : List Node → List Node → Prop
  | look {l l' : Label} {s s' : Shape Node} :
    l'.wrapping = l.wrapping → s'.withoutLook = s.withoutLook → Touch [.mk l s] [.mk l' s']
  | recut {w : Wrapping} {format : TextFormat} {parts parts' : List (Nat × Text × Option Scale)} :
    parts ≠ [] → parts' ≠ [] → parts'.flatMap (·.2.1) = parts.flatMap (·.2.1) →
    Touch (textParts w format parts) (textParts w format parts')

/-- The second siblings are the first ones after one such change, among other siblings at any
depth. -/
def Touched (ns ns' : List Node) : Prop :=
  ∃ before x y after, Touch x y ∧ Exchange (before ++ x ++ after) (before ++ y ++ after) ns ns'

/-- The siblings differ by changes that do not count, any number of them. -/
def Cosmetic : List Node → List Node → Prop := Relation.EqvGen Touched

/-- It makes no difference to `F` whether a text is cut in two. -/
def IgnoresCuts {δ : Type} (F : List Node → δ) : Prop :=
  ∀ (before after : List Node) (l : Label) (value value' : Text) (format : TextFormat),
    F (before ++ .mk l (.text value format none) :: .mk l (.text value' format none) :: after)
      = F (before ++ .mk l (.text (value ++ value') format none) :: after)

namespace View

variable {γ δ : Type} {view : Node → γ} {F : List Node → δ} {ns ns' x y : List Node}

/-- A text in parts shows the same as the whole. -/
theorem textParts (hview : View view F) (hcuts : IgnoresCuts F) (w : Wrapping)
    (format : TextFormat) {parts : List (Nat × Text × Option Scale)} (hne : parts ≠ [])
    (before after : List Node) :
  F (before ++ textParts w format parts ++ after)
    = F (before ++ .mk { id := 0, wrapping := w } (.text (parts.flatMap (·.2.1)) format none) :: after)
  := by
  induction parts generalizing before with
  | nil => contradiction
  | cons part parts ih =>
    obtain ⟨id, value, scale⟩ := part
    have hpart : view (.mk { id, wrapping := w } (.text value format scale))
        = view (.mk { id := 0, wrapping := w } (.text value format none)) := hview.look rfl rfl
    cases parts with
    | nil =>
      apply hview.slot
      simp [Formula.textParts, hpart]
    | cons next parts =>
      let first : Node := .mk { id, wrapping := w } (.text value format scale)
      let whole : Node := .mk { id := 0, wrapping := w }
        (.text ((next :: parts).flatMap (·.2.1)) format none)
      calc F (before ++ Formula.textParts w format ((id, value, scale) :: next :: parts) ++ after)
        _ = F (before ++ [first] ++ Formula.textParts w format (next :: parts) ++ after) := by
          rw [List.append_assoc before [first]]
          rfl
        _ = F (before ++ [first] ++ whole :: after) := ih (List.cons_ne_nil _ _) (before ++ [first])
        _ = F (before ++ .mk { id := 0, wrapping := w } (.text value format none) :: whole :: after) := by
          apply hview.slot
          simp only [List.map_append, List.map_cons, List.append_assoc, List.cons_append,
            List.nil_append, first, hpart]
        _ = _ := hcuts _ _ _ _ _ _

/-- A change that does not count makes no difference to a view. -/
theorem touch (hview : View view F) (hcuts : IgnoresCuts F) (h : Touch x y)
    (before after : List Node) :
  F (before ++ x ++ after) = F (before ++ y ++ after)
  := by
  cases h with
  | @look l l' s s' hwrapping hlook =>
    apply hview.slot
    simp [hview.look hwrapping hlook]
  | @recut w format parts parts' hne hne' hvalue =>
    rw [hview.textParts hcuts w format hne, hview.textParts hcuts w format hne', hvalue]

/-- Siblings that differ by changes that do not count show the same. -/
theorem cosmetic (hview : View view F) (hcuts : IgnoresCuts F) (h : Cosmetic ns ns') :
  F ns = F ns'
  := by
  induction h with
  | rel ns ns' h =>
    obtain ⟨before, x, y, after, htouch, hexchange⟩ := h
    apply hview.exchange hexchange (hview.touch hcuts htouch before after)
  | refl => rfl
  | symm _ _ _ ih => exact ih.symm
  | trans _ _ _ _ _ ih ih' => exact ih.trans ih'

end View

/-! ### What ignores cuts -/

theorem ignoresCuts_canonicalForm :
  IgnoresCuts canonicalForm
  := by
  intro before after l value value' format
  have hform : ∀ value, Node.form (.mk l (.text value format none))
      = .ok (.ofText (formWrappers l.wrapping (.text [] format none : Shape Node)) value
        { bold := format.bold, italic := format.italic }) := fun _ => rfl
  have hcut : canonicalForm [.mk l (.text value format none), .mk l (.text value' format none)]
      = canonicalForm [.mk l (.text (value ++ value') format none)] := by
    simp only [canonicalForm_cons, hform]
    exact congrArg _ (Form.join_join_ofText _ _ _ _ _)
  have hamong := @canonicalForm_append_congr _ _ before after hcut
  simpa using hamong

theorem ignoresCuts_pieces (settings : Settings) :
  IgnoresCuts fun ns => sealed settings (ns.map (piece settings))
  := by
  intro before after l value value' format
  simp only [sealed, List.map_append, List.map_cons, piece_ofText, writePieces_cut]

/-! ### Markup and canonical forms -/

/-- An equation is written the same where its slots are, unless brackets are sized by their
depths. -/
theorem toMarkup_eq_of_sealed (t : SymbolTable) (structural : Bool) {ns ns' : List Node}
    (h : sealed (autoSettings t structural) (ns.map (piece (autoSettings t structural)))
      = sealed (autoSettings t structural) (ns'.map (piece (autoSettings t structural)))) :
  toMarkup t { structural, sizing := .auto } ns = toMarkup t { structural, sizing := .auto } ns'
  := by
  rw [toMarkup_auto, toMarkup_auto, ← writePieces_sealed, h, writePieces_sealed]

/-- Changes that do not count change neither the markup, unless brackets are sized by their depths,
nor the canonical form, and neither does storing depths or scales. -/
theorem toMarkup_canonicalForm_cosmetic :
  (∀ ns ns', Cosmetic ns ns' →
      (∀ t structural, toMarkup t { structural, sizing := .auto } ns
          = toMarkup t { structural, sizing := .auto } ns')
        ∧ canonicalForm ns = canonicalForm ns'
        ∧ equivalent ns ns' = equivalent ns ns)
    ∧ ∀ ns,
      (∀ t structural, toMarkup t { structural, sizing := .auto } (renest ns)
          = toMarkup t { structural, sizing := .auto } ns
        ∧ toMarkup t { structural, sizing := .auto } (rescale ns)
          = toMarkup t { structural, sizing := .auto } ns)
        ∧ canonicalForm (renest ns) = canonicalForm ns
        ∧ canonicalForm (rescale ns) = canonicalForm ns
  := by
  have hview : ∀ (t : SymbolTable) (structural : Bool), View (piece (autoSettings t structural))
      fun ns => sealed (autoSettings t structural) (ns.map (piece (autoSettings t structural))) :=
    fun t structural => view_piece _ rfl
  constructor
  · intro ns ns' h
    have hform := view_form.cosmetic ignoresCuts_canonicalForm h
    refine ⟨?_, hform, ?_⟩
    · intro t structural
      apply toMarkup_eq_of_sealed
      apply (hview t structural).cosmetic (ignoresCuts_pieces _) h
    · rw [equivalent, equivalent, ← hform]
  · intro ns
    refine ⟨fun t structural => ⟨?_, ?_⟩, canonicalForm_renest ns, ?_⟩
    · apply toMarkup_eq_of_sealed
      apply (hview t structural).slot
      apply (hview t structural).map_renest
    · apply toMarkup_eq_of_sealed
      apply (hview t structural).slot
      apply (hview t structural).map_rescale
    · apply view_form.slot (view_form.map_rescale ns)

/-- A bold text, and the same text in three parts of which one is empty. -/
def boldWord : List Node := [.plain 2 (.text ['a', 'b'] { bold := true } none)]

def boldParts : List Node :=
  textParts {} { bold := true } [(3, ['a'], some wideScale), (4, [], none), (5, ['b'], none)]

/-- A bracket that stores a depth. -/
def bracketed (depth : Int) (content : List Node) : Node :=
  .plain 1 (.bracket ['('] [')'] content depth none none none)

/-- A bracket is written the same whatever depth it stores, and however the text in it is cut. -/
theorem toMarkup_canonicalForm_cosmetic_bracketed :
  Cosmetic [bracketed 0 boldWord] [bracketed 2 boldParts]
    ∧ toMarkup .builtin {} [bracketed 0 boldWord] = toMarkup .builtin {} [bracketed 2 boldParts]
    ∧ equivalent [bracketed 0 boldWord] [bracketed 2 boldParts] = .ok true
  := by
  have hword : boldWord = textParts {} { bold := true } [(2, ['a', 'b'], none)] := rfl
  have hcut : Touched [bracketed 0 boldWord] [bracketed 0 boldParts] := by
    refine ⟨[], boldWord, boldParts, [], ?_, ?_⟩
    · rw [hword]
      exact .recut (List.cons_ne_nil _ _) (List.cons_ne_nil _ _) rfl
    · exact @Exchange.slot _ _ [] [] _ _ { id := 1 }
        (.bracket ['('] [')'] boldWord 0 none none none) .content rfl .whole
  have hlook : Touched [bracketed 0 boldParts] [bracketed 2 boldParts] :=
    ⟨[], [bracketed 0 boldParts], [bracketed 2 boldParts], [], .look rfl rfl, .whole⟩
  have hcosmetic : Cosmetic [bracketed 0 boldWord] [bracketed 2 boldParts] :=
    .trans _ _ _ (.rel _ _ hcut) (.rel _ _ hlook)
  obtain ⟨hmarkup, -, hequivalent⟩ := toMarkup_canonicalForm_cosmetic.1 _ _ hcosmetic
  exact ⟨hcosmetic, hmarkup .builtin false, hequivalent.trans (by decide)⟩

end Formula
