import Formula.Build.Blueprint
import Formula.Proofs.Outcome
import Formula.Session.Wrapper

/-!
# Sound constructs and wrappings

The fields of a construct that is made fit together: a script has a side, a bound of an
integral has a place, an accent has the label that its type asks for, and a grid has exactly
the cells of its rectangle.  This does not depend on what stands in the slots.  A wrapping
that results from applying and removing wrappers lists every kind once, with a parameter
that the kind takes.
-/

namespace Formula

universe u v

variable {α : Type u} {β : Type v}

/-- A grid that is not empty and has exactly the cells inside its rectangle. -/
structure Grid.Sound (g : Grid α) : Prop where
  rows : 1 ≤ g.rows
  cols : 1 ≤ g.cols
  cells : g.cells.map (·.1) = g.coordinates

/-- The fields of a construct fit together. -/
def Shape.Sound : Shape α → Prop
  | .script _ p q => p.isSome ∨ q.isSome
  | .largeOperator o _ _ _ _ _ => (LargeOperator.commandFor? o).isSome
  | .derivative (.number n) _ _ _ _ _ => 1 ≤ n
  | .integral _ _ l _ _ _ p q =>
    (q.isSome → p.isSome) ∧ (p = none → l = .default) ∧ (q = none → l ≠ .nolimits)
  | .matrix _ g => g.Sound
  | .stack g => g.Sound
  | .cases g => g.Sound
  | .accent t p _ l => p = t.position ∧ l.isSome = t.labeled
  | .function t _ _ _ _ => (FunctionInfo.find? t).isSome
  | _ => True

/-- Soundness does not depend on what stands in the slots. -/
theorem Shape.sound_mapSlotsOr_iff {f g : List α → List β} {s : Shape α} :
  (s.mapSlotsOr f g).Sound ↔ s.Sound
  := by
  have hgrid : ∀ c : Grid α, (mapSlotsOr.grid f g c).Sound ↔ c.Sound := by
    intro c
    have hcells : (mapSlotsOr.grid f g c).cells.map (·.1) = c.cells.map (·.1) := by
      simp [mapSlotsOr.grid]
    have hcoordinates : (mapSlotsOr.grid f g c).coordinates = c.coordinates := rfl
    constructor
    · intro h
      exact ⟨h.rows, h.cols, by rw [← hcells, h.cells, hcoordinates]⟩
    · intro h
      exact ⟨h.rows, h.cols, by rw [hcells, h.cells, hcoordinates]⟩
  cases s with
  | derivative o => cases o <;> rfl
  | matrix t c => apply hgrid
  | stack c => apply hgrid
  | cases c => apply hgrid
  | _ => simp [mapSlotsOr, Sound]

/-- A blank grid of a size that is not empty is sound. -/
theorem Grid.sound_blank {rows cols : Nat} (hrows : 1 ≤ rows) (hcols : 1 ≤ cols) :
  (Grid.blank rows cols : Grid α).Sound
  where
  rows := Int.ofNat_le.2 hrows
  cols := Int.ofNat_le.2 hcols
  cells := by
    simp only [blank, visible, List.map_map]
    apply List.map_id

/-- What is looked up is in the list. -/
theorem mem_of_lookup_eq_some {κ : Type u} [BEq κ] [LawfulBEq κ] {l : List (κ × α)} {k : κ} {a : α}
    (h : l.lookup k = some a) :
  (k, a) ∈ l
  := by
  obtain ⟨front, back, rfl, -⟩ := List.lookup_eq_some_iff.1 h
  apply List.mem_append_right front List.mem_cons_self

/-- The glyph of every command of a large operator has a command. -/
theorem LargeOperator.isSome_commandFor? {command glyph : Text}
    (h : (command, glyph) ∈ table.entries) :
  (commandFor? glyph).isSome
  := by
  rw [commandFor?, Option.isSome_map, List.find?_isSome]
  exact ⟨(command, glyph), h, by simp⟩

namespace Blueprint

/-- A node of a grid that is made has the grid. -/
theorem returns_grid {P : Node → Prop} {rows cols : Int} {shape : Grid Node → Shape Node}
    (h : 1 ≤ rows → 1 ≤ cols → ∀ i, P (.plain i (shape (.blank rows.toNat cols.toNat)))) :
  Build.Meets (grid rows cols shape) P fun _ => True
  := by
  rw [grid]
  apply Build.Meets.bind (Build.meets_fresh fun _ => trivial)
  intro i _
  split
  · apply Build.Meets.bind (P := fun _ => False) (Build.Meets.throw trivial)
    intro _ hfalse
    contradiction
  · rename_i hsize
    simp only [Bool.or_eq_true, decide_eq_true_eq, not_or] at hsize
    apply Build.Meets.pure
    apply h <;> omega

/-- Every node that a blueprint makes is sound. -/
theorem sound_build (blueprint : Blueprint) :
  Build.Meets blueprint.build (fun n => n.shape.Sound) fun _ => True
  := by
  have hblank : ∀ {rows cols : Int}, 1 ≤ rows → 1 ≤ cols →
      (Grid.blank rows.toNat cols.toNat : Grid Node).Sound :=
    fun hrows hcols => Grid.sound_blank (by omega) (by omega)
  cases blueprint with
  | script hasSuperscript hasSubscript =>
    rw [build]
    split
    · apply Build.meets_node
      intro _
      cases hasSuperscript <;> cases hasSubscript <;> simp_all [build.slotIf, Tree.shape, Shape.Sound]
    · apply Build.Meets.throw trivial
  | evaluationBracket style =>
    rw [build]
    split
    · apply Build.meets_node fun _ => trivial
    · apply Build.Meets.throw trivial
  | largeOperator operator =>
    rw [build]
    split
    · rename_i glyph hglyph
      apply Build.meets_node
      intro _
      rw [LargeOperator.glyphOf?] at hglyph
      split at hglyph
      · rename_i known hknown
        obtain rfl := Option.some.inj hglyph
        apply LargeOperator.isSome_commandFor? (mem_of_lookup_eq_some hknown)
      · split at hglyph
        · rename_i hoperator
          obtain rfl := Option.some.inj hglyph
          apply hoperator
        · contradiction
    · apply Build.Meets.throw trivial
  | derivative order =>
    rw [build]
    split
    · rename_i hcheck
      apply Build.meets_node
      intro _
      cases order with
      | number n =>
        rw [checkOrder] at hcheck
        split at hcheck
        · assumption
        · contradiction
      | sequence => trivial
    · apply Build.Meets.throw trivial
  | integral type style bounds limitMode =>
    apply Build.meets_node
    intro _
    cases bounds <;> cases limitMode <;>
      simp [build.slotIf, Tree.shape, Shape.Sound, IntegralBounds.fold]
  | matrix rows cols delimiters => apply returns_grid fun hrows hcols _ => hblank hrows hcols
  | stack rows cols => apply returns_grid fun hrows hcols _ => hblank hrows hcols
  | cases rows cols => apply returns_grid fun hrows hcols _ => hblank hrows hcols
  | accent type =>
    apply Build.meets_node
    intro _
    refine ⟨rfl, ?_⟩
    cases type.labeled <;> rfl
  | function type =>
    rw [build]
    split
    · apply Build.meets_node fun _ => by assumption
    · apply Build.Meets.throw trivial
  | _ => apply Build.meets_node fun _ => trivial

end Blueprint

/-! ### Wrappings -/

namespace Wrapping

variable {w w' : Wrapping} {kind : WrapperKind} {p : WrapperParam}

/-- The kinds that are present are listed once each, with parameters that they take; nothing
is said about what a color is. -/
structure Sound (w : Wrapping) : Prop where
  nodup : w.order.Nodup
  mem_order_iff : ∀ kind, kind ∈ w.order ↔ (w.params.get? kind).isSome
  underline : ∀ p ∈ w.params.underline, ∃ style, p = .style style
  cancel : ∀ p ∈ w.params.cancel, p = .none
  textMode : ∀ p ∈ w.params.textMode, p = .none

theorem Sound.empty : Sound {} where
  nodup := List.nodup_nil
  mem_order_iff kind := by cases kind <;> simp [WrapperParams.get?]
  underline _ h := by contradiction
  cancel _ h := by contradiction
  textMode _ h := by contradiction

/-- A kind may be put with a parameter that it takes. -/
theorem Sound.put (h : w.Sound) (hunderline : kind = .underline → ∃ style, p = .style style)
    (hcancel : kind = .cancel → p = .none) (htext : kind = .textMode → p = .none) :
  (w.put kind p).Sound
  where
  nodup := by
    simp only [Wrapping.put]
    split
    · apply h.nodup
    · rename_i hnew
      rw [List.nodup_append]
      refine ⟨h.nodup, by simp, ?_⟩
      rintro other hother _ hkind rfl
      rw [List.mem_singleton.1 hkind, h.mem_order_iff] at hother
      contradiction
  mem_order_iff other := by
    rw [get?_put]
    by_cases hother : other = kind
    · subst hother
      simp only [Wrapping.put, if_true, Option.isSome_some, iff_true]
      split
      · rwa [h.mem_order_iff]
      · apply List.mem_append_right _ (List.mem_singleton_self _)
    · rw [if_neg hother, ← h.mem_order_iff, Wrapping.put]
      split
      · rfl
      · simp [hother]
  underline q hq := by
    cases kind with
    | underline =>
      obtain rfl := Option.some.inj hq
      apply hunderline rfl
    | _ => apply h.underline q hq
  cancel q hq := by
    cases kind with
    | cancel =>
      obtain rfl := Option.some.inj hq
      apply hcancel rfl
    | _ => apply h.cancel q hq
  textMode q hq := by
    cases kind with
    | textMode =>
      obtain rfl := Option.some.inj hq
      apply htext rfl
    | _ => apply h.textMode q hq

theorem Sound.erase (h : w.Sound) (kind : WrapperKind) :
  (w.erase kind).Sound
  where
  nodup := h.nodup.erase kind
  mem_order_iff other := by
    rw [get?_erase, Wrapping.erase, h.nodup.mem_erase_iff, h.mem_order_iff]
    by_cases hother : other = kind <;> simp [hother]
  underline q hq := by
    cases kind with
    | underline => contradiction
    | _ => apply h.underline q hq
  cancel q hq := by
    cases kind with
    | cancel => contradiction
    | _ => apply h.cancel q hq
  textMode q hq := by
    cases kind with
    | textMode => contradiction
    | _ => apply h.textMode q hq

/-- An accepted application keeps a wrapping sound. -/
theorem Sound.apply (h : w.Sound) {given : WrapperParam} (happly : w.apply kind given = .ok w') :
  w'.Sound
  := by
  rw [Wrapping.apply] at happly
  cases haccept : kind.accept given with
  | error fault =>
    rw [haccept] at happly
    contradiction
  | ok p =>
    rw [haccept] at happly
    obtain rfl := Except.ok.inj happly
    unfold WrapperKind.accept at haccept
    apply h.put
    · rintro rfl
      cases given with
      | text => contradiction
      | none => exact ⟨_, (Except.ok.inj haccept).symm⟩
      | style s => exact ⟨s, (Except.ok.inj haccept).symm⟩
    · rintro rfl
      cases given with
      | none => exact (Except.ok.inj haccept).symm
      | _ => contradiction
    · rintro rfl
      cases given with
      | none => exact (Except.ok.inj haccept).symm
      | _ => contradiction

/-- A wrapping that is left after wrappers were applied and removed. -/
inductive Reachable : Wrapping → Prop
  | empty : Reachable {}
  | apply {w w' : Wrapping} {kind : WrapperKind} {given : WrapperParam} :
    Reachable w → w.apply kind given = .ok w' → Reachable w'
  | erase {w : Wrapping} (kind : WrapperKind) : Reachable w → Reachable (w.erase kind)

theorem Reachable.sound (h : w.Reachable) :
  w.Sound
  := by
  induction h with
  | empty => apply Sound.empty
  | apply _ happly ih => apply ih.apply happly
  | erase kind _ ih => apply ih.erase

end Wrapping

end Formula
