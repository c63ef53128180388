import Formula.Node.Visit
import Formula.Proofs.Bracket
import Formula.Proofs.Reread
import Mathlib.Data.List.SplitBy

/-!
# Legible equations

An equation is legible when every part of it is read as it is written: the fields of its
constructs are among those that have a command, its wrappers and delimiters are not mistaken
for something else, and no ampersand ends a cell before its time.
-/

namespace Formula

open Markup Writing

/-! ### Walks -/

section Walks

variable {α β : Type}

/-- A grid with one function applied to all cells. -/
theorem Grid.mapSlotsOr_self (f : List α → List β) (c : Grid α) :
  Shape.mapSlotsOr.grid f f c
    = { rows := c.rows, cols := c.cols, cells := c.cells.map fun (k, s) => (k, f s) }
  := by
  simp only [Shape.mapSlotsOr.grid, ite_self]

theorem Grid.cell_mapSlotsOr {f g : List α → List β} (hf : f [] = []) (c : Grid α)
    {at_ : Nat × Nat} (h : at_ ∈ c.coordinates) :
  (Shape.mapSlotsOr.grid f g c).cell at_.1 at_.2 = f (c.cell at_.1 at_.2)
  := by
  rw [mem_coordinates_iff] at h
  simp only [cell, Shape.mapSlotsOr.grid]
  generalize c.cells = cells
  induction cells with
  | nil => simp [hf]
  | cons entry rest ih =>
    obtain ⟨k, s⟩ := entry
    simp only [List.map_cons, List.lookup_cons]
    split
    · rename_i hk
      rw [← eq_of_beq hk, h, if_pos rfl]
      rfl
    · apply ih

/-- The slots of a construct of which the slots are changed. -/
theorem Shape.slots_mapSlotsOr {f g : List α → List β} (hf : f [] = []) (s : Shape α) :
  (s.mapSlotsOr f g).slots = s.slots.map fun slot => (slot.1, f slot.2)
  := by
  have hpresent : ∀ (n : SlotName) (p : Option (List α)),
      Shape.slots.present n (p.map f)
        = (Shape.slots.present n p).map fun slot => (slot.1, f slot.2) := by
    intro n p
    cases p <;> rfl
  have hgrid : ∀ c : Grid α,
      Shape.slots.ofGrid (Shape.mapSlotsOr.grid f g c)
        = (Shape.slots.ofGrid c).map fun slot => (slot.1, f slot.2) := by
    intro c
    simp only [Shape.slots.ofGrid, List.map_map]
    apply List.map_congr_left
    intro at_ hat
    exact congrArg _ (Grid.cell_mapSlotsOr hf c hat)
  cases s with
  | derivative o =>
    cases o <;> simp [slots, mapSlotsOr, mapSlotsOr.order, Order.slot?, slots.present]
  | _ => simp [slots, mapSlotsOr, hpresent, hgrid]

variable (f : α → β)

theorem Shape.slots_map (s : Shape α) :
  (s.map f).slots = s.slots.map fun slot => (slot.1, slot.2.map f)
  := slots_mapSlotsOr List.map_nil s

theorem Shape.children_map (s : Shape α) :
  (s.map f).children = s.children.map f
  := by
  rw [children, children, slots_map, List.flatMap_map, List.map_flatMap]

/-- A walk only meets children. -/
theorem Shape.children_subset (s : Shape α) :
  s.children ⊆ s.allChildren
  := by
  have hgrid : ∀ c : Grid α, (Shape.slots.ofGrid c).flatMap (·.2) ⊆ c.cells.flatMap (·.2) := by
    intro c a ha
    simp only [Shape.slots.ofGrid, List.flatMap_map, List.mem_flatMap] at ha
    obtain ⟨at_, -, ha⟩ := ha
    rw [Grid.cell] at ha
    cases hcell : c.cells.lookup (at_.1, at_.2) with
    | none => simp [hcell] at ha
    | some content =>
      rw [hcell, Option.getD_some] at ha
      obtain ⟨front, back, hcells, -⟩ := List.lookup_eq_some_iff.1 hcell
      rw [hcells]
      simp [ha]
  cases s with
  | matrix t c => apply hgrid
  | stack c => apply hgrid
  | cases c => apply hgrid
  | _ => apply List.Subset.refl

theorem outerWrappers_map (w : Wrapping) (s : Shape α) :
  outerWrappers w (s.map f) = outerWrappers w s
  := by
  cases s <;> rfl

end Walks

theorem Tree.walk_mk (l : Label) (s : Shape Node) :
  Tree.walk (.mk l s) = .mk l s :: Formula.walk s.children
  := by
  rw [Tree.walk, Tree.para_mk, Shape.children_map, List.flatMap_map]
  rfl

theorem Tree.mem_walk_self (n : Node) :
  n ∈ Tree.walk n
  := by
  obtain ⟨l, s⟩ := n
  rw [Tree.walk_mk]
  apply List.mem_cons_self

theorem mem_walk_of_mem {n : Node} {ns : List Node} (h : n ∈ ns) :
  n ∈ walk ns
  := List.mem_flatMap.2 ⟨n, h, Tree.mem_walk_self n⟩

/-- A walk from a node that is met stays within the walk. -/
theorem Tree.walk_subset {n m : Node} (h : n ∈ Tree.walk m) :
  Tree.walk n ⊆ Tree.walk m
  := by
  induction m using Tree.induction with
  | h l s ih =>
    rw [Tree.walk_mk] at h ⊢
    rcases List.mem_cons.1 h with rfl | h
    · rw [Tree.walk_mk]
      apply List.Subset.refl
    · obtain ⟨child, hchild, hn⟩ := List.mem_flatMap.1 h
      intro k hk
      apply List.mem_cons_of_mem
      apply List.mem_flatMap.2 ⟨child, hchild, ih child (s.children_subset hchild) hn hk⟩

/-- A walk meets what stands in the slots of the nodes that it meets. -/
theorem walk_slot_subset {n : Node} {slot : SlotName × List Node} (h : slot ∈ n.shape.slots) :
  walk slot.2 ⊆ Tree.walk n
  := by
  obtain ⟨l, s⟩ := n
  rw [Tree.walk_mk]
  intro k hk
  obtain ⟨child, hchild, hk⟩ := List.mem_flatMap.1 hk
  apply List.mem_cons_of_mem
  apply List.mem_flatMap.2 ⟨child, List.mem_flatMap.2 ⟨slot, h, hchild⟩, hk⟩

/-! ### Ampersands -/

/-- Whether an ampersand is a delimiter in a construct and no braces are around it, given
which of its nodes expose one. -/
def Shape.exposes (structural : Bool) : Shape Bool → Bool
  | .bracket l r c _ _ _ _ => l = ['&'] || r = ['&'] || c.any id
  | .nthRoot a _ => a.any id
  | .derivative (.sequence o) _ _ m _ _ => structural && m ≠ .display && o.any id
  | _ => false

/-- Whether an ampersand is a delimiter in a node and no braces are around it. -/
def Node.exposes (structural : Bool) : Node → Bool :=
  Tree.fold fun l s => (outerWrappers l.wrapping s).isEmpty && s.exposes structural

theorem Node.exposes_mk (structural : Bool) (l : Label) (s : Shape Node) :
  exposes structural (.mk l s)
    = ((outerWrappers l.wrapping s).isEmpty && (s.map (exposes structural)).exposes structural)
  := by
  rw [exposes, Tree.fold_mk, outerWrappers_map]

/-- The siblings, grouped by the wrappers around them. -/
def groups (ns : List Node) : List (List Node) :=
  ns.splitBy fun n n' => n.outer = n'.outer

/-- The text of a construct. -/
def Shape.value {α : Type} : Shape α → Text
  | .text v _ _ => v
  | _ => []

/-- What neighbouring texts must share to be one run. -/
def Node.run? (n : Node) : Option RunFormat :=
  match n.shape with
  | .text _ f _ => some ⟨f, n.wrapping⟩
  | _ => none

theorem Node.exists_text_of_run? {n : Node} {F : RunFormat} (h : F ∈ n.run?) :
  ∃ v scale, n.shape = .text v F.format scale
  := by
  rw [run?] at h
  split at h
  · rename_i v f scale hshape
    obtain rfl := Option.some.inj h
    exact ⟨v, scale, hshape⟩
  · contradiction

/-- The siblings, cut into runs of text and single constructs. -/
def runs (ns : List Node) : List (List Node) :=
  ns.splitBy fun n n' => n.run?.isSome && n.run? = n'.run?

theorem mem_of_mem_groups {n : Node} {g ns : List Node} (hg : g ∈ groups ns) (hn : n ∈ g) :
  n ∈ ns
  := by
  rw [← List.flatten_splitBy (fun n n' => decide (Node.outer n = Node.outer n')) ns]
  apply List.mem_flatten_of_mem hg hn

theorem mem_of_mem_runs {n : Node} {r ns : List Node} (hr : r ∈ runs ns) (hn : n ∈ r) :
  n ∈ ns
  := by
  rw [← List.flatten_splitBy (fun n n' => n.run?.isSome && n.run? = n'.run?) ns]
  apply List.mem_flatten_of_mem hr hn

/-- What neighbours that stand together have in common, all that stand together have. -/
theorem eq_of_mem_splitBy {α β : Type} {r : α → α → Bool} {f : α → β}
    (hr : ∀ a b, r a b = true → f a = f b) {g l : List α} (hg : g ∈ l.splitBy r) {a b : α}
    (ha : a ∈ g) (hb : b ∈ g) :
  f a = f b
  := by
  have hchain := (List.isChain_of_mem_splitBy hg).imp (S := fun a b => f a = f b) hr
  have htrans : IsTrans α fun a b => f a = f b := ⟨fun _ _ _ => Eq.trans⟩
  have hsymm : Std.Symm fun a b : α => f a = f b := ⟨fun _ _ => Eq.symm⟩
  apply List.Pairwise.forall_of_forall (R := fun a b => f a = f b) (fun _ _ => rfl)
    (List.isChain_iff_pairwise.1 hchain) ha hb

/-- The nodes of a group have the same wrappers. -/
theorem outer_eq_of_mem_groups {n n' : Node} {g ns : List Node} (hg : g ∈ groups ns) (hn : n ∈ g)
    (hn' : n' ∈ g) :
  n.outer = n'.outer
  := eq_of_mem_splitBy (fun _ _ h => of_decide_eq_true h) hg hn hn'

/-- The texts of a run have the same format. -/
theorem run?_eq_of_mem_runs {n n' : Node} {r ns : List Node} (hr : r ∈ runs ns) (hn : n ∈ r)
    (hn' : n' ∈ r) :
  n.run? = n'.run?
  := by
  apply eq_of_mem_splitBy _ hr hn hn'
  intro a b h
  rw [Bool.and_eq_true] at h
  apply of_decide_eq_true h.2

/-- No group of siblings in text mode is an ampersand alone, and no run of text that is in text
mode and has no other format. -/
structure SparesAmpersand (ns : List Node) : Prop where
  group : ∀ g ∈ groups ns, ∀ n ∈ g.head?, ∀ w ∈ n.outer.head?, w.1 = .textMode →
    g.flatMap Node.inside ≠ [charNode '＆']
  run : ∀ g ∈ groups ns, ∀ r ∈ runs g, ∀ n ∈ r.head?, ∀ F ∈ n.run?,
    F.format = { textMode := true } → r.flatMap (·.shape.value) ≠ ['＆']

/-! ### Legible constructs -/

/-- An order that is read as it is written: a positive number, or an expression that is no
numeral of too many digits. -/
def Order.Legible : Order Node → Prop
  | .number n => 1 ≤ n ∧ Numeral.isWritable n = true
  | .sequence s => ∀ digits, numeral? s = some digits → digits.length ≤ Numeral.maxDigits

/-- The names of operators that are read as built-in functions. -/
def reservedNames : FunctionForm → List Text
  | .withConstraint => ["argmax".toList, "argmin".toList]
  | _ => ["arsinh".toList, "arcosh".toList, "artanh".toList]

/-- A function of a known type that holds what its type writes, and whose name is not
reserved. -/
def FunctionLegible (type : Text) (name base constraint : List Node) : Prop :=
  ∃ info, FunctionInfo.find? type = some info
    ∧ (info.command.isSome → name = [])
    ∧ (info.form ≠ .withBase → base = [])
    ∧ (info.form ≠ .withConstraint → constraint = [])
    ∧ (info.command = none → ∀ w ∈ reservedNames info.form, plainText? name ≠ some w)

/-- A construct of which the fields are read as they are written. -/
def Shape.Legible : Shape Node → Prop
  | .text v f _ => (∀ c ∈ v, isTextChar c = true) ∧ ∀ c ∈ f.color, CleanColor c
  | .script _ p q => p.isSome ∨ q.isSome
  | .bracket l r _ _ _ _ _ => Delimiter.Legible l ∧ Delimiter.Legible r
  | .largeOperator o _ _ _ _ _ => (LargeOperator.commandFor? o).isSome
  | .derivative o _ _ _ _ _ => o.Legible
  | .integral _ _ l _ _ _ p q =>
    (q.isSome → p.isSome) ∧ (p = none → l = .default) ∧ (q = none → l ≠ .nolimits)
  | .matrix t g => t.isSome ∧ 0 < g.rows ∧ 0 < g.cols
  | .stack g => 0 < g.rows ∧ 0 < g.cols
  | .cases g => 0 < g.rows ∧ 0 < g.cols
  | .accent t p _ l => p = t.position ∧ l.isSome = t.labeled
  | .function t a _ c d => FunctionLegible t a c d
  | _ => True

/-- A node that is read as it is written, as far as it alone decides. -/
structure Node.Legible (structural : Bool) (n : Node) : Prop where
  outer : ∀ w ∈ n.outer, w.Clean
  nodup : (n.outer.map (·.1)).Nodup
  shape : n.shape.Legible
  spares : ∀ slot ∈ n.shape.slots, SparesAmpersand slot.2
  cells : n.shape.grid?.isSome →
    ∀ slot ∈ n.shape.slots, ∀ k ∈ slot.2, Node.exposes structural k = false

/-- An equation that is read as it is written. -/
structure Legible (structural : Bool) (ns : List Node) : Prop where
  spares : SparesAmpersand ns
  nodes : ∀ n ∈ walk ns, n.Legible structural

namespace Legible

variable {structural : Bool} {n : Node} {ns : List Node}

theorem node (h : Legible structural ns) (hn : n ∈ ns) :
  n.Legible structural
  := h.nodes n (mem_walk_of_mem hn)

end Legible

end Formula
