import Formula.Node.ShapeLaws

/-!
# Trees

A tree is a construct over trees, with a label on every construct.  Passes over trees are
folds: `Tree.fold` replaces every construct by the result of an algebra on the results of
its children, and `Tree.fold_mk` is its recursion equation.  `Tree.para` also hands the
children themselves to the algebra.
-/

namespace Formula

/-- A construct with a label, over such trees. -/
inductive Tree (δ : Type) where
  | mk (label : δ) (shape : Shape (Tree δ))

namespace Tree

variable {δ : Type}

/-- The label of a tree. -/
def label : Tree δ → δ
  | .mk l _ => l

/-- The construct of a tree. -/
def shape : Tree δ → Shape (Tree δ)
  | .mk _ s => s

/-- The tree with another construct. -/
def withShape (n : Tree δ) (s : Shape (Tree δ)) : Tree δ := .mk n.label s

/-- The tree with another label. -/
def withLabel (n : Tree δ) (l : δ) : Tree δ := .mk l n.shape

@[simp]
theorem mk_eta (n : Tree δ) :
  Tree.mk n.label n.shape = n
  := by
  cases n
  rfl

section Fold

universe u

variable {β : Type u} (f : δ → Shape β → β)

mutual

/-- Replaces every construct of a tree by the result of `f`, from the leaves up. -/
def fold : Tree δ → β
  | .mk l s => f l (foldShape s)

/-- The construct with every child folded. -/
def foldShape : Shape (Tree δ) → Shape β
  | .text v fmt s => .text v fmt s
  | .fraction m a b => .fraction m (foldSlot a) (foldSlot b)
  | .bevelledFraction m a b => .bevelledFraction m (foldSlot a) (foldSlot b)
  | .sqrt a => .sqrt (foldSlot a)
  | .nthRoot a b => .nthRoot (foldSlot a) (foldSlot b)
  | .script a p q => .script (foldSlot a) (foldOptional p) (foldOptional q)
  | .bracket l r c d s p q =>
    .bracket l r (foldSlot c) d s (foldOptional p) (foldOptional q)
  | .largeOperator o l m a b c => .largeOperator o l m (foldSlot a) (foldSlot b) (foldSlot c)
  | .derivative o l p m a b => .derivative (foldOrder o) l p m (foldSlot a) (foldSlot b)
  | .integral t s l m a b p q =>
    .integral t s l m (foldSlot a) (foldSlot b) (foldOptional p) (foldOptional q)
  | .matrix t g => .matrix t (foldGrid g)
  | .stack g => .stack (foldGrid g)
  | .cases g => .cases (foldGrid g)
  | .accent t p a l => .accent t p (foldSlot a) (foldOptional l)
  | .function t a b c d =>
    .function t (foldSlot a) (foldSlot b) (foldSlot c) (foldSlot d)

/-- The slot with every child folded. -/
def foldSlot : List (Tree δ) → List β
  | [] => []
  | n :: ns => n.fold :: foldSlot ns

/-- A slot that may be absent, with every child folded. -/
def foldOptional : Option (List (Tree δ)) → Option (List β)
  | none => none
  | some s => some (foldSlot s)

/-- The order with every child folded. -/
def foldOrder : Order (Tree δ) → Order β
  | .number n => .number n
  | .sequence s => .sequence (foldSlot s)

/-- The grid with every child folded. -/
def foldGrid : Grid (Tree δ) → Grid β
  | ⟨rows, cols, cells⟩ => ⟨rows, cols, foldCells cells⟩

/-- The cells with every child folded. -/
def foldCells : List ((Nat × Nat) × List (Tree δ)) → List ((Nat × Nat) × List β)
  | [] => []
  | (k, s) :: rest => (k, foldSlot s) :: foldCells rest

end

theorem foldSlot_eq_map (ns : List (Tree δ)) :
  foldSlot f ns = ns.map (fold f)
  := by
  induction ns with
  | nil => rfl
  | cons n ns ih => simp [foldSlot, ih]

theorem foldOptional_eq_map (s : Option (List (Tree δ))) :
  foldOptional f s = s.map (List.map (fold f))
  := by
  cases s <;> simp [foldOptional, foldSlot_eq_map]

theorem foldOrder_eq_map (o : Order (Tree δ)) :
  foldOrder f o = Shape.mapSlotsOr.order (List.map (fold f)) o
  := by
  cases o <;> simp [foldOrder, foldSlot_eq_map, Shape.mapSlotsOr.order]

theorem foldCells_eq_map (cells : List ((Nat × Nat) × List (Tree δ))) :
  foldCells f cells = cells.map fun (k, s) => (k, s.map (fold f))
  := by
  induction cells with
  | nil => rfl
  | cons entry rest ih =>
    obtain ⟨k, s⟩ := entry
    simp [foldCells, foldSlot_eq_map, ih]

theorem foldGrid_eq_map (g : Grid (Tree δ)) :
  foldGrid f g = Shape.mapSlotsOr.grid (List.map (fold f)) (List.map (fold f)) g
  := by
  obtain ⟨rows, cols, cells⟩ := g
  simp [foldGrid, Shape.mapSlotsOr.grid, foldCells_eq_map]

theorem foldShape_eq_map (s : Shape (Tree δ)) :
  foldShape f s = s.map (fold f)
  := by
  cases s <;>
    simp [foldShape, Shape.map, Shape.mapSlots, Shape.mapSlotsOr, foldSlot_eq_map,
      foldOptional_eq_map, foldOrder_eq_map, foldGrid_eq_map]

/-- A fold computes the algebra on the folded children. -/
theorem fold_mk (l : δ) (s : Shape (Tree δ)) :
  fold f (.mk l s) = f l (s.map (fold f))
  := by
  rw [fold, foldShape_eq_map]

end Fold

/-! ### Induction -/

/-- A property holds of all nodes when it passes from the children of a node, in any slot, to
the node. -/
theorem induction {P : Tree δ → Prop}
    (h : ∀ l s, (∀ n ∈ s.allChildren, P n) → P (.mk l s)) (n : Tree δ) :
  P n
  := by
  apply Tree.rec (motive_1 := P) (motive_2 := fun s => ∀ n ∈ s.allChildren, P n)
    (motive_3 := fun ns => ∀ n ∈ ns, P n)
    (motive_4 := fun s => ∀ n ∈ s.getD [], P n)
    (motive_5 := fun o => ∀ n ∈ o.slot?.getD [], P n)
    (motive_6 := fun g => ∀ n ∈ g.cells.flatMap (·.2), P n)
    (motive_7 := fun cells => ∀ n ∈ cells.flatMap (·.2), P n)
    (motive_8 := fun cell => ∀ n ∈ cell.2, P n)
  case mk => exact h
  all_goals clear h
  all_goals intros
  all_goals
    simp only [Shape.allChildren, Shape.grid?, Shape.children, Shape.slots, Order.slot?,
      Shape.flatMap_present, Option.getD_none, Option.getD_some, List.flatMap_cons,
      List.flatMap_nil, List.flatMap_append, List.append_nil, List.mem_append,
      List.not_mem_nil, List.mem_cons] at * <;>
    grind

/-! ### Passes -/

section Para

universe u

variable {β : Type u} (f : Tree δ → Shape (Tree δ × β) → β)

/-- Computes a result from every node of a tree and its children with their results. -/
def para (n : Tree δ) : β :=
  (fold (fun l s => (Tree.mk l (s.map (·.1)), f (.mk l (s.map (·.1))) s)) n).2

/-- A pass computes its algebra on the node and its children with their results. -/
theorem para_mk (l : δ) (s : Shape (Tree δ)) :
  para f (.mk l s) = f (.mk l s) (s.map fun n => (n, para f n))
  := by
  have hfst : ∀ n : Tree δ,
      (fold (fun l s => (Tree.mk l (s.map (·.1)), f (.mk l (s.map (·.1))) s)) n).1 = n := by
    intro n
    induction n using Tree.induction with
    | h l s ih =>
      rw [fold_mk]
      simp only [Shape.map_map]
      exact congrArg _ (Shape.map_eq_self ih)
  have hmap : ∀ s : Shape (Tree δ), s.map (Prod.fst ∘
      fold (fun l s => (Tree.mk l (s.map (·.1)), f (.mk l (s.map (·.1))) s))) = s := by
    intro s
    exact Shape.map_eq_self fun a _ => hfst a
  rw [para, fold_mk]
  simp only [Shape.map_map, hmap]
  congr 1
  apply Shape.map_congr
  intro a _
  exact Prod.ext (hfst a) rfl

end Para

/-- The tree with `f` applied to every node, from the leaves up. -/
def mapBottomUp (f : Tree δ → Tree δ) : Tree δ → Tree δ :=
  fold fun l s => f (.mk l s)

/-- The node and all nodes below it that a walk meets, each before its children. -/
def walk : Tree δ → List (Tree δ) := para fun n s => n :: s.children.flatMap (·.2)

/-- The node and all nodes below it, those in the cells outside the rectangle of a grid
included. -/
def all : Tree δ → List (Tree δ) := para fun n s => n :: s.allChildren.flatMap (·.2)

/-! ### Equality -/

/-- Whether two trees are the same. -/
def same [DecidableEq δ] : Tree δ → Tree δ → Bool :=
  fold fun l s other => l = other.label && s.agrees (fun isSame n => isSame n) other.shape

theorem same_mk [DecidableEq δ] (l : δ) (s : Shape (Tree δ)) (m : Tree δ) :
  (Tree.mk l s).same m
    = (decide (l = m.label) && (s.map same).agrees (fun isSame n => isSame n) m.shape)
  := by
  rw [same, fold_mk]

/-- Trees are the same when they are equal. -/
theorem same_iff [DecidableEq δ] (n m : Tree δ) :
  n.same m = true ↔ n = m
  := by
  induction n using Tree.induction generalizing m with
  | h l s ih =>
    rw [same_mk, Bool.and_eq_true, decide_eq_true_eq, Shape.agrees_map_iff ih]
    cases m
    simp [label, shape]

instance [DecidableEq δ] : DecidableEq (Tree δ) := fun n m =>
  decidable_of_iff _ (same_iff n m)

end Tree

end Formula
