import Formula.Node.Wrapping

/-!
# Shapes

The fifteen kinds of construct in an equation, over an arbitrary type of children.  A slot
is a list of children; a slot that a construct may lack is an `Option`.  `Shape.slots` lists
the slots of a construct in order with their names, and `Shape.mapSlots` and
`Shape.mapSlotsM` change all of them at once.
-/

namespace Formula

universe u v

/-- The order of a derivative: a number, or an expression. -/
inductive Order (α : Type u) where
  | number (n : Int)
  | sequence (nodes : List α)
deriving DecidableEq, Repr

/-- A rectangle of cells.  A coordinate that has no entry is an empty cell. -/
structure Grid (α : Type u) where
  rows : Int
  cols : Int
  cells : List ((Nat × Nat) × List α)
deriving DecidableEq, Repr

/-- The factor by which a delimiter is enlarged, written in decimal; nothing computes with
it. -/
abbrev Scale := Text

/-- A construct of an equation, over children of type `α`. -/
inductive Shape (α : Type u) where
  | text (value : Text) (format : TextFormat) (scale : Option Scale)
  | fraction (mode : Option DisplayMode) (numerator denominator : List α)
  | bevelledFraction (mode : Option DisplayMode) (numerator denominator : List α)
  | sqrt (radicand : List α)
  | nthRoot (index radicand : List α)
  | script (base : List α) (superscript subscript : Option (List α))
  | bracket (left right : Text) (content : List α) (depth : Int) (scale : Option Scale)
      (superscript subscript : Option (List α))
  | largeOperator (operator : Text) (limitMode : LimitMode) (mode : DisplayMode)
      (lower upper operand : List α)
  | derivative (order : Order α) (longForm isPartial : Bool) (mode : DisplayMode)
      (function differentials : List α)
  | integral (type : IntegralType) (style : DifferentialStyle) (limitMode : LimitMode)
      (mode : DisplayMode) (integrand differentials : List α) (lower upper : Option (List α))
  | matrix (delimiters : Option MatrixType) (grid : Grid α)
  | stack (grid : Grid α)
  | cases (grid : Grid α)
  | accent (type : AccentType) (position : AccentPosition) (base : List α)
      (label : Option (List α))
  | function (type : Text) (name argument base constraint : List α)
deriving DecidableEq, Repr

instance {α : Type u} : Inhabited (Shape α) := ⟨.text [] {} none⟩

/-- The names of the slots. -/
inductive SlotName where
  | numerator | denominator | radicand | index | base | superscript | subscript | content
  | lower | upper | operand | order | function | differentials | integrand | label | name
  | argument | constraint
  | cell (row col : Nat)
deriving DecidableEq, Repr

/-- The name of a slot as it is written. -/
def SlotName.text : SlotName → String
  | .numerator => "numerator"
  | .denominator => "denominator"
  | .radicand => "radicand"
  | .index => "index"
  | .base => "base"
  | .superscript => "superscript"
  | .subscript => "subscript"
  | .content => "content"
  | .lower => "lower"
  | .upper => "upper"
  | .operand => "operand"
  | .order => "order"
  | .function => "function"
  | .differentials => "variable"
  | .integrand => "integrand"
  | .label => "label"
  | .name => "name"
  | .argument => "argument"
  | .constraint => "constraint"
  | .cell row col => "cell_" ++ toString row ++ "_" ++ toString col

namespace Grid

variable {α : Type u} {β : Type v}

/-- The cell at a coordinate. -/
def cell (g : Grid α) (row col : Nat) : List α := (g.cells.lookup (row, col)).getD []

/-- The coordinates inside the rectangle, row by row. -/
def coordinates (g : Grid α) : List (Nat × Nat) :=
  (List.range g.rows.toNat).flatMap fun row => (List.range g.cols.toNat).map (row, ·)

/-- Whether a coordinate is inside the rectangle. -/
def inside (g : Grid α) (at_ : Nat × Nat) : Bool :=
  at_.1 < g.rows.toNat && at_.2 < g.cols.toNat

theorem mem_coordinates_iff (g : Grid α) (at_ : Nat × Nat) :
  at_ ∈ g.coordinates ↔ g.inside at_ = true
  := by
  obtain ⟨row, col⟩ := at_
  simp [coordinates, inside]

/-- The grid with exactly the cells inside the rectangle. -/
def visible (g : Grid α) : Grid α :=
  { g with cells := g.coordinates.map fun at_ => (at_, g.cell at_.1 at_.2) }

/-- The grid of the given size in which every cell is empty. -/
def blank (rows cols : Nat) : Grid α :=
  visible { rows, cols, cells := [] }

/-- The grid with a cell replaced. -/
def setCell (g : Grid α) (row col : Nat) (content : List α) : Grid α :=
  let replaced := g.cells.map fun entry =>
    if entry.1 = (row, col) then (entry.1, content) else entry
  { g with cells :=
      if (g.cells.lookup (row, col)).isSome then replaced
      else g.cells ++ [((row, col), content)] }

end Grid

namespace Order

variable {α : Type u} {β : Type v}

/-- The slot of an order that is an expression. -/
def slot? : Order α → Option (List α)
  | .number _ => none
  | .sequence nodes => some nodes

end Order

namespace Shape

variable {α : Type u} {β : Type v}

/-- The construct with `f` applied to every slot that a walk meets, and `g` to the cells
outside the rectangle of a grid. -/
def mapSlotsOr (f g : List α → List β) : Shape α → Shape β
  | .text v fmt s => .text v fmt s
  | .fraction m a b => .fraction m (f a) (f b)
  | .bevelledFraction m a b => .bevelledFraction m (f a) (f b)
  | .sqrt a => .sqrt (f a)
  | .nthRoot a b => .nthRoot (f a) (f b)
  | .script a p q => .script (f a) (p.map f) (q.map f)
  | .bracket l r c d s p q => .bracket l r (f c) d s (p.map f) (q.map f)
  | .largeOperator o l m a b c => .largeOperator o l m (f a) (f b) (f c)
  | .derivative o l p m a b => .derivative (order o) l p m (f a) (f b)
  | .integral t s l m a b p q => .integral t s l m (f a) (f b) (p.map f) (q.map f)
  | .matrix t c => .matrix t (grid c)
  | .stack c => .stack (grid c)
  | .cases c => .cases (grid c)
  | .accent t p a l => .accent t p (f a) (l.map f)
  | .function t a b c d => .function t (f a) (f b) (f c) (f d)
where
  /-- The order with `f` applied to its slot. -/
  order : Order α → Order β
    | .number n => .number n
    | .sequence s => .sequence (f s)
  /-- The grid with `f` applied to the cells inside its rectangle, and `g` to the others. -/
  grid (c : Grid α) : Grid β :=
    { rows := c.rows, cols := c.cols,
      cells := c.cells.map fun (k, s) => (k, if c.inside k then f s else g s) }

/-- The construct with `f` applied to every slot. -/
def mapSlots (f : List α → List β) (s : Shape α) : Shape β := s.mapSlotsOr f f

/-- The construct with `f` applied to every child. -/
def map (f : α → β) (s : Shape α) : Shape β := s.mapSlots (List.map f)

/-- The construct with `f` applied to every slot, one after the other in slot order. -/
def mapSlotsM {m : Type v → Type v} [Monad m] {α β : Type v} (f : List α → m (List β)) :
    Shape α → m (Shape β)
  | .text v fmt s => pure (.text v fmt s)
  | .fraction m a b => return .fraction m (← f a) (← f b)
  | .bevelledFraction m a b => return .bevelledFraction m (← f a) (← f b)
  | .sqrt a => return .sqrt (← f a)
  | .nthRoot a b => return .nthRoot (← f a) (← f b)
  | .script a p q => return .script (← f a) (← optional p) (← optional q)
  | .bracket l r c d s p q => return .bracket l r (← f c) d s (← optional p) (← optional q)
  | .largeOperator o l m a b c => return .largeOperator o l m (← f a) (← f b) (← f c)
  | .derivative o l p m a b => return .derivative (← order o) l p m (← f a) (← f b)
  | .integral t s l m a b p q =>
    return .integral t s l m (← f a) (← f b) (← optional p) (← optional q)
  | .matrix t g => return .matrix t (← grid g)
  | .stack g => return .stack (← grid g)
  | .cases g => return .cases (← grid g)
  | .accent t p a l => return .accent t p (← f a) (← optional l)
  | .function t a b c d => return .function t (← f a) (← f b) (← f c) (← f d)
where
  /-- Applies `f` to a slot that may be absent. -/
  optional : Option (List α) → m (Option (List β))
    | none => pure none
    | some s => return some (← f s)
  /-- Applies `f` to the slot of an order. -/
  order : Order α → m (Order β)
    | .number n => pure (.number n)
    | .sequence s => return .sequence (← f s)
  /-- Applies `f` to every cell. -/
  grid (g : Grid α) : m (Grid β) :=
    return { rows := g.rows, cols := g.cols, cells := ← cells g.cells }
  /-- Applies `f` to the cells of a list. -/
  cells : List ((Nat × Nat) × List α) → m (List ((Nat × Nat) × List β))
    | [] => pure []
    | (k, s) :: rest => return (k, ← f s) :: (← cells rest)

/-- Whether two constructs are of one kind, agree in their fields, and have children that are
related by `r` in the same places. -/
def agrees (r : α → β → Bool) : Shape α → Shape β → Bool
  | .text v f s, .text v' f' s' => v = v' && f = f' && s = s'
  | .fraction m a b, .fraction m' a' b' => m = m' && slot a a' && slot b b'
  | .bevelledFraction m a b, .bevelledFraction m' a' b' => m = m' && slot a a' && slot b b'
  | .sqrt a, .sqrt a' => slot a a'
  | .nthRoot a b, .nthRoot a' b' => slot a a' && slot b b'
  | .script a p q, .script a' p' q' => slot a a' && optional p p' && optional q q'
  | .bracket l k c d s p q, .bracket l' k' c' d' s' p' q' =>
    l = l' && k = k' && slot c c' && d = d' && s = s' && optional p p' && optional q q'
  | .largeOperator o l m a b c, .largeOperator o' l' m' a' b' c' =>
    o = o' && l = l' && m = m' && slot a a' && slot b b' && slot c c'
  | .derivative o l p m a b, .derivative o' l' p' m' a' b' =>
    order o o' && l = l' && p = p' && m = m' && slot a a' && slot b b'
  | .integral t s l m a b p q, .integral t' s' l' m' a' b' p' q' =>
    t = t' && s = s' && l = l' && m = m' && slot a a' && slot b b' && optional p p'
      && optional q q'
  | .matrix t g, .matrix t' g' => t = t' && grid g g'
  | .stack g, .stack g' => grid g g'
  | .cases g, .cases g' => grid g g'
  | .accent t p a l, .accent t' p' a' l' => t = t' && p = p' && slot a a' && optional l l'
  | .function t a b c d, .function t' a' b' c' d' =>
    t = t' && slot a a' && slot b b' && slot c c' && slot d d'
  | _, _ => false
where
  /-- Whether the children of two slots are related one by one. -/
  slot : List α → List β → Bool
    | [], [] => true
    | a :: as, b :: bs => r a b && slot as bs
    | _, _ => false
  /-- Whether two slots are both absent, or related. -/
  optional : Option (List α) → Option (List β) → Bool
    | none, none => true
    | some s, some s' => slot s s'
    | _, _ => false
  /-- Whether two orders are the same number, or related. -/
  order : Order α → Order β → Bool
    | .number n, .number n' => n = n'
    | .sequence s, .sequence s' => slot s s'
    | _, _ => false
  /-- Whether two grids have the same size and related cells. -/
  grid (g : Grid α) (g' : Grid β) : Bool :=
    g.rows = g'.rows && g.cols = g'.cols && cells g.cells g'.cells
  /-- Whether two lists of cells have the same coordinates and are related. -/
  cells : List ((Nat × Nat) × List α) → List ((Nat × Nat) × List β) → Bool
    | [], [] => true
    | (k, s) :: rest, (k', s') :: rest' => k = k' && slot s s' && cells rest rest'
    | _, _ => false

/-- The grid of a construct that has one. -/
def grid? : Shape α → Option (Grid α)
  | .matrix _ g => some g
  | .stack g => some g
  | .cases g => some g
  | _ => none

/-- The construct with its grid changed, if it has one. -/
def mapGrid (f : Grid α → Grid α) : Shape α → Shape α
  | .matrix t g => .matrix t (f g)
  | .stack g => .stack (f g)
  | .cases g => .cases (f g)
  | s => s

/-- The slots that exist, in order, with their names.  A grid has the slots inside its
rectangle. -/
def slots : Shape α → List (SlotName × List α)
  | .text .. => []
  | .fraction _ a b => [(.numerator, a), (.denominator, b)]
  | .bevelledFraction _ a b => [(.numerator, a), (.denominator, b)]
  | .sqrt a => [(.radicand, a)]
  | .nthRoot a b => [(.index, a), (.radicand, b)]
  | .script a p q => (.base, a) :: present .superscript p ++ present .subscript q
  | .bracket _ _ c _ _ p q => (.content, c) :: present .superscript p ++ present .subscript q
  | .largeOperator _ _ _ a b c => [(.lower, a), (.upper, b), (.operand, c)]
  | .derivative o _ _ _ a b => present .order o.slot? ++ [(.function, a), (.differentials, b)]
  | .integral _ _ _ _ a b p q =>
    [(.integrand, a), (.differentials, b)] ++ present .lower p ++ present .upper q
  | .matrix _ g => ofGrid g
  | .stack g => ofGrid g
  | .cases g => ofGrid g
  | .accent _ _ a l => (.base, a) :: present .label l
  | .function _ a b c d => [(.name, a), (.argument, b), (.base, c), (.constraint, d)]
where
  /-- A slot that may be absent. -/
  present (n : SlotName) : Option (List α) → List (SlotName × List α)
    | none => []
    | some s => [(n, s)]
  /-- The cells inside the rectangle. -/
  ofGrid (g : Grid α) : List (SlotName × List α) :=
    g.coordinates.map fun at_ => (.cell at_.1 at_.2, g.cell at_.1 at_.2)

/-- The children that a walk meets, slot by slot. -/
def children (s : Shape α) : List α := s.slots.flatMap (·.2)

/-- The children in all slots, the cells outside the rectangle of a grid included. -/
def allChildren (s : Shape α) : List α :=
  match s.grid? with
  | none => s.children
  | some g => g.cells.flatMap (·.2)

/-- The slot of a name, if it exists. -/
def slot? (s : Shape α) (n : SlotName) : Option (List α) := s.slots.lookup n

/-- The construct with an existing slot replaced; a slot that does not exist stays absent. -/
def setSlot (s : Shape α) (n : SlotName) (nodes : List α) : Shape α :=
  match s, n with
  | .fraction m _ b, .numerator => .fraction m nodes b
  | .fraction m a _, .denominator => .fraction m a nodes
  | .bevelledFraction m _ b, .numerator => .bevelledFraction m nodes b
  | .bevelledFraction m a _, .denominator => .bevelledFraction m a nodes
  | .sqrt _, .radicand => .sqrt nodes
  | .nthRoot _ b, .index => .nthRoot nodes b
  | .nthRoot a _, .radicand => .nthRoot a nodes
  | .script _ p q, .base => .script nodes p q
  | .script a (some _) q, .superscript => .script a (some nodes) q
  | .script a p (some _), .subscript => .script a p (some nodes)
  | .bracket l r _ d s p q, .content => .bracket l r nodes d s p q
  | .bracket l r c d s (some _) q, .superscript => .bracket l r c d s (some nodes) q
  | .bracket l r c d s p (some _), .subscript => .bracket l r c d s p (some nodes)
  | .largeOperator o l m _ b c, .lower => .largeOperator o l m nodes b c
  | .largeOperator o l m a _ c, .upper => .largeOperator o l m a nodes c
  | .largeOperator o l m a b _, .operand => .largeOperator o l m a b nodes
  | .derivative (.sequence _) l p m a b, .order => .derivative (.sequence nodes) l p m a b
  | .derivative o l p m _ b, .function => .derivative o l p m nodes b
  | .derivative o l p m a _, .differentials => .derivative o l p m a nodes
  | .integral t s l m _ b p q, .integrand => .integral t s l m nodes b p q
  | .integral t s l m a _ p q, .differentials => .integral t s l m a nodes p q
  | .integral t s l m a b (some _) q, .lower => .integral t s l m a b (some nodes) q
  | .integral t s l m a b p (some _), .upper => .integral t s l m a b p (some nodes)
  | .accent t p _ l, .base => .accent t p nodes l
  | .accent t p a (some _), .label => .accent t p a (some nodes)
  | .function t _ b c d, .name => .function t nodes b c d
  | .function t a _ c d, .argument => .function t a nodes c d
  | .function t a b _ d, .base => .function t a b nodes d
  | .function t a b c _, .constraint => .function t a b c nodes
  | s, .cell row col =>
    s.mapGrid fun g => if (row, col) ∈ g.coordinates then g.setCell row col nodes else g
  | s, _ => s

/-- The name of the kind of a construct. -/
def kindName : Shape α → String
  | .text .. => "text"
  | .fraction .. => "fraction"
  | .bevelledFraction .. => "bevelled-fraction"
  | .sqrt .. => "sqrt"
  | .nthRoot .. => "nthroot"
  | .script .. => "script"
  | .bracket .. => "bracket"
  | .largeOperator .. => "large-operator"
  | .derivative .. => "derivative"
  | .integral .. => "integral"
  | .matrix .. => "matrix"
  | .stack .. => "stack"
  | .cases .. => "cases"
  | .accent .. => "accent"
  | .function .. => "function"

/-- The construct with its display mode set, for the kinds that have one. -/
def withMode? (mode : DisplayMode) : Shape α → Option (Shape α)
  | .fraction _ a b => some (.fraction (some mode) a b)
  | .bevelledFraction _ a b => some (.bevelledFraction (some mode) a b)
  | .largeOperator o l _ a b c => some (.largeOperator o l mode a b c)
  | .derivative o l p _ a b => some (.derivative o l p mode a b)
  | .integral t s l _ a b p q => some (.integral t s l mode a b p q)
  | _ => none

/-- Whether the construct is a fraction of either kind. -/
def isFraction : Shape α → Bool
  | .fraction .. => true
  | .bevelledFraction .. => true
  | _ => false

/-- Whether the construct is a bracket. -/
def isBracket : Shape α → Bool
  | .bracket .. => true
  | _ => false

end Shape

end Formula
