import Formula.Proofs.Alike
import Formula.Proofs.Appearance
import Formula.Proofs.Reading

/-!
# Reading does not show the supply

What is read from a text is the same up to identifiers, from whatever supply the identifiers
are taken.  Every reader has that property when the readers of the insides of an item do; the
induction over the length of the text is that of reading itself.
-/

namespace Formula

open Build Markup

variable {t : SymbolTable} {nested : Nested} {s rest : Text} {ns ns' : List Node}

/-- The item without identifiers. -/
def Item.bare : Item → Item
  | .nodes ns => .nodes (ns.map Node.bare)
  | .script side content => .script side (content.map Node.bare)

/-- The scripts without identifiers. -/
def Bounds.bare (b : Bounds) : Bounds where
  superscript := b.superscript.map (List.map Node.bare)
  subscript := b.subscript.map (List.map Node.bare)

namespace Build

/-- The computation gives the same nodes up to identifiers from every supply. -/
abbrev Steady (b : Build (List Node)) : Prop :=
  Alike (List.map Node.bare) b b

/-- The computation gives the same nodes up to identifiers from every supply, and the same text
after them. -/
abbrev SteadyRest (b : Build (List Node × Text)) : Prop :=
  Alike (Prod.map (List.map Node.bare) id) b b

/-- The computation gives the same item up to identifiers from every supply, and the same text
after it. -/
abbrev SteadyItem (b : Build (Item × Text)) : Prop :=
  Alike (Prod.map Item.bare id) b b

end Build

/-- Readers of the insides of an item that do not show the supply. -/
structure Nested.Steady (nested : Nested) : Prop where
  sequence : ∀ s, Build.Steady (nested.sequence s)
  spaced : ∀ s, Build.Steady (nested.spaced s)
  item : ∀ s, SteadyRest (nested.item s)

/-- A reader that does not show the supply where the readers of the insides do not. -/
def Reader.Steady (reader : Reader) (t : SymbolTable) : Prop :=
  ∀ nested : Nested, nested.Steady → ∀ s : Text, ∀ b ∈ reader t nested s, SteadyItem b

/-! ### Single steps -/

/-- Items of one node are alike when the constructs agree up to identifiers. -/
theorem alike_node {i i' : Nat} {shape shape' : Shape Node}
    (h : shape.map Node.bare = shape'.map Node.bare) :
  Alike (Prod.map Item.bare id) (pure (Item.node i shape, rest))
    (pure (Item.node i' shape', rest))
  := by
  apply Alike.pure
  simp only [Prod.map, Item.bare, map_bare_plain, h]

theorem alike_nodes (h : ns.map Node.bare = ns'.map Node.bare) :
  Alike (Prod.map Item.bare id) (pure (Item.nodes ns, rest)) (pure (Item.nodes ns', rest))
  := by
  apply Alike.pure
  simp only [Prod.map, Item.bare, h]

theorem alike_text (value : Text) :
  Alike Node.bare (Build.text value) (Build.text value)
  := by
  apply Alike.bind alike_fresh
  intro i i' _
  apply Alike.pure
  rw [Node.bare_mk, Node.bare_mk]

theorem steadyItem_text (value : Text) :
  SteadyItem (do return (.nodes [← Build.text value], rest))
  := by
  apply Alike.bind (alike_text value)
  intro n n' hn
  apply alike_nodes
  rw [List.map_singleton, List.map_singleton, hn]

/-- Nodes that look the same look the same after a change that has nothing to do with
identifiers. -/
theorem map_bare_congr {f : Node → Node} (hf : ∀ n, Node.bare (f n) = f (Node.bare n))
    (h : ns.map Node.bare = ns'.map Node.bare) :
  (ns.map f).map Node.bare = (ns'.map f).map Node.bare
  := by
  have hcomp : Node.bare ∘ f = f ∘ Node.bare := funext hf
  rw [List.map_map, hcomp, ← List.map_map, h, List.map_map, ← hcomp, ← List.map_map]

namespace Nested.Steady

variable (h : nested.Steady)

include h

theorem argument (s : Text) :
  SteadyRest (nested.argument s)
  := by
  apply Alike.bind (h.sequence _)
  intro ns ns' hns
  apply Alike.pure
  rw [Prod.map, Prod.map, hns]

theorem group? (s : Text) :
  SteadyRest (nested.group? s)
  := by
  rw [Nested.group?]
  split
  · apply Alike.pure rfl
  · apply Alike.bind (h.sequence _)
    intro ns ns' hns
    apply Alike.pure
    rw [Prod.map, Prod.map, hns]

end Nested.Steady

/-! ### Scripts -/

namespace Bounds

variable {b b' : Bounds}

theorem isSome_get?_of_bare (h : b.bare = b'.bare) (side : ScriptSide) :
  (b.get? side).isSome = (b'.get? side).isSome
  := by
  simp only [bare, Bounds.mk.injEq] at h
  cases side with
  | superscript => simpa [get?] using congrArg Option.isSome h.1
  | subscript => simpa [get?] using congrArg Option.isSome h.2

theorem alike_readOne (h : nested.Steady) (hb : b.bare = b'.bare) (s : Text) :
  Alike (Prod.map bare id) (readOne nested b s) (readOne nested b' s)
  := by
  have hstay : Alike (Prod.map bare id) (pure (b, s)) (pure (b', s)) := by
    apply Alike.pure
    rw [Prod.map, Prod.map, hb]
  rw [readOne, readOne]
  split
  · apply hstay
  · rename_i side after _
    rw [isSome_get?_of_bare hb side]
    split
    · apply hstay
    · apply Alike.bind (h.sequence _)
      intro ns ns' hns
      apply Alike.pure
      simp only [bare, Bounds.mk.injEq] at hb
      cases side <;> simp [Prod.map, set, bare, hb, hns]

theorem steady_read (h : nested.Steady) (s : Text) :
  Alike (Prod.map bare id) (read nested s) (read nested s)
  := by
  apply Alike.bind_rest (alike_readOne h rfl s)
  intro b b' rest hb
  apply alike_readOne h hb

end Bounds

namespace Reading

/-! ### Styles, fractions and roots -/

theorem alike_applyMode {mode : DisplayMode} (h : ns.map Node.bare = ns'.map Node.bare) :
  Alike (List.map Node.bare) (applyMode mode ns) (applyMode mode ns')
  := by
  have hdropped : Alike (List.map Node.bare) (applyMode.dropped mode ns)
      (applyMode.dropped mode ns') := by
    apply Alike.bind (alike_remark _ _)
    intro _ _ _
    apply Alike.pure h
  rcases ns with _ | ⟨⟨l, s⟩, _ | ⟨n, ns⟩⟩ <;> rcases ns' with _ | ⟨⟨l', s'⟩, _ | ⟨n', ns'⟩⟩
  case cons.nil.cons.nil =>
    rw [List.map_singleton, List.map_singleton, Node.bare_mk, Node.bare_mk, List.cons.injEq,
      Tree.mk.injEq] at h
    obtain ⟨⟨hlabel, hshape⟩, -⟩ := h
    have hmode : (s.withMode? mode).map (Shape.map Node.bare)
        = (s'.withMode? mode).map (Shape.map Node.bare) := by
      rw [← Shape.map_withMode?, hshape, Shape.map_withMode?]
    simp only [applyMode, Tree.shape]
    cases hs : s.withMode? mode <;> cases hs' : s'.withMode? mode <;>
      simp only [hs, hs', Option.map_none, Option.map_some, reduceCtorEq, Option.some.injEq]
        at hmode
    · apply hdropped
    · apply Alike.pure
      rw [List.map_singleton, List.map_singleton, Tree.withShape, Tree.withShape, Node.bare_mk,
        Node.bare_mk, hmode]
      exact congrArg (fun l => [Tree.mk l _]) hlabel
  all_goals first
    | apply hdropped
    | simp at h

theorem alike_styled {mode : DisplayMode} (h : ns.map Node.bare = ns'.map Node.bare) :
  Alike (Prod.map Item.bare id) (do return (.nodes (← applyMode mode ns), rest))
    (do return (.nodes (← applyMode mode ns'), rest))
  := by
  apply Alike.bind (alike_applyMode h)
  intro made made' hmade
  apply alike_nodes hmade

theorem steady_style : Reader.Steady style t
  := by
  intro nested h s b hb
  unfold style at hb
  split at hb
  · obtain ⟨⟨command, mode, -⟩, -, rfl⟩ := Option.map_eq_some_iff.1 hb
    apply Alike.bind (h.sequence _)
    intro ns ns' hns
    apply alike_styled hns
  · obtain ⟨⟨-, mode, rest⟩, -, rfl⟩ := Option.map_eq_some_iff.1 hb
    dsimp only
    split
    · rw [pure_bind]
      apply alike_styled rfl
    · apply Alike.bind_rest (h.item _)
      intro ns ns' rest hns
      apply alike_styled hns

theorem steady_fraction : Reader.Steady fraction t
  := by
  intro nested h s b hb
  obtain ⟨⟨command, mode, rest⟩, -, rfl⟩ := Option.map_eq_some_iff.1 hb
  apply Alike.bind alike_fresh
  intro i i' _
  apply Alike.bind (h.sequence _)
  intro top top' htop
  apply Alike.bind (h.sequence _)
  intro bottom bottom' hbottom
  apply alike_node
  exact congrArg₂ (Shape.fraction mode) htop hbottom

theorem steady_root : Reader.Steady root t
  := by
  intro nested h s b hb
  obtain ⟨rest, -, rfl⟩ := Option.map_eq_some_iff.1 hb
  apply Alike.bind alike_fresh
  intro i i' _
  split
  · apply Alike.bind (h.sequence _)
    intro radicand radicand' hradicand
    apply alike_node
    exact congrArg Shape.sqrt hradicand
  · apply Alike.bind (h.sequence _)
    intro index index' hindex
    apply Alike.bind (h.sequence _)
    intro radicand radicand' hradicand
    apply alike_node
    exact congrArg₂ Shape.nthRoot hindex hradicand

/-! ### Derivatives -/

/-- An order is read without showing the supply; a numeral of too many digits fails always. -/
theorem steady_order (h : nested.Steady) (o : Option Text) :
  Alike Order.bare (order nested o) (order nested o)
  := by
  unfold order
  split
  · apply Alike.pure rfl
  · split
    · apply Alike.bind (h.sequence _)
      intro ns ns' hns
      apply Alike.pure
      exact congrArg Order.sequence hns
    · split
      · apply Alike.pure rfl
      · apply Alike.throw

theorem map_bare_derivative (o : Order Node) (longForm isPartial : Bool) (mode : DisplayMode)
    (a d : List Node) :
  (Shape.derivative o longForm isPartial mode a d).map Node.bare
    = .derivative o.bare longForm isPartial mode (a.map Node.bare) (d.map Node.bare)
  := rfl

/-- Derivatives are alike when their orders, functions and variables are. -/
theorem alike_derivative {i i' : Nat} {o o' : Order Node} {a a' d d' : List Node}
    {longForm isPartial : Bool} {mode : DisplayMode} (ho : o.bare = o'.bare)
    (ha : a.map Node.bare = a'.map Node.bare) (hd : d.map Node.bare = d'.map Node.bare) :
  Alike (Prod.map Item.bare id)
    (pure (Item.node i (.derivative o longForm isPartial mode a d), rest))
    (pure (Item.node i' (.derivative o' longForm isPartial mode a' d'), rest))
  := by
  apply alike_node
  rw [map_bare_derivative, map_bare_derivative, ho, ha, hd]

theorem steady_derivative : Reader.Steady derivative t
  := by
  intro nested h s b hb
  obtain ⟨⟨command, meaning, rest⟩, -, rfl⟩ := Option.map_eq_some_iff.1 hb
  cases meaning with
  | structural isPartial =>
    apply Alike.bind alike_fresh
    intro i i' _
    rcases Markup.optional rest with ⟨order?, rest⟩
    apply Alike.bind (steady_order h _)
    intro o o' ho
    rcases argument rest with ⟨first, rest⟩
    dsimp only
    split
    · apply Alike.bind (h.sequence _)
      intro d d' hd
      apply Alike.bind (h.sequence _)
      intro a a' ha
      apply alike_derivative ho ha hd
    · apply Alike.bind (h.sequence _)
      intro a a' ha
      apply Alike.bind (h.sequence _)
      intro d d' hd
      apply alike_derivative ho ha hd
    · apply Alike.bind (h.sequence _)
      intro d d' hd
      apply alike_derivative ho rfl hd
  | asFraction mode longForm =>
    dsimp only
    rw [fractionDerivative]
    rcases argument rest with ⟨numerator, rest⟩
    dsimp only
    rcases argument rest with ⟨denominator, rest⟩
    dsimp only
    split
    · apply Alike.bind alike_fresh
      intro i i' _
      apply Alike.bind (steady_order h _)
      intro o o' ho
      apply Alike.bind (h.sequence _)
      intro a a' ha
      apply Alike.bind (h.sequence _)
      intro d d' hd
      apply alike_derivative ho ha hd
    · apply Alike.bind (alike_remark _ _)
      intro _ _ _
      apply Alike.bind alike_fresh
      intro i i' _
      apply Alike.bind (h.sequence _)
      intro above above' habove
      apply Alike.bind (h.sequence _)
      intro below below' hbelow
      have hfraction : Node.bare (.plain i (.fraction (some mode) above below))
          = Node.bare (.plain i' (.fraction (some mode) above' below')) := by
        rw [Node.bare_mk, Node.bare_mk]
        exact congrArg₂ (fun a b => Node.plain 0 (.fraction (some mode) a b)) habove hbelow
      split
      · apply Alike.bind (h.sequence _)
        intro after after' hafter
        apply alike_nodes
        rw [List.map_cons, List.map_cons, hfraction, hafter]
      · rw [pure_bind, pure_bind]
        apply alike_nodes
        rw [List.map_singleton, List.map_singleton, hfraction]

/-! ### Grids -/

/-- The grid of rows with a function applied to every child is the grid of the changed rows. -/
theorem map_ofRows {α β : Type} (f : α → β) (cols : Nat) (rows : List (List (List α))) :
  Shape.mapSlotsOr.grid (List.map f) (List.map f) (Grid.ofRows cols rows)
    = Grid.ofRows cols (rows.map (List.map (List.map f)))
  := by
  rw [Grid.mapSlotsOr_self]
  simp only [Grid.ofRows, List.length_map, List.zipIdx_map, List.flatMap_map, List.map_flatMap,
    List.map_map, Grid.mk.injEq, true_and]
  apply List.flatMap_congr
  rintro ⟨row, i⟩ _
  apply List.map_congr_left
  intro j _
  simp only [Function.comp_apply, Prod.map, List.getElem?_map, id]
  cases row[j]? <;> rfl

theorem steady_environment : Reader.Steady environment t
  := by
  intro nested h s b hb
  simp only [environment, Option.bind_eq_bind, Option.mem_def, Option.bind_eq_some_iff] at hb
  obtain ⟨⟨name, rest⟩, -, kind, -, hb⟩ := hb
  obtain rfl := Option.some.inj hb
  apply Alike.bind alike_fresh
  intro i i' _
  apply Alike.bind (Alike.mapM fun row _ => Alike.mapM fun content _ => h.sequence content)
  intro cells cells' hcells
  apply alike_node
  rw [GridKind.map_shape, GridKind.map_shape, map_ofRows, map_ofRows, hcells]

/-! ### Operators -/

theorem steady_largeOperator : Reader.Steady largeOperator t
  := by
  intro nested h s b hb
  obtain ⟨⟨command, glyph, rest⟩, -, rfl⟩ := Option.map_eq_some_iff.1 hb
  apply Alike.bind alike_fresh
  intro i i' _
  split
  apply Alike.bind_rest (Bounds.steady_read h _)
  intro bounds bounds' rest hbounds
  apply Alike.bind_rest (h.group? _)
  intro operand operand' rest hoperand
  apply alike_node
  simp only [Bounds.bare, Bounds.mk.injEq] at hbounds
  have hgetD : ∀ o : Option (List Node),
      (o.getD []).map Node.bare = (o.map (List.map Node.bare)).getD [] := by
    intro o
    cases o <;> rfl
  change Shape.largeOperator _ _ _ ((bounds.subscript.getD []).map Node.bare)
    ((bounds.superscript.getD []).map Node.bare) (operand.map Node.bare) = _
  rw [hgetD, hgetD, hbounds.1, hbounds.2, hoperand, ← hgetD, ← hgetD]
  rfl

theorem steady_bound (h : nested.Steady) (present : Bool) (s : Text) :
  Alike (Prod.map (Option.map (List.map Node.bare)) id) (integral.bound present nested s)
    (integral.bound present nested s)
  := by
  unfold integral.bound
  split
  · apply Alike.bind_rest (h.argument s)
    intro content content' rest hcontent
    apply Alike.pure
    simp only [Prod.map, Option.map_some, hcontent]
  · apply Alike.pure rfl

theorem steady_integral : Reader.Steady integral t
  := by
  intro nested h s b hb
  obtain ⟨⟨-, command, rest⟩, -, rfl⟩ := Option.map_eq_some_iff.1 hb
  apply Alike.bind alike_fresh
  intro i i' _
  apply Alike.bind_rest (h.argument _)
  intro integrand integrand' rest hintegrand
  apply Alike.bind_rest (h.argument _)
  intro differentials differentials' rest hdifferentials
  apply Alike.bind_rest (steady_bound h _ _)
  intro lower lower' rest hlower
  apply Alike.bind_rest (steady_bound h _ _)
  intro upper upper' rest hupper
  apply alike_node
  change Shape.integral _ _ _ _ (integrand.map Node.bare) (differentials.map Node.bare)
    (lower.map (List.map Node.bare)) (upper.map (List.map Node.bare)) = _
  rw [hintegrand, hdifferentials, hlower, hupper]
  rfl

/-- Reads the argument of a function whose base and constraint are read. -/
def functionArgument (nested : Nested) (i : Nat) (type : Text)
    (name base constraint : List Node) (rest : Text) : Build (Item × Text) := do
  let (argument, rest) ← nested.group? rest
  return (.node i (.function type name argument base constraint), rest)

theorem alike_functionArgument (h : nested.Steady) (i i' : Nat) (type : Text)
    {name name' base base' constraint constraint' : List Node}
    (hname : name.map Node.bare = name'.map Node.bare)
    (hbase : base.map Node.bare = base'.map Node.bare)
    (hconstraint : constraint.map Node.bare = constraint'.map Node.bare) (rest : Text) :
  Alike (Prod.map Item.bare id) (functionArgument nested i type name base constraint rest)
    (functionArgument nested i' type name' base' constraint' rest)
  := by
  apply Alike.bind_rest (h.group? rest)
  intro argument argument' rest hargument
  apply alike_node
  change Shape.function type (name.map Node.bare) (argument.map Node.bare)
    (base.map Node.bare) (constraint.map Node.bare) = _
  rw [hname, hargument, hbase, hconstraint]
  rfl

/-- What follows the name of a function is read without showing the supply. -/
theorem alike_functionArguments (h : nested.Steady) (i i' : Nat) (type : Text)
    {name name' : List Node} (hname : name.map Node.bare = name'.map Node.bare) (rest : Text) :
  Alike (Prod.map Item.bare id) (functionArguments nested i type name rest)
    (functionArguments nested i' type name' rest)
  := by
  rw [functionArguments, functionArguments]
  simp only [pure_bind]
  split
  · apply Alike.bind_rest (h.argument _)
    intro base base' rest hbase
    apply alike_functionArgument h i i' type hname hbase rfl
  · apply Alike.bind_rest (h.argument _)
    intro constraint constraint' rest hconstraint
    apply alike_functionArgument h i i' type hname rfl hconstraint
  · apply alike_functionArgument h i i' type hname rfl rfl

theorem steady_function : Reader.Steady function t
  := by
  intro nested h s b hb
  unfold function at hb
  split at hb
  · rename_i star rest _
    obtain rfl := Option.some.inj hb
    rw [namedFunction]
    rcases argument rest with ⟨name, rest⟩
    dsimp only
    rcases namedFunctionType star ("\\operatorname".toList ++ (if star then ['*'] else [])) name
      rest with ⟨type, keepName⟩
    apply Alike.bind alike_fresh
    intro i i' _
    dsimp only
    split
    · apply Alike.bind (h.sequence _)
      intro name name' hname
      apply alike_functionArguments h i i' type hname
    · rw [pure_bind, pure_bind]
      apply alike_functionArguments h i i' type rfl
  · obtain ⟨⟨command, type, rest⟩, -, rfl⟩ := Option.map_eq_some_iff.1 hb
    apply Alike.bind alike_fresh
    intro i i' _
    apply alike_functionArguments h i i' _ rfl

/-! ### Formatting, accents and symbols -/

theorem steady_escape : Reader.Steady escape t
  := by
  intro nested h s b hb
  obtain ⟨⟨command, c, rest⟩, -, rfl⟩ := Option.map_eq_some_iff.1 hb
  apply steadyItem_text

theorem steady_emphasis : Reader.Steady emphasis t
  := by
  intro nested h s b hb
  obtain ⟨⟨command, change, rest⟩, -, rfl⟩ := Option.map_eq_some_iff.1 hb
  apply Alike.bind_rest (h.argument rest)
  intro ns ns' rest hns
  apply alike_nodes
  apply map_bare_congr (Node.bare_emphasize change) hns

theorem steady_wrapper : Reader.Steady wrapper t
  := by
  intro nested h s b hb
  obtain ⟨⟨command, kind, rest⟩, -, rfl⟩ := Option.map_eq_some_iff.1 hb
  dsimp only
  rcases colorOf kind rest with ⟨color, rest⟩
  rcases argument rest with ⟨content, rest⟩
  dsimp only
  have hwrapped : ∀ ns ns' : List Node, ns.map Node.bare = ns'.map Node.bare →
      Alike (Prod.map Item.bare id)
        (if color = some [] then do
          Build.remark (.colorMissing command)
          return (Item.nodes ns, rest)
        else
          let param := (color.map WrapperParam.text).getD .none
          return (Item.nodes (ns.map fun n => n.withWrapping (n.wrapping.wrap kind param)), rest))
        (if color = some [] then do
          Build.remark (.colorMissing command)
          return (Item.nodes ns', rest)
        else
          let param := (color.map WrapperParam.text).getD .none
          return (Item.nodes (ns'.map fun n => n.withWrapping (n.wrapping.wrap kind param)),
            rest)) := by
    intro ns ns' hns
    split
    · apply Alike.bind (alike_remark _ _)
      intro _ _ _
      apply alike_nodes hns
    · apply alike_nodes
      apply map_bare_congr (Node.bare_rewrap fun w => w.wrap kind _) hns
  split
  · apply Alike.bind (h.spaced content)
    apply hwrapped
  · apply Alike.bind (h.sequence content)
    apply hwrapped

theorem steady_accent : Reader.Steady accent t
  := by
  intro nested h s b hb
  obtain ⟨⟨command, plain, rest⟩, -, rfl⟩ := Option.map_eq_some_iff.1 hb
  dsimp only
  rcases argument rest with ⟨base, rest⟩
  dsimp only
  apply Alike.bind alike_fresh
  intro i i' _
  apply Alike.bind (h.sequence _)
  intro base base' hbase
  split
  · rename_i side after _ _
    apply Alike.bind_rest (h.argument after)
    intro label label' rest hlabel
    apply alike_node
    exact congrArg₂ (fun a l => Shape.accent _ _ a (some l)) hbase hlabel
  · apply alike_node
    exact congrArg (fun a => Shape.accent _ _ a none) hbase

theorem steady_symbol : Reader.Steady symbol t
  := by
  intro nested h s b hb
  simp only [symbol, Option.bind_eq_bind, Option.mem_def, Option.bind_eq_some_iff] at hb
  obtain ⟨⟨command, rest⟩, -, glyph, -, hb⟩ := hb
  obtain rfl := Option.some.inj hb
  apply steadyItem_text

/-! ### Scripts, brackets, spacing and groups -/

theorem steady_script : Reader.Steady script t
  := by
  intro nested h s b hb
  unfold script at hb
  split at hb
  · contradiction
  · obtain ⟨side, -, rfl⟩ := Option.map_eq_some_iff.1 hb
    apply Alike.bind_rest (h.argument _)
    intro content content' rest hcontent
    apply Alike.pure
    simp only [Prod.map, Item.bare, hcontent]

/-- The bounds of a bracket are read without showing the supply. -/
theorem steady_bracketWith (h : nested.Steady) (left right content rest : Text) :
  SteadyItem (do
    let i ← Build.fresh
    let content ← nested.sequence content
    let (bounds, rest) ← Bounds.read nested rest
    return (.node i (.bracket left right content 0 none bounds.superscript bounds.subscript),
      rest))
  := by
  apply Alike.bind alike_fresh
  intro i i' _
  apply Alike.bind (h.sequence content)
  intro content content' hcontent
  apply Alike.bind_rest (Bounds.steady_read h rest)
  intro bounds bounds' rest hbounds
  simp only [Bounds.bare, Bounds.mk.injEq] at hbounds
  apply alike_node
  change Shape.bracket left right (content.map Node.bare) 0 none
    (bounds.superscript.map (List.map Node.bare)) (bounds.subscript.map (List.map Node.bare)) = _
  rw [hcontent, hbounds.1, hbounds.2]
  rfl

theorem steady_bracket : Reader.Steady bracket t
  := by
  intro nested h s b hb
  obtain ⟨⟨size, rest⟩, -, rfl⟩ := Option.map_eq_some_iff.1 hb
  dsimp only
  rcases delimiter rest with ⟨left, rest⟩
  dsimp only
  split
  · rw [pure_bind]
    apply steady_bracketWith h
  · apply Alike.bind (alike_remark _ _)
    intro _ _ _
    rw [pure_bind]
    apply steady_bracketWith h

theorem steady_spacing : Reader.Steady spacing t
  := by
  intro nested h s b hb
  unfold spacing at hb
  split at hb
  · obtain rfl := Option.some.inj hb
    apply steadyItem_text
  · obtain ⟨⟨-, rest⟩, -, rfl⟩ := Option.map_eq_some_iff.1 hb
    apply alike_nodes rfl

theorem steady_group : Reader.Steady group t
  := by
  intro nested h s b hb
  unfold group at hb
  split at hb
  · rename_i cs
    obtain rfl := Option.some.inj hb
    rcases Markup.group cs with ⟨content, rest⟩
    dsimp only
    split
    · apply alike_nodes rfl
    · apply Alike.bind (h.sequence content)
      intro ns ns' hns
      split
      · apply Alike.bind alike_fresh
        intro i i' _
        apply Alike.bind_rest (Bounds.steady_read h rest)
        intro bounds bounds' rest hbounds
        simp only [Bounds.bare, Bounds.mk.injEq] at hbounds
        apply alike_node
        change Shape.script (ns.map Node.bare) (bounds.superscript.map (List.map Node.bare))
          (bounds.subscript.map (List.map Node.bare)) = _
        rw [hns, hbounds.1, hbounds.2]
        rfl
      · split
        · apply Alike.bind alike_fresh
          intro i i' _
          apply Alike.bind (h.sequence _)
          intro below below' hbelow
          apply alike_node
          exact congrArg₂ (Shape.bevelledFraction none) hns hbelow
        · apply alike_nodes hns
  · contradiction

theorem steady_literal (c : Char) (cs : Text) :
  SteadyItem (literal c cs)
  := by
  unfold literal
  split
  · split
    · apply Alike.bind (alike_remark _ _)
      intro _ _ _
      apply steadyItem_text
    · apply steadyItem_text
  · apply steadyItem_text

theorem steady_readers : ∀ reader ∈ readers, Reader.Steady reader t
  := by
  simp only [readers, List.forall_mem_cons, List.not_mem_nil, IsEmpty.forall_iff, implies_true,
    and_true]
  exact ⟨steady_style, steady_derivative, steady_fraction, steady_root, steady_environment,
    steady_largeOperator, steady_integral, steady_function, steady_escape, steady_emphasis,
    steady_wrapper, steady_accent, steady_symbol, steady_script, steady_bracket, steady_spacing,
    steady_group⟩

theorem steady_step (h : nested.Steady) (c : Char) (cs : Text) :
  SteadyItem (step t nested c cs)
  := by
  rw [step]
  cases hfound : readers.findSome? fun reader => reader t nested (c :: cs) with
  | none => apply steady_literal
  | some b =>
    obtain ⟨reader, hreader, hb⟩ := List.exists_of_findSome?_eq_some hfound
    apply steady_readers reader hreader nested h (c :: cs) b hb

end Reading

/-! ### Adding items -/

namespace Item

theorem alike_newScript {base base' content content' : List Node} (side : ScriptSide)
    (hbase : base.map Node.bare = base'.map Node.bare)
    (hcontent : content.map Node.bare = content'.map Node.bare) :
  Alike Node.bare (newScript base side content) (newScript base' side content')
  := by
  cases side <;>
  · apply Alike.bind alike_fresh
    intro i i' _
    apply Alike.pure
    rw [Node.bare_mk, Node.bare_mk]
    simp only [Shape.map, Shape.mapSlots, Shape.mapSlotsOr, Option.map_none, Option.map_some,
      hbase, hcontent]

theorem bare_fillScript? (side : ScriptSide) (content : List Node) (n : Node) :
  (fillScript? side content n).map Node.bare
    = fillScript? side (content.map Node.bare) (Node.bare n)
  := by
  obtain ⟨l, s⟩ := n
  rw [Node.bare_mk]
  cases s with
  | script base p q =>
    cases side <;> cases p <;> cases q <;>
      simp [fillScript?, Tree.shape, Tree.withShape, Shape.map, Shape.mapSlots, Shape.mapSlotsOr,
        Node.bare_mk, Tree.label]
  | _ => cases side <;> rfl

/-- Items that look the same are added to siblings that look the same with the same look. -/
theorem alike_addTo {i i' : Item} (hi : i.bare = i'.bare)
    (h : ns.map Node.bare = ns'.map Node.bare) :
  Alike (List.map Node.bare) (i.addTo ns) (i'.addTo ns')
  := by
  cases i <;> cases i' <;> simp only [bare, Item.nodes.injEq, Item.script.injEq, reduceCtorEq] at hi
  case nodes.nodes =>
    apply Alike.pure
    rw [List.map_append, List.map_append, List.map_reverse, List.map_reverse, hi, h]
  case script.script side content side' content' =>
    obtain ⟨rfl, hcontent⟩ := hi
    cases ns <;> cases ns' <;>
      simp only [List.map_nil, List.map_cons, reduceCtorEq, List.cons.injEq] at h
    case nil.nil =>
      apply Alike.bind (alike_newScript side rfl hcontent)
      intro n n' hn
      apply Alike.pure
      rw [List.map_singleton, List.map_singleton, hn]
    case cons.cons last before last' before' =>
      obtain ⟨hlast, hbefore⟩ := h
      have hfill := bare_fillScript? side content last
      rw [hlast, hcontent, ← bare_fillScript?] at hfill
      simp only [addTo]
      cases hfilled : fillScript? side content last <;>
        cases hfilled' : fillScript? side content' last' <;>
        simp only [hfilled, hfilled', Option.map_none, Option.map_some, reduceCtorEq,
          Option.some.injEq] at hfill
      · apply Alike.bind (alike_newScript side _ hcontent)
        · intro n n' hn
          apply Alike.pure
          rw [List.map_cons, List.map_cons, hn, hbefore]
        · rw [List.map_singleton, List.map_singleton, hlast]
      · apply Alike.pure
        rw [List.map_cons, List.map_cons, hfill, hbefore]

end Item

namespace Reading

/-! ### Whole texts -/

/-- The readers of shorter texts do not show the supply where reading the items of a shorter
text does not. -/
theorem steady_nestedBelow {n : Nat} (hitem : ∀ u : Text, u.length < n → SteadyItem (item t u))
    (hitems : ∀ u : Text, u.length < n → ∀ keep, Build.Steady (items t keep [] u)) :
  (nestedBelow t n).Steady
  where
  sequence u := by
    by_cases hu : u.length < n
    · rw [sequence_nestedBelow hu]
      apply hitems u hu
    · have hnone : (nestedBelow t n).sequence u = pure [] := dif_neg hu
      rw [hnone]
      apply Alike.pure rfl
  spaced u := by
    by_cases hu : u.length < n
    · rw [spaced_nestedBelow hu]
      apply hitems u hu
    · have hnone : (nestedBelow t n).spaced u = pure [] := dif_neg hu
      rw [hnone]
      apply Alike.pure rfl
  item u := by
    by_cases hu : u.length < n
    · rw [item_nestedBelow hu]
      apply Alike.bind_rest (hitem u hu)
      intro i i' rest hi
      apply Alike.bind (Item.alike_addTo hi rfl)
      intro ns ns' hns
      apply Alike.pure
      simp only [Prod.map, List.map_reverse, hns]
    · have hnone : (nestedBelow t n).item u = pure ([], u) := dif_neg hu
      rw [hnone]
      apply Alike.pure rfl

/-- Reading a text does not show the supply, whatever stands before it. -/
theorem alike_items (s : Text) :
  SteadyItem (item t s)
    ∧ ∀ keep before before', before.map Node.bare = before'.map Node.bare →
      Alike (List.map Node.bare) (items t keep before s) (items t keep before' s)
  := by
  induction hn : s.length using Nat.strong_induction_on generalizing s with
  | h n ih =>
    subst hn
    cases s with
    | nil =>
      constructor
      · rw [item]
        apply alike_nodes rfl
      · intro keep before before' hbefore
        rw [items_nil, items_nil]
        apply Alike.pure
        rw [List.map_reverse, List.map_reverse, hbefore]
    | cons c cs =>
      have hitem : SteadyItem (item t (c :: cs)) := by
        rw [item_cons]
        apply steady_step
        apply steady_nestedBelow
        · intro u hu
          apply (ih _ hu u rfl).1
        · intro u hu keep
          apply (ih _ hu u rfl).2 keep [] [] rfl
      refine ⟨hitem, ?_⟩
      intro keep before before' hbefore
      have hcs := fun keep => (ih cs.length (by simp) cs rfl).2 keep
      cases hc : Text.isBlank c with
      | true =>
        cases keep with
        | false =>
          rw [items_blank hc, items_blank hc]
          apply hcs false before before' hbefore
        | true =>
          rw [items_space hc, items_space hc]
          apply Alike.bind (alike_text _)
          intro n n' hn
          apply hcs true
          rw [List.map_cons, List.map_cons, hn, hbefore]
      | false =>
        rw [items_cons hc, items_cons hc]
        apply Alike.bind_rest hitem
        intro i i' rest hi
        apply Alike.bind (Item.alike_addTo hi hbefore)
        intro siblings siblings' hsiblings
        split
        · rename_i hshort
          apply (ih _ hshort rest rfl).2 keep siblings siblings' hsiblings
        · apply Alike.pure
          rw [List.map_reverse, List.map_reverse, hsiblings]

/-- The readers of the insides of an item do not show the supply. -/
theorem steady_nested (t : SymbolTable) (n : Nat) :
  (nestedBelow t n).Steady
  := steady_nestedBelow (fun u _ => (alike_items u).1)
    fun u _ keep => (alike_items u).2 keep [] [] rfl

/-- What is read from a text is the same up to identifiers, from whatever supply they are
taken. -/
theorem steady_sequence (t : SymbolTable) (s : Text) :
  Build.Steady (sequence t s)
  := (alike_items s).2 false [] [] rfl

end Reading

end Formula
