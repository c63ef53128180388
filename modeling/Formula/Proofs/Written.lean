import Formula.Proofs.Bracket
import Formula.Proofs.Construct
import Formula.Proofs.Environment
import Formula.Proofs.Operator
import Formula.Proofs.Slots

/-!
# Written constructs

Every legible construct is written, and is read as it is written, if its slots are.  By
induction on the tree, every legible equation is read as it is written.
-/

namespace Formula

open Build Markup Writing

variable {settings : Settings} {a b c d : List Node} {p q : Option (List Node)}

/-! ### What constructs are written as -/

section Constructs

variable {tm : Bool} {left right above below content : Text} {lower upper : Option Text}

theorem writeShape_fraction (mode : Option DisplayMode)
    (ha : writeGroup settings tm (a.map (piece settings)) = .ok above)
    (hb : writeGroup settings tm (b.map (piece settings)) = .ok below) :
  writeShape settings tm ((Shape.fraction mode a b).map (piece settings))
    = .ok (match mode with
      | some .display => "\\dfrac".toList ++ above ++ below
      | mode => styled mode ("\\frac".toList ++ above ++ below))
  := by
  simp only [Shape.map, Shape.mapSlots, Shape.mapSlotsOr, writeShape, ha, hb]
  rcases mode with _ | _ | _ <;> rfl

theorem writeShape_bevelledFraction (mode : Option DisplayMode)
    (ha : writeGroup settings tm (a.map (piece settings)) = .ok above)
    (hb : writeGroup settings tm (b.map (piece settings)) = .ok below) :
  writeShape settings tm ((Shape.bevelledFraction mode a b).map (piece settings))
    = .ok (styled mode (above ++ ['/'] ++ below))
  := by
  simp only [Shape.map, Shape.mapSlots, Shape.mapSlotsOr, writeShape, ha, hb]
  rfl

theorem writeShape_sqrt (ha : writeGroup settings tm (a.map (piece settings)) = .ok content) :
  writeShape settings tm ((Shape.sqrt a).map (piece settings)) = .ok ("\\sqrt".toList ++ content)
  := by
  simp only [Shape.map, Shape.mapSlots, Shape.mapSlotsOr, writeShape, ha]
  rfl

theorem writeShape_nthRoot (ha : writeContent settings tm (a.map (piece settings)) = .ok above)
    (hb : writeGroup settings tm (b.map (piece settings)) = .ok content) :
  writeShape settings tm ((Shape.nthRoot a b).map (piece settings))
    = .ok ("\\sqrt".toList ++ (['['] ++ Writing.optional above ++ [']'] ++ content))
  := by
  have hname : "\\sqrt[".toList = "\\sqrt".toList ++ ['['] := rfl
  simp only [Shape.map, Shape.mapSlots, Shape.mapSlotsOr, writeShape, ha, hb, hname,
    List.append_assoc]
  rfl

theorem writeShape_script (ha : writeGroup settings tm (a.map (piece settings)) = .ok content)
    (hp : writeScript settings tm .superscript (p.map (List.map (piece settings))) = .ok above)
    (hq : writeScript settings tm .subscript (q.map (List.map (piece settings))) = .ok below) :
  writeShape settings tm ((Shape.script a p q).map (piece settings))
    = .ok (content ++ (above ++ below))
  := by
  simp only [Shape.map, Shape.mapSlots, Shape.mapSlotsOr, writeShape, ha, hp, hq]
  exact congrArg Except.ok (List.append_assoc _ _ _)

theorem writeShape_bracket (depth : Int) (scale : Option Scale)
    (ha : writeContent settings tm (a.map (piece settings)) = .ok content)
    (hp : writeScript settings tm .superscript (p.map (List.map (piece settings)))
      = .ok (scriptText .superscript upper))
    (hq : writeScript settings tm .subscript (q.map (List.map (piece settings)))
      = .ok (scriptText .subscript lower)) :
  writeShape settings tm ((Shape.bracket left right a depth scale p q).map (piece settings))
    = .ok (bracketText (bracketSizes settings depth) left right content lower upper)
  := by
  simp only [Shape.map, Shape.mapSlots, Shape.mapSlotsOr, writeShape, ha, hp, hq, bracketText,
    padded, List.append_assoc]
  rfl

theorem writeShape_largeOperator {operator command : Text} (limitMode : LimitMode)
    (mode : DisplayMode) (hcommand : LargeOperator.commandFor? operator = some command)
    (ha : writeGroup settings tm (a.map (piece settings)) = .ok below)
    (hb : writeGroup settings tm (b.map (piece settings)) = .ok above)
    (hc : writeGroup settings tm (c.map (piece settings)) = .ok content) :
  writeShape settings tm ((Shape.largeOperator operator limitMode mode a b c).map (piece settings))
    = .ok (styled (some mode)
        (command ++ limitMode.modifier ++ ['_'] ++ below ++ ['^'] ++ above ++ [' '] ++ content))
  := by
  simp only [Shape.map, Shape.mapSlots, Shape.mapSlotsOr, writeShape, hcommand, ha, hb, hc]
  rfl

theorem writeShape_accent {type : AccentType} (position : AccentPosition)
    (htype : type.labeled = false)
    (ha : writeGroup settings tm (a.map (piece settings)) = .ok content) :
  writeShape settings tm ((Shape.accent type position a p).map (piece settings))
    = .ok (type.command ++ content)
  := by
  simp only [Shape.map, Shape.mapSlots, Shape.mapSlotsOr, writeShape, ha, htype]
  exact congrArg Except.ok (List.append_nil _)

theorem writeShape_labeled_accent {type : AccentType} (position : AccentPosition)
    (htype : type.labeled = true)
    (ha : writeGroup settings tm (a.map (piece settings)) = .ok content)
    (hb : writeGroup settings tm (b.map (piece settings)) = .ok above) :
  writeShape settings tm ((Shape.accent type position a (some b)).map (piece settings))
    = .ok (type.command ++ (content ++ type.labelSide.marker :: above))
  := by
  simp only [Shape.map, Shape.mapSlots, Shape.mapSlotsOr, writeShape, ha, htype, Option.map_some,
    Option.getD_some, hb]
  exact congrArg Except.ok (List.append_assoc _ _ _)

end Constructs

/-! ### Fractions, roots, scripts and accents -/

namespace ShapeWritten

theorem fraction (mode : Option DisplayMode) (ha : Written settings a)
    (hb : Written settings b) :
  ShapeWritten settings (.fraction mode a b)
  := by
  intro tm cell _
  obtain ⟨above, habove, -, has⟩ := ha.group tm
  obtain ⟨below, hbelow, -, hbs⟩ := hb.group tm
  have hfrac : ∀ cell, Spells .builtin cell ("\\frac".toList ++ braced above ++ braced below)
      [.plain 0 (.fraction none (a.flatMap Node.reread) (b.flatMap Node.reread))] := by
    intro cell
    rw [List.append_assoc]
    apply spells_fraction (by decide) has hbs
  cases mode with
  | none => exact ⟨_, writeShape_fraction _ habove hbelow, hfrac cell⟩
  | some mode =>
    cases mode with
    | inline =>
      exact ⟨_, writeShape_fraction _ habove hbelow, spells_styled (hfrac false).spelled rfl⟩
    | display =>
      refine ⟨_, writeShape_fraction _ habove hbelow, ?_⟩
      rw [List.append_assoc]
      apply spells_fraction (by decide) has hbs

theorem bevelledFraction (mode : Option DisplayMode) (ha : Written settings a)
    (hb : Written settings b) :
  ShapeWritten settings (.bevelledFraction mode a b)
  := by
  intro tm cell _
  obtain ⟨above, habove, hne, has⟩ := ha.group tm
  obtain ⟨below, hbelow, -, hbs⟩ := hb.group tm
  refine ⟨_, writeShape_bevelledFraction mode habove hbelow, ?_⟩
  rw [List.append_assoc]
  cases mode with
  | none => apply spells_bevelledFraction has hne hbs
  | some mode =>
    have hfrac : Spells .builtin false _ _ := spells_bevelledFraction has hne hbs
    apply spells_styled hfrac.spelled rfl

theorem sqrt (ha : Written settings a) :
  ShapeWritten settings (.sqrt a)
  := by
  intro tm cell _
  obtain ⟨radicand, hradicand, -, has⟩ := ha.group tm
  exact ⟨_, writeShape_sqrt hradicand, spells_sqrt has⟩

theorem nthRoot (ha : Written settings a) (hb : Written settings b) :
  ShapeWritten settings (.nthRoot a b)
  := by
  intro tm cell hcell
  obtain ⟨index, hindex, has⟩ := ha.content tm fun h n hn => by
    have := List.any_eq_false.1 (hcell h) _ (List.mem_map_of_mem hn)
    simpa using this
  obtain ⟨radicand, hradicand, -, hbs⟩ := hb.group tm
  exact ⟨_, writeShape_nthRoot hindex hradicand, spells_nthRoot has hbs⟩

theorem script (hp : ∀ a ∈ p, Written settings a) (hq : ∀ a ∈ q, Written settings a)
    (hsome : p.isSome ∨ q.isSome) (ha : Written settings a) :
  ShapeWritten settings (.script a p q)
  := by
  intro tm cell _
  obtain ⟨base, hbase, hne, has⟩ := ha.group tm
  obtain ⟨above, habove, hps⟩ := exists_script hp tm .superscript
  obtain ⟨below, hbelow, hqs⟩ := exists_script hq tm .subscript
  refine ⟨_, writeShape_script hbase habove hbelow, ?_⟩
  apply spells_script has hne hps hqs
  simpa using hsome

theorem accent {type : AccentType} {position : AccentPosition} (hposition : position = type.position)
    (hlabel : p.isSome = type.labeled) (ha : Written settings a)
    (hp : ∀ a ∈ p, Written settings a) :
  ShapeWritten settings (.accent type position a p)
  := by
  subst hposition
  intro tm cell _
  obtain ⟨base, hbase, -, has⟩ := ha.group tm
  cases p with
  | none =>
    have htype : type.labeled = false := hlabel.symm
    exact ⟨_, writeShape_accent _ htype hbase, spells_accent htype has⟩
  | some label =>
    have htype : type.labeled = true := hlabel.symm
    obtain ⟨text, htext, -, hps⟩ := (hp label rfl).group tm
    refine ⟨_, writeShape_labeled_accent _ htype hbase htext, ?_⟩
    apply spells_labeled_accent htype has hps

end ShapeWritten

/-! ### Brackets and operators -/

/-- The form of an integral says which bounds it has, and where they stand. -/
theorem ofBounds_eq {lower upper : Bool} {mode : LimitMode} (hbounds : upper = true → lower = true)
    (hnone : lower = false → mode = .default) (hlower : upper = false → mode ≠ .nolimits) :
  (IntegralForm.ofBounds lower upper mode).hasLower = lower
    ∧ (IntegralForm.ofBounds lower upper mode).hasUpper = upper
    ∧ (IntegralForm.ofBounds lower upper mode).bounds.fold
        (IntegralForm.ofBounds lower upper mode).limitMode = mode
  := by
  cases lower <;> cases upper <;> cases mode <;> simp_all <;> decide

/-- An integral is written as its command and a group for each slot that it has. -/
theorem writeIntegral_eq {tm : Bool} {type : IntegralType} {style : DifferentialStyle}
    {limitMode : LimitMode} {mode : DisplayMode} {groups : List Text}
    (hbounds : q.isSome → p.isSome) (hnone : p = none → limitMode = .default)
    (hlower : q = none → limitMode ≠ .nolimits)
    (h : (([a, b] ++ p.toList ++ q.toList).map (List.map (piece settings))).mapM
      (writeGroup settings tm) = .ok groups) :
  writeShape settings tm
      ((Shape.integral type style limitMode mode a b p q).map (piece settings))
    = .ok (styled (some mode) (IntegralCommand.spelling
        ⟨type, style, .ofBounds p.isSome q.isSome limitMode⟩ ++ groups.flatten))
  := by
  obtain ⟨hhasLower, hhasUpper, -⟩ := ofBounds_eq
    hbounds (by simpa using hnone) (by simpa using hlower)
  have hslots : [a.map (piece settings), b.map (piece settings)]
      ++ (if p.isSome then [(p.map (List.map (piece settings))).getD []] else [])
      ++ (if q.isSome then [(q.map (List.map (piece settings))).getD []] else [])
      = ([a, b] ++ p.toList ++ q.toList).map (List.map (piece settings)) := by
    cases p <;> cases q <;> rfl
  simp only [Shape.map, Shape.mapSlots, Shape.mapSlotsOr, writeShape, writeIntegral,
    Option.isSome_map, hhasLower, hhasUpper]
  rw [hslots, h]
  rfl

/-- What holds of the slots of an integral holds of each of them. -/
theorem forall_integralSlots {P : List Node → Prop} (ha : P a) (hb : P b) (hp : ∀ a ∈ p, P a)
    (hq : ∀ a ∈ q, P a) :
  ∀ s ∈ [a, b] ++ p.toList ++ q.toList, P s
  := by
  intro s hs
  simp only [List.mem_append, List.mem_cons, List.not_mem_nil, or_false, Option.mem_toList] at hs
  rcases hs with (((rfl | rfl) | hs) | hs)
  · apply ha
  · apply hb
  · apply hp s hs
  · apply hq s hs

/-- A bound is written as a group, if there is one. -/
theorem exists_boundText (hp : ∀ a ∈ p, Written settings a) (tm : Bool) :
  ∃ text : Option Text,
    (p.toList.map (List.map (piece settings))).mapM (writeGroup settings tm)
      = .ok (text.toList.map braced)
    ∧ p.isSome = text.isSome ∧ SlotSpelled text (p.map (List.flatMap Node.reread))
  := by
  cases p with
  | none => exact ⟨none, rfl, rfl, Option.Rel.none⟩
  | some a =>
    obtain ⟨text, htext, -, hps⟩ := (hp a rfl).group tm
    refine ⟨some text, ?_, rfl, Option.Rel.some hps⟩
    rw [Option.toList_some, List.map_singleton, List.mapM_cons, htext]
    rfl

namespace ShapeWritten

theorem bracket {left right : Text} {depth : Int} {scale : Option Scale}
    (hleft : Delimiter.Legible left) (hright : Delimiter.Legible right) (ha : Written settings a)
    (hp : ∀ a ∈ p, Written settings a) (hq : ∀ a ∈ q, Written settings a) :
  ShapeWritten settings (.bracket left right a depth scale p q)
  := by
  intro tm cell hcell
  have hexposed : cell = true → (left ≠ ['&'] ∧ right ≠ ['&'])
      ∧ ∀ n ∈ a, Node.exposes settings.structural n = false := by
    intro h
    have hnot := hcell h
    simp only [Shape.isExposed, Shape.map, Shape.mapSlots, Shape.mapSlotsOr, Shape.exposes,
      Bool.or_eq_false_iff, decide_eq_false_iff_not, List.any_map] at hnot
    refine ⟨hnot.1, ?_⟩
    intro n hn
    simpa using List.any_eq_false.1 hnot.2 n hn
  obtain ⟨content, hcontent, has⟩ := ha.content tm fun h => (hexposed h).2
  obtain ⟨below, hbelow, hqs⟩ := exists_script hq tm .subscript
  obtain ⟨above, habove, hps⟩ := exists_script hp tm .superscript
  refine ⟨_, writeShape_bracket depth scale hcontent habove hbelow, ?_⟩
  apply spells_bracket (isSize_bracketSizes settings depth) hleft hright
    (fun h => (hexposed h).1) has hps hqs

theorem largeOperator {operator : Text} {limitMode : LimitMode} {mode : DisplayMode}
    (hoperator : (LargeOperator.commandFor? operator).isSome) (ha : Written settings a)
    (hb : Written settings b) (hc : Written settings c) :
  ShapeWritten settings (.largeOperator operator limitMode mode a b c)
  := by
  intro tm cell _
  obtain ⟨command, hcommand⟩ := Option.isSome_iff_exists.1 hoperator
  obtain ⟨lower, hlower, -, has⟩ := ha.group tm
  obtain ⟨upper, hupper, -, hbs⟩ := hb.group tm
  obtain ⟨operand, hoperand, -, hcs⟩ := hc.group tm
  refine ⟨_, writeShape_largeOperator limitMode mode hcommand hlower hupper hoperand, ?_⟩
  have hspells : Spells .builtin false _ _ :=
    @spells_largeOperator _ _ _ _ _ _ _ _ _ limitMode hcommand has hbs hcs
  have hstyled : Spells .builtin cell (styled (some mode) _) _ := spells_styled hspells.spelled rfl
  simp only [styled, scriptText, Option.elim, ScriptSide.marker, List.append_assoc,
    List.cons_append, List.nil_append] at hstyled ⊢
  apply hstyled

theorem integral {type : IntegralType} {style : DifferentialStyle} {limitMode : LimitMode}
    {mode : DisplayMode} (hbounds : q.isSome → p.isSome) (hnone : p = none → limitMode = .default)
    (hlower : q = none → limitMode ≠ .nolimits) (ha : Written settings a)
    (hb : Written settings b) (hp : ∀ a ∈ p, Written settings a)
    (hq : ∀ a ∈ q, Written settings a) :
  ShapeWritten settings (.integral type style limitMode mode a b p q)
  := by
  intro tm cell _
  obtain ⟨integrand, hintegrand, -, has⟩ := ha.group tm
  obtain ⟨differentials, hdifferentials, -, hbs⟩ := hb.group tm
  obtain ⟨lower, hlowerText, hlowerSome, hps⟩ := exists_boundText hp tm
  obtain ⟨upper, hupperText, hupperSome, hqs⟩ := exists_boundText hq tm
  obtain ⟨hhasLower, hhasUpper, hfold⟩ := ofBounds_eq
    hbounds (by simpa using hnone) (by simpa using hlower)
  have hgroups : (([a, b] ++ p.toList ++ q.toList).map (List.map (piece settings))).mapM
        (writeGroup settings tm)
      = .ok ([braced integrand, braced differentials] ++ lower.toList.map braced
        ++ upper.toList.map braced) := by
    rw [List.map_append, List.map_append, List.mapM_append, List.mapM_append, hlowerText,
      hupperText, List.map_cons, List.map_cons, List.map_nil, List.mapM_cons, List.mapM_cons,
      hintegrand, hdifferentials]
    rfl
  have hflatten : ([braced integrand, braced differentials] ++ lower.toList.map braced
        ++ upper.toList.map braced).flatten
      = braced integrand ++ (braced differentials ++ (groupText lower ++ groupText upper)) := by
    cases lower <;> cases upper <;> simp [groupText]
  refine ⟨_, writeIntegral_eq hbounds hnone hlower hgroups, ?_⟩
  have hspells : Spells .builtin false _ _ :=
    @spells_integral _ _ _ _ _ ⟨type, style, .ofBounds p.isSome q.isSome limitMode⟩ _ _ _ _
      has hbs hps hqs (hhasLower.trans hlowerSome) (hhasUpper.trans hupperSome)
  rw [hfold] at hspells
  rw [hflatten]
  apply spells_styled hspells.spelled rfl

end ShapeWritten

/-! ### Derivatives -/

section Derivatives

variable {tm cell longForm isPartial : Bool} {o : Order Node} {mode : DisplayMode}
  {order : Option Text}

/-- A derivative with arguments is written with its order in front of them. -/
theorem writeStructural_eq {function differentials : Text}
    (hfirst : isFirstOrder (Shape.mapSlotsOr.order (List.map (piece settings)) o) = order.isNone)
    (hwrite : ∀ m ∈ order,
      writeOrder settings tm (Shape.mapSlotsOr.order (List.map (piece settings)) o) = .ok m)
    (hfunction : writeGroup settings tm (a.map (piece settings)) = .ok (braced function))
    (hdifferentials : writeGroup settings tm (b.map (piece settings)) = .ok (braced differentials)) :
  writeStructural settings tm (Shape.mapSlotsOr.order (List.map (piece settings)) o) longForm
      isPartial mode (a.map (piece settings)) (b.map (piece settings))
    = .ok (styled (if mode = .display then some .display else none)
        ((if isPartial then "\\pdv".toList else "\\dv".toList)
          ++ (orderArgument order ++ derivativeArguments longForm function differentials)))
  := by
  have hmode : ∀ body, (if mode = .display then styled (some mode) body else body)
      = styled (if mode = .display then some .display else none) body := by
    intro body
    cases mode <;> rfl
  cases order with
  | none =>
    simp only [writeStructural, hfirst, Option.isNone_none, if_true, hfunction, hdifferentials,
      hmode]
    simp only [bind, Except.bind, pure, Except.pure, orderArgument, derivativeArguments,
      Option.elim]
    cases longForm <;> simp
  | some m =>
    simp only [writeStructural, hfirst, Option.isNone_some, Bool.false_eq_true, if_false,
      hwrite m rfl, hfunction, hdifferentials, hmode]
    simp only [bind, Except.bind, pure, Except.pure, orderArgument, derivativeArguments,
      Option.elim]
    cases longForm <;> simp

/-- A derivative as a fraction is written as its two differentials. -/
theorem writeAsFraction_eq {function differentials : Text}
    (hfirst : isFirstOrder (Shape.mapSlotsOr.order (List.map (piece settings)) o) = order.isNone)
    (hwrite : ∀ m ∈ order,
      writeOrder settings tm (Shape.mapSlotsOr.order (List.map (piece settings)) o) = .ok m)
    (hfunction : writeContent settings tm (a.map (piece settings)) = .ok function)
    (hdifferentials : writeContent settings tm (b.map (piece settings)) = .ok differentials) :
  writeAsFraction settings tm (Shape.mapSlotsOr.order (List.map (piece settings)) o) longForm
      isPartial mode (a.map (piece settings)) (b.map (piece settings))
    = .ok (fractionName mode longForm ++ fractionArguments longForm isPartial order
        (orSpace function) (orSpace differentials))
  := by
  have hsign : (if isPartial then "\\partial ".toList else ['d']) = differentialSign isPartial :=
    rfl
  have hlong : (if decide (mode = .display) then "\\derivldfrac" else "\\derivlfrac").toList
      = fractionName mode true := by
    cases mode <;> rfl
  have hshort : (if decide (mode = .display) then "\\derivdfrac" else "\\derivfrac").toList
      = fractionName mode false := by
    cases mode <;> rfl
  unfold writeAsFraction
  rw [hfirst, hfunction, hdifferentials, hsign]
  cases order with
  | none =>
    cases longForm with
    | false =>
      change Except.ok _ = Except.ok _
      rw [hshort]
      simp only [fractionArguments, orderScript, scriptText, Option.elim, List.append_assoc,
        List.append_nil, List.nil_append, Bool.false_eq_true, if_false]
    | true =>
      change Except.ok _ = Except.ok _
      rw [hlong]
      simp only [fractionArguments, orderScript, scriptText, Option.elim, List.append_assoc,
        List.append_nil, if_true]
  | some m =>
    rw [hwrite m rfl]
    cases longForm with
    | false =>
      change Except.ok _ = Except.ok _
      rw [hshort]
      simp only [fractionArguments, orderScript, scriptText, Option.elim, List.append_assoc,
        ScriptSide.marker, Bool.false_eq_true, if_false]
    | true =>
      change Except.ok _ = Except.ok _
      rw [hlong]
      simp only [fractionArguments, orderScript, scriptText, Option.elim, List.append_assoc,
        ScriptSide.marker, if_true]

theorem ShapeWritten.derivative (htable : settings.table = .builtin) (hlegible : o.Legible)
    (hslot : ∀ s ∈ o.slot?, Written settings s) (ha : Written settings a)
    (hb : Written settings b) :
  ShapeWritten settings (.derivative o longForm isPartial mode a b)
  := by
  intro tm cell hcell
  simp only [Shape.map, Shape.mapSlots, Shape.mapSlotsOr, writeShape]
  split
  · rename_i hstructural
    have hexposed : (cell && mode ≠ .display) = true →
        ∀ s ∈ o.slot?, ∀ n ∈ s, Node.exposes settings.structural n = false := by
      intro h s hs n hn
      rw [Bool.and_eq_true, decide_eq_true_eq] at h
      cases o with
      | number => contradiction
      | sequence s' =>
        obtain rfl := Option.some.inj hs
        have hnot := hcell h.1
        simp only [Shape.isExposed, Shape.map, Shape.mapSlots, Shape.mapSlotsOr,
          Shape.mapSlotsOr.order, Shape.exposes, hstructural, Bool.true_and, decide_eq_true h.2,
          List.any_map] at hnot
        rw [hstructural]
        simpa using List.any_eq_false.1 hnot n hn
    obtain ⟨order, horder, hfirst, hwrite⟩ := exists_order htable hlegible hslot tm hexposed
    obtain ⟨function, hfunction, -, has⟩ := ha.group tm
    obtain ⟨differentials, hdifferentials, -, hbs⟩ := hb.group tm
    refine ⟨_, writeStructural_eq hfirst hwrite hfunction hdifferentials, ?_⟩
    have hspells := @spells_structuralDerivative _ _ _ _ _ _ _ longForm isPartial horder has hbs
    cases mode with
    | inline => apply hspells.mono (by simp)
    | display => apply spells_styled (hspells.mono (by simp)).spelled rfl
  · obtain ⟨order, horder, hfirst, hwrite⟩ := @exists_order _ false htable _ hlegible
      hslot tm (by simp)
    obtain ⟨function, hfunction, has⟩ := @Written.content _ false _ ha tm (by simp)
    obtain ⟨differentials, hdifferentials, hbs⟩ := @Written.content _ false _ hb tm (by simp)
    exact ⟨_, writeAsFraction_eq hfirst hwrite hfunction hdifferentials,
      spells_fractionDerivative horder has.orSpace hbs.orSpace⟩

end Derivatives

/-! ### Grids -/

theorem Grid.mapSlots_visible {α β : Type} {g : Grid α} (hrows : 0 < g.rows) (hcols : 0 < g.cols)
    (f : List α → List β) :
  Shape.mapSlotsOr.grid f f g.visible
    = Grid.tabulate g.rows.toNat g.cols.toNat fun i j => f (g.cell i j)
  := by
  simp only [Shape.mapSlotsOr.grid, visible, tabulate, coordinates, ite_self, List.map_map,
    List.map_flatMap, Int.toNat_of_nonneg (Int.le_of_lt hrows),
    Int.toNat_of_nonneg (Int.le_of_lt hcols)]
  rfl

/-- A grid is written as its environment around its cells. -/
theorem writeGrid_eq {tm : Bool} {kind : GridKind} {g : Grid Node} {content : Nat → Nat → Text}
    (h : ∀ i < g.rows.toNat, ∀ j < g.cols.toNat,
      writeContent settings tm ((g.cell i j).map (piece settings)) = .ok (content i j)) :
  writeGrid settings tm kind.environment
      (if kind = .stack then braced (List.replicate g.cols.toNat 'c') else [])
      (Shape.mapSlotsOr.grid (List.map (piece settings)) (List.map (piece settings)) g)
    = .ok (gridText kind g.rows.toNat g.cols.toNat content)
  := by
  have hwrite : ∀ pieces, pieces = Shape.mapSlotsOr.grid (List.map (piece settings))
        (List.map (piece settings)) g →
      ((List.range pieces.rows.toNat).mapM fun i => (List.range pieces.cols.toNat).mapM fun j =>
        writeContent settings tm (pieces.cell i j))
      = .ok ((List.range g.rows.toNat).map fun i => (List.range g.cols.toNat).map (content i)) := by
    rintro _ rfl
    apply mapM_eq_ok
    intro i hi
    apply mapM_eq_ok
    intro j hj
    rw [Grid.cell_map]
    apply h i (List.mem_range.1 hi) j (List.mem_range.1 hj)
  have hend : " \\end".toList = [' '] ++ "\\end".toList := rfl
  have hbreak : " \\\\ ".toList = padded rowBreak := rfl
  have hampersand : " & ".toList = padded ['&'] := rfl
  unfold writeGrid
  rw [hend, hbreak, hampersand, hwrite _ rfl]
  change Except.ok _ = Except.ok _
  unfold gridText environmentText
  rw [gridBody, List.map_map]
  simp only [padded, List.append_assoc]
  rfl

/-- The cell at a place inside the rectangle of a grid is a slot. -/
theorem Grid.cell_mem_slots {α : Type} {g : Grid α} {i j : Nat} (hi : i < g.rows.toNat)
    (hj : j < g.cols.toNat) :
  (.cell i j, g.cell i j) ∈ Shape.slots.ofGrid g
  := by
  apply List.mem_map.2 ⟨(i, j), _, rfl⟩
  rw [Grid.mem_coordinates_iff, Grid.inside, decide_eq_true hi, decide_eq_true hj, Bool.and_self]

/-- A grid is read from the environment that it is written as. -/
theorem spells_writeGrid {tm cell : Bool} {kind : GridKind} {g : Grid Node} (hrows : 0 < g.rows)
    (hcols : 0 < g.cols)
    (hslots : ∀ slot ∈ Shape.slots.ofGrid g, Written settings slot.2)
    (hcells : ∀ slot ∈ Shape.slots.ofGrid g, ∀ k ∈ slot.2,
      Node.exposes settings.structural k = false) :
  ∃ core, writeGrid settings tm kind.environment
      (if kind = .stack then braced (List.replicate g.cols.toNat 'c') else [])
      (Shape.mapSlotsOr.grid (List.map (piece settings)) (List.map (piece settings)) g) = .ok core
    ∧ Spells .builtin cell core
      [.plain 0 (kind.shape (Shape.mapSlotsOr.grid (List.flatMap Node.reread)
        (List.flatMap Node.reread) g.visible))]
  := by
  have hcell : ∀ i j, ∃ m, i < g.rows.toNat → j < g.cols.toNat →
      writeContent settings tm ((g.cell i j).map (piece settings)) = .ok m
      ∧ Spelled .builtin false true m ((g.cell i j).flatMap Node.reread) := by
    intro i j
    by_cases hinside : i < g.rows.toNat ∧ j < g.cols.toNat
    · have hslot := Grid.cell_mem_slots hinside.1 hinside.2
      obtain ⟨m, hm, hspelled⟩ := (hslots _ hslot).content tm fun _ => hcells _ hslot
      exact ⟨m, fun _ _ => ⟨hm, hspelled⟩⟩
    · exact ⟨[], fun hi hj => absurd ⟨hi, hj⟩ hinside⟩
  choose content hcontent using hcell
  rw [Grid.mapSlots_visible hrows hcols]
  refine ⟨_, writeGrid_eq fun i hi j hj => (hcontent i j hi hj).1, ?_⟩
  apply spells_grid (by omega) (by omega) fun i hi j hj => (hcontent i j hi hj).2

/-! ### Functions -/

/-- What is computed about the functions that have a command: each is read from its command,
or from an operator name. -/
theorem functions_checked : ∀ info ∈ FunctionInfo.members, ∀ command ∈ info.command,
    (∃ listed ∈ FunctionInfo.table.lookup command, info.type
      = if info.form ≠ .simple ∧ listed = "log".toList then "logn".toList else listed)
    ∨ ∃ name ∈ reservedNames info.form,
      command = "\\operatorname".toList
        ++ ((if info.form = .withConstraint then ['*'] else []) ++ braced name)
      ∧ FunctionInfo.typeOf? command = some info.type
  := by decide

/-- What is computed about operator names: only the reserved ones are those of functions. -/
theorem reservedNames_checked : ∀ entry ∈ FunctionInfo.commands, ∀ form,
    ("\\operatorname".toList ++ (if form = .withConstraint then ['*'] else []) ++ ['{']) <+: entry.1
      → ∃ name ∈ reservedNames form, entry.1 = "\\operatorname".toList
          ++ (if form = .withConstraint then ['*'] else []) ++ ['{'] ++ name ++ ['}']
  := by
  intro entry hentry form
  cases form <;> revert entry <;> decide

/-- The kind of a type is one of the kinds, and that of the type. -/
theorem FunctionInfo.of_find? {type : Text} {info : FunctionInfo}
    (h : FunctionInfo.find? type = some info) :
  info ∈ FunctionInfo.members ∧ info.type = type
  := by
  rw [FunctionInfo.find?] at h
  exact ⟨List.mem_of_find?_eq_some h, by simpa using List.find?_some h⟩

/-- What is computed about the user-defined functions. -/
theorem userDefined_checked : ∀ info ∈ FunctionInfo.members, info.command = none →
    info.type = match info.form with
      | .simple => "function".toList
      | .withBase => "functionsub".toList
      | .withConstraint => "functionlim".toList
  := by decide

theorem isLetters_reservedNames : ∀ form, ∀ w ∈ reservedNames form, Text.isLetters w = true
  := by
  intro form
  cases form <;> decide

theorem isPlainChar_of_isLetters {w : Text} (h : Text.isLetters w = true) :
  ∀ c ∈ w, isPlainChar c = true
  := by
  simp only [Text.isLetters, Bool.and_eq_true, List.all_eq_true] at h
  intro c hc
  rw [isPlainChar, h.2 c hc, Bool.or_true]

/-- A name that is not reserved names no function. -/
theorem typeOf?_eq_none {form : FunctionForm} {w : Text} (h : w ∉ reservedNames form) :
  FunctionInfo.typeOf? ("\\operatorname".toList
    ++ (if form = .withConstraint then ['*'] else []) ++ ['{'] ++ w ++ ['}']) = none
  := by
  cases htype : FunctionInfo.typeOf? ("\\operatorname".toList
    ++ (if form = .withConstraint then ['*'] else []) ++ ['{'] ++ w ++ ['}']) with
  | none => rfl
  | some type =>
    obtain ⟨front, back, hcommands, -⟩ := List.lookup_eq_some_iff.1 htype
    have hmem : ("\\operatorname".toList ++ (if form = .withConstraint then ['*'] else []) ++ ['{']
        ++ w ++ ['}'], type) ∈ FunctionInfo.commands := by
      rw [hcommands]
      apply List.mem_append_right _ List.mem_cons_self
    obtain ⟨name, hname, heq⟩ := reservedNames_checked _ hmem form
      ⟨w ++ ['}'], (List.append_assoc _ _ _).symm⟩
    have hw : w = name := List.append_cancel_left (List.append_cancel_right heq)
    rw [hw] at h
    apply absurd hname h

/-- A function is written with its base or constraint in front of its argument. -/
theorem writeShape_function {type script argument command : Text} {info : FunctionInfo} {tm : Bool}
    (hinfo : FunctionInfo.find? type = some info)
    (hargument : writeGroup settings tm (b.map (piece settings)) = .ok (braced argument))
    (hbase : info.form = .withBase →
      writeGroup settings tm (c.map (piece settings)) = .ok (braced script))
    (hconstraint : info.form = .withConstraint →
      writeGroup settings tm (d.map (piece settings)) = .ok (braced script))
    (hcommand : info.command = some command ∨ info.command = none
      ∧ ∃ name, writeContent settings tm (a.map (piece settings)) = .ok name
        ∧ command = "\\operatorname".toList
          ++ ((if info.form = .withConstraint then ['*'] else []) ++ braced (orSpace name))) :
  writeShape settings tm ((Shape.function type a b c d).map (piece settings))
    = .ok (command ++ functionTail info.form script argument)
  := by
  simp only [Shape.map, Shape.mapSlots, Shape.mapSlotsOr, writeShape]
  unfold writeFunction
  simp only [hinfo, hargument]
  rcases hcommand with hcommand | ⟨hcommand, name, hname, rfl⟩
  · rw [hcommand]
    cases hform : info.form with
    | simple => simp [functionTail, bind, Except.bind, pure, Except.pure]
    | withBase =>
      simp [functionTail, bind, Except.bind, pure, Except.pure, hbase hform, scriptText,
        ScriptSide.marker]
    | withConstraint =>
      simp [functionTail, bind, Except.bind, pure, Except.pure, hconstraint hform,
        scriptText, ScriptSide.marker]
  · rw [hcommand, hname]
    cases hform : info.form with
    | simple => simp [functionTail, bind, Except.bind, pure, Except.pure]
    | withBase =>
      simp [functionTail, bind, Except.bind, pure, Except.pure, hbase hform, scriptText,
        ScriptSide.marker]
    | withConstraint =>
      simp [functionTail, bind, Except.bind, pure, Except.pure, hconstraint hform,
        scriptText, ScriptSide.marker]

/-- The base or the constraint of a function is read as it is written, if the function has one. -/
theorem exists_functionScript {form : FunctionForm} (hbase : form ≠ .withBase → c = [])
    (hconstraint : form ≠ .withConstraint → d = []) (hc : Written settings c)
    (hd : Written settings d) (tm : Bool) :
  ∃ script as, Spelled .builtin false false script as
    ∧ c.flatMap Node.reread = (if form = .withBase then as else [])
    ∧ d.flatMap Node.reread = (if form = .withConstraint then as else [])
    ∧ (form = .withBase → writeGroup settings tm (c.map (piece settings)) = .ok (braced script))
    ∧ (form = .withConstraint →
        writeGroup settings tm (d.map (piece settings)) = .ok (braced script))
  := by
  cases form with
  | simple =>
    rw [hbase (by simp), hconstraint (by simp)]
    exact ⟨[], [], Spelled.nil, rfl, rfl, by simp, by simp⟩
  | withBase =>
    obtain ⟨script, hscript, -, hspelled⟩ := hc.group tm
    rw [hconstraint (by simp)]
    exact ⟨script, _, hspelled, rfl, rfl, fun _ => hscript, by simp⟩
  | withConstraint =>
    obtain ⟨script, hscript, -, hspelled⟩ := hd.group tm
    rw [hbase (by simp)]
    exact ⟨script, _, hspelled, rfl, rfl, by simp, fun _ => hscript⟩

theorem ShapeWritten.function {type : Text} (hlegible : FunctionLegible type a c d)
    (ha : Written settings a) (hb : Written settings b) (hc : Written settings c)
    (hd : Written settings d) :
  ShapeWritten settings (.function type a b c d)
  := by
  obtain ⟨info, hinfo, hnone, hbase, hconstraint, hreserved⟩ := hlegible
  intro tm cell _
  obtain ⟨argument, hargument, -, hbs⟩ := hb.group tm
  obtain ⟨script, as, has, hcs, hds, hwithBase, hwithConstraint⟩ :=
    exists_functionScript hbase hconstraint hc hd tm
  have hwrite := fun command =>
    @writeShape_function _ a b c d _ _ _ command _ tm hinfo hargument hwithBase hwithConstraint
  obtain ⟨hmem, htype⟩ := FunctionInfo.of_find? hinfo
  have hreread : Shape.reread id Node.reread (.function type a b c d)
      = [.plain 0 (.function type (a.flatMap Node.reread) (b.flatMap Node.reread)
        (if info.form = .withBase then as else [])
        (if info.form = .withConstraint then as else []))] := by
    rw [← hcs, ← hds]
    rfl
  rw [hreread]
  rcases hcommand : info.command with _ | command
  · obtain ⟨name, hname, hnames⟩ := @Written.content _ false _ ha tm (by simp)
    refine ⟨_, hwrite _ (.inr ⟨hcommand, name, hname, rfl⟩), ?_⟩
    have hreservedName : Text.strip (orSpace name) ∉ reservedNames info.form := by
      intro hmem
      apply hreserved hcommand _ hmem
      apply plainText?_of_content (fun _ h => h) hname hnames.orSpace
      apply isPlainChar_of_isLetters (isLetters_reservedNames _ _ hmem)
    have huser : ∀ rest, Reading.namedFunctionType (decide (info.form = .withConstraint))
        ("\\operatorname".toList ++ if decide (info.form = .withConstraint) then ['*'] else [])
        (orSpace name) (functionTail info.form script argument ++ rest) = (type, true) := by
      intro rest
      simp only [Reading.namedFunctionType, decide_eq_true_eq, typeOf?_eq_none hreservedName,
        scriptMarker?_functionTail]
      rw [← htype, userDefined_checked info hmem hcommand]
      cases info.form <;> rfl
    have hspells : Spells .builtin cell _ _ := spells_operatorName hinfo hnames.orSpace.closed huser
      (fun _ => hnames.orSpace) (by simp) has hbs
    simp only [decide_eq_true_eq, List.append_assoc] at hspells ⊢
    apply hspells
  · refine ⟨_, hwrite command (.inl hcommand), ?_⟩
    rw [hnone (by simp [hcommand])]
    rcases functions_checked info hmem command hcommand with ⟨listed, hlisted, hlog⟩ | hoperator
    · apply spells_function hinfo hlisted _ has hbs
      rw [← htype]
      apply hlog
    · obtain ⟨name, hname, rfl, htypeOf⟩ := hoperator
      have hletters := isLetters_reservedNames _ _ hname
      have hstrip : Text.strip name = name := by
        apply Text.trimBoth_eq_self
        intro c hc
        apply isBlank_of_isPlainChar (isPlainChar_of_isLetters hletters c hc)
      have hbuiltin : ∀ rest, Reading.namedFunctionType (decide (info.form = .withConstraint))
          ("\\operatorname".toList ++ if decide (info.form = .withConstraint) then ['*'] else [])
          name (functionTail info.form script argument ++ rest) = (type, false) := by
        intro rest
        rw [braced] at htypeOf
        simp only [Reading.namedFunctionType, decide_eq_true_eq, hstrip, List.append_assoc]
          at htypeOf ⊢
        rw [htypeOf, htype]
      have hspells : Spells .builtin cell _ _ := spells_operatorName hinfo
        (Closed.letters hletters) hbuiltin (by simp) (fun _ => rfl) has hbs
      simp only [decide_eq_true_eq, List.append_assoc] at hspells ⊢
      apply hspells

/-! ### Equations -/

/-- What stays the same while an equation is written with the built-in symbols. -/
def settingsFor (config : WriteConfig) (ns : List Node) : Settings where
  table := .builtin
  structural := config.structural
  sizing := config.sizing
  maxDepth := maxBracketDepth ns

theorem toMarkup_eq (config : WriteConfig) (ns : List Node) :
  toMarkup .builtin config ns
    = (writePieces (settingsFor config ns) false (ns.map (piece (settingsFor config ns)))).map
      trimMarkup
  := by
  rw [toMarkup, settingsFor]
  cases writePieces _ false _ <;> rfl

/-- A legible construct is read as it is written if its slots are. -/
theorem ShapeWritten.of_slots (htable : settings.table = .builtin) {n : Node}
    (hlegible : n.Legible settings.structural) (htext : n.shape.isText = false)
    (hslots : ∀ slot ∈ n.shape.slots, Written settings slot.2) :
  ShapeWritten settings n.shape
  := by
  have hshape := hlegible.shape
  have hcells := hlegible.cells
  clear hlegible
  obtain ⟨l, s⟩ := n
  have hslot : ∀ slot content, (slot, content) ∈ s.slots → Written settings content :=
    fun slot content hmem => hslots (slot, content) hmem
  have hpresent : ∀ part (p : Option (List Node)),
      (∀ slot ∈ Shape.slots.present part p, slot ∈ s.slots) → ∀ a ∈ p, Written settings a := by
    intro part p hp a ha
    obtain rfl := Option.mem_def.1 ha
    apply hslot part a (hp _ List.mem_cons_self)
  cases s with
  | text => contradiction
  | fraction mode a b =>
    apply ShapeWritten.fraction
    · apply hslot .numerator _ (by simp [Shape.slots])
    · apply hslot .denominator _ (by simp [Shape.slots])
  | bevelledFraction mode a b =>
    apply ShapeWritten.bevelledFraction
    · apply hslot .numerator _ (by simp [Shape.slots])
    · apply hslot .denominator _ (by simp [Shape.slots])
  | sqrt a => apply ShapeWritten.sqrt (hslot .radicand _ (by simp [Shape.slots]))
  | nthRoot a b =>
    apply ShapeWritten.nthRoot
    · apply hslot .index _ (by simp [Shape.slots])
    · apply hslot .radicand _ (by simp [Shape.slots])
  | script a p q =>
    apply ShapeWritten.script _ _ hshape
    · apply hslot .base _ (by simp [Shape.slots])
    · apply hpresent .superscript _ (by simp +contextual [Shape.slots])
    · apply hpresent .subscript _ (by simp +contextual [Shape.slots])
  | bracket left right a depth scale p q =>
    apply ShapeWritten.bracket hshape.1 hshape.2
    · apply hslot .content _ (by simp [Shape.slots])
    · apply hpresent .superscript _ (by simp +contextual [Shape.slots])
    · apply hpresent .subscript _ (by simp +contextual [Shape.slots])
  | largeOperator operator limitMode mode a b c =>
    apply ShapeWritten.largeOperator hshape
    · apply hslot .lower _ (by simp [Shape.slots])
    · apply hslot .upper _ (by simp [Shape.slots])
    · apply hslot .operand _ (by simp [Shape.slots])
  | derivative o longForm isPartial mode a b =>
    apply ShapeWritten.derivative htable hshape
    · apply hpresent .order _ (by simp +contextual [Shape.slots])
    · apply hslot .function _ (by simp [Shape.slots])
    · apply hslot .differentials _ (by simp [Shape.slots])
  | integral type style limitMode mode a b p q =>
    apply ShapeWritten.integral hshape.1 hshape.2.1 hshape.2.2
    · apply hslot .integrand _ (by simp [Shape.slots])
    · apply hslot .differentials _ (by simp [Shape.slots])
    · apply hpresent .lower _ (by simp +contextual [Shape.slots])
    · apply hpresent .upper _ (by simp +contextual [Shape.slots])
  | matrix t g =>
    obtain ⟨hsome, hrows, hcols⟩ := hshape
    obtain ⟨delimiters, rfl⟩ := Option.isSome_iff_exists.1 hsome
    intro tm cell _
    apply spells_writeGrid hrows hcols hslots (hcells rfl)
  | stack g =>
    intro tm cell _
    apply spells_writeGrid hshape.1 hshape.2 hslots (hcells rfl)
  | cases g =>
    intro tm cell _
    apply spells_writeGrid hshape.1 hshape.2 hslots (hcells rfl)
  | accent type position a p =>
    apply ShapeWritten.accent hshape.1 hshape.2
    · apply hslot .base _ (by simp [Shape.slots])
    · apply hpresent .label _ (by simp +contextual [Shape.slots])
  | function type a b c d =>
    apply ShapeWritten.function hshape
    · apply hslot .name _ (by simp [Shape.slots])
    · apply hslot .argument _ (by simp [Shape.slots])
    · apply hslot .base _ (by simp [Shape.slots])
    · apply hslot .constraint _ (by simp [Shape.slots])

/-- The constructs of a legible equation are read as they are written. -/
theorem Node.shapeWritten (htable : settings.table = .builtin) (n : Node)
    (h : ∀ k ∈ Tree.walk n, Node.Legible settings.structural k) (htext : n.shape.isText = false) :
  ShapeWritten settings n.shape
  := by
  induction n using Tree.induction with
  | h l s ih =>
    rw [Tree.walk_mk] at h
    have hnode := h _ List.mem_cons_self
    apply ShapeWritten.of_slots htable hnode htext
    intro slot hslot
    have hwalk : ∀ n ∈ slot.2, ∀ k ∈ Tree.walk n, Node.Legible settings.structural k := by
      intro n hn k hk
      apply h k
      apply List.mem_cons_of_mem
      apply List.mem_flatMap.2 ⟨n, List.mem_flatMap.2 ⟨slot, hslot, hn⟩, hk⟩
    apply Written.of_shapes htable (hnode.spares slot hslot)
    · intro n hn
      apply hwalk n hn n
      cases n
      rw [Tree.walk_mk]
      apply List.mem_cons_self
    · intro n hn htext
      apply ih n (Shape.children_subset s (List.mem_flatMap.2 ⟨slot, hslot, hn⟩))
        (hwalk n hn) htext

/-- Every legible equation is read as it is written. -/
theorem Legible.written (htable : settings.table = .builtin) {ns : List Node}
    (h : Legible settings.structural ns) :
  Written settings ns
  := by
  apply Written.of_shapes htable h.spares
  · intro n hn
    apply h.node hn
  · intro n hn htext
    apply Node.shapeWritten htable n _ htext
    intro k hk
    apply h.nodes k (List.mem_flatMap.2 ⟨n, hn, hk⟩)

end Formula
