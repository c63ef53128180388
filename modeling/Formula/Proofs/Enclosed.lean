import Formula.Proofs.Assembly
import Formula.Proofs.Factory
import Formula.Proofs.Laid

/-!
# Written markup between delimiters

Every construct is written as a solid item when its slots are laid out as items, whatever the
text in them is.  By induction on the tree, the markup of an equation is closed, so it may be
put between braces, between sized brackets, into a cell or into an environment, and the reader
of each of them finds the delimiter behind the markup.
-/

namespace Formula

open Markup Writing

/-! ### Readers of delimiters -/

/-- A text that may stand in front of any delimiter: every reader that looks for a delimiter passes
over the text, and finds the one behind it. -/
structure Markup.Enclosable (m : Text) : Prop where
  group : ∀ rest, Markup.group (m ++ '}' :: rest) = (m, rest)
  rows : splitRows 0 m = [[m]]
  closing : ∀ rest, Text.startsWithLetter rest = false →
    untilClosing 0 (m ++ [' '] ++ "\\right".toList ++ rest) = some (m ++ [' '], rest)
  body : ∀ name rest, '}' ∉ name →
    environmentBody name (m ++ "\\end".toList ++ braced name ++ rest) = (m, rest)

/-- A closed fragment may stand in front of any delimiter. -/
theorem Markup.Closed.enclosable {m : Text} (h : Closed true m) :
  Enclosable m
  where
  group rest := h.balanced.group rest
  rows := by
    have hrows := h.rowed 0 [] (Int.le_refl 0) (fun _ => rfl) Follow.nil_right
    rw [List.append_nil] at hrows
    rw [hrows]
    simp [splitRows, addToCell]
  closing rest hrest := by
    have hname : Text.isLetters "right".toList = true := rfl
    have hright : untilClosing 0 ("\\right".toList ++ rest) = some ([], rest) :=
      untilClosing_right_zero hname hrest (by decide) (by decide)
    have hspace : untilClosing 0 ([' '] ++ ("\\right".toList ++ rest)) = some ([' '], rest) := by
      rw [untilClosing_plain (by decide), hright]
      rfl
    have hfollow : Follow m ([' '] ++ ("\\right".toList ++ rest)) := Follow.cons rfl
    rw [List.append_assoc, List.append_assoc, h.sized 0 _ hfollow, hspace]
    rfl
  body name rest hname := by
    rw [List.append_assoc, List.append_assoc]
    apply environmentBody_eq hname h.ended

variable {settings : Settings} {tm : Bool}

/-- Siblings are written as a row of items. -/
def WrittenLaid (settings : Settings) (ns : List Node) : Prop :=
  ∀ tm, ∃ m, writePieces settings tm (ns.map (piece settings)) = .ok m ∧ Laid m

/-- A construct is written as a solid item. -/
def WrittenSolid (settings : Settings) (s : Shape Node) : Prop :=
  ∀ tm, ∃ m, writeShape settings tm (s.map (piece settings)) = .ok m ∧ Solid m

/-! ### Slots -/

section Slots

variable {a : List Node}

theorem WrittenLaid.group (h : WrittenLaid settings a) (tm : Bool) :
  ∃ content, writeGroup settings tm (a.map (piece settings)) = .ok (braced content)
    ∧ Closed false content
  := by
  obtain ⟨m, hm, hlaid⟩ := h tm
  obtain ⟨content, hgroup, hcontent⟩ := hlaid.group
  refine ⟨content, ?_, hcontent⟩
  rw [writeGroup, hm, ← hgroup]
  rfl

theorem WrittenLaid.content (h : WrittenLaid settings a) (tm : Bool) :
  ∃ m, writeContent settings tm (a.map (piece settings)) = .ok m ∧ Laid m
  := by
  obtain ⟨m, hm, hlaid⟩ := h tm
  refine ⟨_, ?_, hlaid.trimMarkup⟩
  rw [writeContent, hm]
  rfl

/-- A script is written with a closed content, if there is one. -/
theorem exists_closed_script {p : Option (List Node)} (h : ∀ a ∈ p, WrittenLaid settings a)
    (tm : Bool) (side : ScriptSide) :
  ∃ content, writeScript settings tm side (p.map (List.map (piece settings)))
      = .ok (scriptText side content)
    ∧ ∀ m ∈ content, Closed false m
  := by
  cases p with
  | none => exact ⟨none, rfl, by simp⟩
  | some a =>
    obtain ⟨content, hcontent, hclosed⟩ := (h a rfl).group tm
    refine ⟨some content, ?_, by simpa using hclosed⟩
    rw [Option.map_some, writeScript, hcontent]
    rfl

/-- The order of a derivative is closed, and an order that is not written is a number. -/
theorem exists_closed_order {o : Order Node}
    (hnumber : ∀ n, o = .number n → 1 ≤ n ∧ Numeral.isWritable n = true)
    (h : ∀ s ∈ o.slot?, WrittenLaid settings s) (tm : Bool) :
  ∃ order : Option Text,
    isFirstOrder (Shape.mapSlotsOr.order (List.map (piece settings)) o) = order.isNone
    ∧ (∀ m ∈ order,
      writeOrder settings tm (Shape.mapSlotsOr.order (List.map (piece settings)) o) = .ok m)
    ∧ ∀ m ∈ order, Closed true m
  := by
  cases o with
  | number n =>
    obtain ⟨hpos, hwritable⟩ := hnumber n rfl
    by_cases hn : n = 1
    · subst hn
      exact ⟨none, rfl, by simp, by simp⟩
    · refine ⟨some (Numeral.write n), ?_, ?_, ?_⟩
      · simp [isFirstOrder, Shape.mapSlotsOr.order, hn]
      · intro m hm
        obtain rfl := Option.some.inj hm
        simp only [Shape.mapSlotsOr.order, writeOrder, hwritable]
        rfl
      · intro m hm
        obtain rfl := Option.some.inj hm
        apply closed_of_isPlain (Numeral.read_write hpos hwritable).1
  | sequence s =>
    obtain ⟨m, hm, hlaid⟩ := (h s rfl).content tm
    refine ⟨some (orSpace m), rfl, ?_, ?_⟩
    · intro order horder
      obtain rfl := Option.some.inj horder
      rw [Shape.mapSlotsOr.order, writeOrder, hm]
      rfl
    · simpa using hlaid.orSpace

end Slots

/-! ### Constructs -/

/-- An item that begins with a group is solid. -/
theorem Solid.braced_append {m tail : Text} (hm : Closed false m) (htail : Closed true tail)
    (hwhole : Whole (braced m ++ tail)) :
  Solid (braced m ++ tail)
  where
  head := ⟨_, _, rfl, by decide⟩
  whole := hwhole
  closed := hm.braced_append htail

theorem Solid.braced {m : Text} (hm : Closed false m) :
  Solid (braced m)
  where
  head := ⟨_, _, rfl, by decide⟩
  whole := whole_braced m
  closed := hm.braced

/-- A body stays solid in a group that sets its display mode. -/
theorem Solid.styled {m : Text} (h : Solid m) (mode : Option DisplayMode) :
  Solid (styled mode m)
  := by
  cases mode with
  | none => apply h
  | some mode => apply Solid.braced (closed_styled mode h.laid.closed_inside)

namespace WrittenSolid

variable {a b c d : List Node} {p q : Option (List Node)}

theorem fraction (mode : Option DisplayMode) (ha : WrittenLaid settings a)
    (hb : WrittenLaid settings b) :
  WrittenSolid settings (.fraction mode a b)
  := by
  intro tm
  obtain ⟨above, habove, has⟩ := ha.group tm
  obtain ⟨below, hbelow, hbs⟩ := hb.group tm
  have hsolid : ∀ {command : Text}, isInertCommand command = true →
      Solid (command ++ braced above ++ braced below) := by
    intro command hcommand
    rw [List.append_assoc]
    apply Solid.command hcommand (has.braced_append hbs.braced) (whole_braced _).append rfl
  rcases mode with _ | _ | _
  · exact ⟨_, writeShape_fraction _ habove hbelow, hsolid (by decide)⟩
  · exact ⟨_, writeShape_fraction _ habove hbelow, (hsolid (by decide)).styled (some .inline)⟩
  · exact ⟨_, writeShape_fraction _ habove hbelow, hsolid (by decide)⟩

theorem bevelledFraction (mode : Option DisplayMode) (ha : WrittenLaid settings a)
    (hb : WrittenLaid settings b) :
  WrittenSolid settings (.bevelledFraction mode a b)
  := by
  intro tm
  obtain ⟨above, habove, has⟩ := ha.group tm
  obtain ⟨below, hbelow, hbs⟩ := hb.group tm
  have hsolidus : Closed true (['/'] ++ braced below) :=
    (Closed.plain (by simp) (by simp)).append_braced hbs
  have hsolid := Solid.braced_append has hsolidus (whole_braced below).append.append
  rw [← List.append_assoc] at hsolid
  exact ⟨_, writeShape_bevelledFraction mode habove hbelow, hsolid.styled mode⟩

theorem sqrt (ha : WrittenLaid settings a) :
  WrittenSolid settings (.sqrt a)
  := by
  intro tm
  obtain ⟨radicand, hradicand, has⟩ := ha.group tm
  exact ⟨_, writeShape_sqrt hradicand,
    Solid.command (by decide) has.braced (whole_braced radicand) rfl⟩

theorem nthRoot (ha : WrittenLaid settings a) (hb : WrittenLaid settings b) :
  WrittenSolid settings (.nthRoot a b)
  := by
  intro tm
  obtain ⟨index, hindex, has⟩ := ha.content tm
  obtain ⟨radicand, hradicand, hbs⟩ := hb.group tm
  have hcommand : isInertCommand "\\sqrt".toList = true := rfl
  exact ⟨_, writeShape_nthRoot hindex hradicand, Solid.command hcommand
    (has.closed.optional.bracketed.append_braced hbs) (whole_braced radicand).append rfl⟩

theorem script (ha : WrittenLaid settings a) (hp : ∀ a ∈ p, WrittenLaid settings a)
    (hq : ∀ a ∈ q, WrittenLaid settings a) :
  WrittenSolid settings (.script a p q)
  := by
  intro tm
  obtain ⟨base, hbase, has⟩ := ha.group tm
  obtain ⟨above, habove, hps⟩ := exists_closed_script hp tm .superscript
  obtain ⟨below, hbelow, hqs⟩ := exists_closed_script hq tm .subscript
  refine ⟨_, writeShape_script hbase habove hbelow, ?_⟩
  apply Solid.braced_append has (closed_scripts hps hqs)
  rw [← List.append_assoc]
  apply whole_scriptText (whole_scriptText (whole_braced base))

theorem bracket {left right : Text} {depth : Int} {scale : Option Scale}
    (hleft : left ∈ Delimiter.glyphs) (hright : right ∈ Delimiter.glyphs)
    (ha : WrittenLaid settings a) (hp : ∀ a ∈ p, WrittenLaid settings a)
    (hq : ∀ a ∈ q, WrittenLaid settings a) :
  WrittenSolid settings (.bracket left right a depth scale p q)
  := by
  intro tm
  obtain ⟨content, hcontent, has⟩ := ha.content tm
  obtain ⟨above, habove, hps⟩ := exists_closed_script hp tm .superscript
  obtain ⟨below, hbelow, hqs⟩ := exists_closed_script hq tm .subscript
  have hspelling : ∀ {glyph : Text}, glyph ∈ Delimiter.glyphs → ∀ left,
      Delimiter.Plain true (Delimiter.spelling glyph left) := fun h left =>
    Delimiter.plain_of_isSpelling (Delimiter.spellings_checked _ h left).2.1
  have hsize := isSize_bracketSizes settings depth
  have hwhole := @whole_bracketText content (bracketSizes settings depth) left _ above below
    (hspelling hright false).whole
  have hclosed := closed_bracketText hsize (hspelling hleft true) (hspelling hright false)
    has.padded.closed hps hqs
  obtain ⟨names, -, hnames⟩ := hsize
  have hhead : ∃ ch cs, bracketText (bracketSizes settings depth) left right content below above
      = ch :: cs ∧ ch ≠ ' ' := by
    rw [hnames]
    exact ⟨_, _, rfl, by decide⟩
  exact ⟨_, writeShape_bracket depth scale hcontent habove hbelow, hhead, hwhole, hclosed⟩

theorem largeOperator {operator : Text} {limitMode : LimitMode} {mode : DisplayMode}
    (hoperator : (LargeOperator.commandFor? operator).isSome) (ha : WrittenLaid settings a)
    (hb : WrittenLaid settings b) (hc : WrittenLaid settings c) :
  WrittenSolid settings (.largeOperator operator limitMode mode a b c)
  := by
  intro tm
  obtain ⟨command, hcommand⟩ := Option.isSome_iff_exists.1 hoperator
  obtain ⟨lower, hlower, has⟩ := ha.group tm
  obtain ⟨upper, hupper, hbs⟩ := hb.group tm
  obtain ⟨operand, hoperand, hcs⟩ := hc.group tm
  refine ⟨_, writeShape_largeOperator limitMode mode hcommand hlower hupper hoperand, ?_⟩
  have hmem := CommandTable.mem_commands_of_lookup (LargeOperator.lookup_of_commandFor? hcommand)
  have hsolid := Solid.command
    (isInertCommand_of_isPlainCommand (isPlainCommand_largeOperator _ hmem))
    (closed_largeOperatorArguments limitMode has hbs hcs)
    (whole_braced operand).append.append.append.append (by cases limitMode <;> rfl)
  have hstyled := hsolid.styled (some mode)
  simp only [Writing.styled, scriptText, Option.elim, ScriptSide.marker, List.append_assoc,
    List.cons_append, List.nil_append] at hstyled ⊢
  apply hstyled

theorem derivative {o : Order Node} {longForm isPartial : Bool} {mode : DisplayMode}
    (hnumber : ∀ n, o = .number n → 1 ≤ n ∧ Numeral.isWritable n = true)
    (ho : ∀ s ∈ o.slot?, WrittenLaid settings s) (ha : WrittenLaid settings a)
    (hb : WrittenLaid settings b) :
  WrittenSolid settings (.derivative o longForm isPartial mode a b)
  := by
  intro tm
  obtain ⟨order, hfirst, hwrite, hos⟩ := exists_closed_order hnumber ho tm
  simp only [Shape.map, Shape.mapSlots, Shape.mapSlotsOr, writeShape]
  split
  · obtain ⟨function, hfunction, has⟩ := ha.group tm
    obtain ⟨differentials, hdifferentials, hbs⟩ := hb.group tm
    refine ⟨_, writeStructural_eq hfirst hwrite hfunction hdifferentials, ?_⟩
    apply Solid.styled
    apply Solid.command
    · cases isPartial <;> decide
    · apply (closed_orderArgument fun m hm => (hos m hm).optional).append
        (closed_derivativeArguments longForm has hbs) (follow_derivativeArguments longForm)
    · apply (whole_derivativeArguments longForm).append
    · cases order with
      | none => cases longForm <;> rfl
      | some m => rfl
  · obtain ⟨function, hfunction, has⟩ := ha.content tm
    obtain ⟨differentials, hdifferentials, hbs⟩ := hb.content tm
    refine ⟨_, writeAsFraction_eq hfirst hwrite hfunction hdifferentials, ?_⟩
    apply Solid.command
    · cases mode <;> cases longForm <;> decide
    · apply closed_fractionArguments longForm isPartial fun m hm => (hos m hm).mono (by simp)
      · apply has.orSpace.mono (by simp)
      · apply hbs.orSpace.mono (by simp)
    · apply whole_fractionArguments
    · cases longForm <;> rfl

theorem accent {type : AccentType} {position : AccentPosition}
    (hlabel : p.isSome = type.labeled) (ha : WrittenLaid settings a)
    (hp : ∀ a ∈ p, WrittenLaid settings a) :
  WrittenSolid settings (.accent type position a p)
  := by
  intro tm
  obtain ⟨base, hbase, has⟩ := ha.group tm
  have hcommand := isInertCommand_of_isPlainCommand (isPlainCommand_accent type)
  cases p with
  | none =>
    have htype : type.labeled = false := hlabel.symm
    exact ⟨_, writeShape_accent _ htype hbase,
      Solid.command hcommand has.braced (whole_braced base) rfl⟩
  | some l =>
    have htype : type.labeled = true := hlabel.symm
    obtain ⟨label, hlabelText, hls⟩ := (hp l rfl).group tm
    have hscript : ∀ m ∈ some label, Closed false m := by simpa using hls
    have hlabelled : Closed true (scriptText type.labelSide (some label)) :=
      closed_scriptText hscript
    have hwhole : Whole (braced base ++ scriptText type.labelSide (some label)) :=
      whole_scriptText (whole_braced base)
    exact ⟨_, writeShape_labeled_accent _ htype hbase hlabelText,
      Solid.command hcommand (has.braced_append hlabelled) hwhole rfl⟩

/-- Slots that are written as groups one after the other. -/
theorem exists_closed_groups {slots : List (List Node)} (hne : slots ≠ [])
    (h : ∀ a ∈ slots, WrittenLaid settings a) (tm : Bool) :
  ∃ groups, (slots.map (List.map (piece settings))).mapM (writeGroup settings tm) = .ok groups
    ∧ Solid groups.flatten ∧ Text.startsWithLetter groups.flatten = false
  := by
  induction slots with
  | nil => contradiction
  | cons a slots ih =>
    obtain ⟨content, hcontent, has⟩ := (h a List.mem_cons_self).group tm
    cases slots with
    | nil =>
      refine ⟨[braced content], ?_, ?_, rfl⟩
      · rw [List.map_cons, List.mapM_cons, hcontent]
        rfl
      · rw [List.flatten_singleton]
        apply Solid.braced has
    | cons b slots =>
      obtain ⟨groups, hgroups, hsolid, hstart⟩ := ih (List.cons_ne_nil _ _)
        fun a ha => h a (List.mem_cons_of_mem _ ha)
      refine ⟨braced content :: groups, ?_, ?_, rfl⟩
      · rw [List.map_cons, List.mapM_cons, hcontent, hgroups]
        rfl
      · rw [List.flatten_cons]
        apply Solid.braced_append has hsolid.closed hsolid.whole.append

theorem integral {type : IntegralType} {style : DifferentialStyle} {limitMode : LimitMode}
    {mode : DisplayMode} (hbounds : q.isSome → p.isSome) (hnone : p = none → limitMode = .default)
    (hlower : q = none → limitMode ≠ .nolimits) (ha : WrittenLaid settings a)
    (hb : WrittenLaid settings b) (hp : ∀ a ∈ p, WrittenLaid settings a)
    (hq : ∀ a ∈ q, WrittenLaid settings a) :
  WrittenSolid settings (.integral type style limitMode mode a b p q)
  := by
  intro tm
  obtain ⟨groups, hgroups, hsolid, hstart⟩ := exists_closed_groups (by simp)
    (forall_integralSlots ha hb hp hq) tm
  refine ⟨_, writeIntegral_eq hbounds hnone hlower hgroups, ?_⟩
  have hmem := CommandTable.mem_commands_of_lookup (IntegralCommand.lookup_spelling
    ⟨type, style, .ofBounds p.isSome q.isSome limitMode⟩)
  apply Solid.styled
  apply Solid.command (isInertCommand_of_isPlainCommand (isPlainCommand_integral _ hmem))
    hsolid.closed hsolid.whole hstart

/-- A grid is written as a solid item. -/
theorem exists_solid_grid (kind : GridKind) {g : Grid Node}
    (hslots : ∀ slot ∈ Shape.slots.ofGrid g, WrittenLaid settings slot.2) (tm : Bool) :
  ∃ m, writeGrid settings tm kind.environment
      (if kind = .stack then braced (List.replicate g.cols.toNat 'c') else [])
      (Shape.mapSlotsOr.grid (List.map (piece settings)) (List.map (piece settings)) g) = .ok m
    ∧ Solid m
  := by
  have hcell : ∀ i j, ∃ m, i < g.rows.toNat → j < g.cols.toNat →
      writeContent settings tm ((g.cell i j).map (piece settings)) = .ok m ∧ Laid m := by
    intro i j
    by_cases hinside : i < g.rows.toNat ∧ j < g.cols.toNat
    · obtain ⟨m, hm, hlaid⟩ := (hslots _ (Grid.cell_mem_slots hinside.1 hinside.2)).content tm
      exact ⟨m, fun _ _ => ⟨hm, hlaid⟩⟩
    · exact ⟨[], fun hi hj => absurd ⟨hi, hj⟩ hinside⟩
  choose content hcontent using hcell
  refine ⟨_, writeGrid_eq fun i hi j hj => (hcontent i j hi hj).1, ?_, ?_, ?_⟩
  · exact ⟨_, _, rfl, by decide⟩
  · apply (whole_braced kind.environment).append.append.append.append
  · apply closed_gridText fun i hi j hj => (hcontent i j hi hj).2.closed_inside

/-- A function with an operator name is solid when its name and its arguments are closed. -/
theorem solid_operatorName {name script argument : Text} (form : FunctionForm)
    (hname : Closed false name) (hscript : Closed false script) (hargument : Closed false argument) :
  Solid ("\\operatorname".toList ++ ((if form = .withConstraint then ['*'] else [])
    ++ braced name) ++ functionTail form script argument)
  := by
  have hclosed : Closed true _ := closed_operatorNameArguments (decide (form = .withConstraint))
    form hname hscript hargument
  simp only [decide_eq_true_eq] at hclosed
  rw [List.append_assoc, List.append_assoc]
  apply Solid.command (by decide) hclosed (whole_functionTail form script argument).append.append
  split <;> rfl

/-- A function with a command is solid when its arguments are closed. -/
theorem solid_function {info : FunctionInfo} {command script argument : Text}
    (hinfo : info ∈ FunctionInfo.members) (hcommand : command ∈ info.command)
    (hscript : Closed false script) (hargument : Closed false argument) :
  Solid (command ++ functionTail info.form script argument)
  := by
  rcases functions_checked info hinfo command hcommand with
    ⟨listed, hlookup, -⟩ | ⟨name, hname, rfl, -⟩
  · have hmem := CommandTable.mem_commands_of_lookup hlookup
    apply Solid.command (isInertCommand_of_isPlainCommand (isPlainCommand_function _ hmem))
      (closed_functionTail info.form hscript hargument)
      (whole_functionTail info.form script argument)
    rw [functionTail]
    split <;> rfl
  · apply solid_operatorName info.form _ hscript hargument
    apply Closed.letters (isLetters_reservedNames info.form name hname)

theorem function {type : Text} {info : FunctionInfo} (hinfo : FunctionInfo.find? type = some info)
    (ha : WrittenLaid settings a) (hb : WrittenLaid settings b) (hc : WrittenLaid settings c)
    (hd : WrittenLaid settings d) :
  WrittenSolid settings (.function type a b c d)
  := by
  intro tm
  obtain ⟨argument, hargument, hbs⟩ := hb.group tm
  obtain ⟨hmem, -⟩ := FunctionInfo.of_find? hinfo
  obtain ⟨script, hss, hbase, hconstraint⟩ : ∃ script, Closed false script
      ∧ (info.form = .withBase →
        writeGroup settings tm (c.map (piece settings)) = .ok (braced script))
      ∧ (info.form = .withConstraint →
        writeGroup settings tm (d.map (piece settings)) = .ok (braced script)) := by
    cases hform : info.form with
    | simple => exact ⟨[], Closed.nil, by simp, by simp⟩
    | withBase =>
      obtain ⟨script, hscript, hcs⟩ := hc.group tm
      exact ⟨script, hcs, fun _ => hscript, by simp⟩
    | withConstraint =>
      obtain ⟨script, hscript, hds⟩ := hd.group tm
      exact ⟨script, hds, by simp, fun _ => hscript⟩
  have hwrite := fun command =>
    @writeShape_function _ a b c d _ _ _ command _ tm hinfo hargument hbase hconstraint
  cases hcommand : info.command with
  | some command =>
    exact ⟨_, hwrite command (.inl hcommand), solid_function hmem hcommand hss hbs⟩
  | none =>
    obtain ⟨name, hcontent, has⟩ := ha.content tm
    refine ⟨_, hwrite _ (.inr ⟨hcommand, name, hcontent, rfl⟩), ?_⟩
    apply solid_operatorName info.form (has.orSpace.mono (by simp)) hss hbs

end WrittenSolid

/-! ### Equations -/

/-- The fields of a construct can be written between delimiters: a color has neither backslashes nor
braces, delimiters have spellings, a number of an order has few enough digits, and a matrix has
delimiters. -/
def Shape.Enclosable : Shape Node → Prop
  | .text _ f _ => ∀ c ∈ f.color, Text.Inert c
  | .bracket l r _ _ _ _ _ => l ∈ Delimiter.glyphs ∧ r ∈ Delimiter.glyphs
  | .derivative (.number n) _ _ _ _ _ => Numeral.isWritable n = true
  | .matrix t _ => t.isSome
  | _ => True

/-- A node that a blueprint makes, with fields and a color that can be written between
delimiters. -/
structure Node.Enclosable (n : Node) : Prop where
  made : n.shape.FromBlueprint
  color : ∀ c, n.wrapping.params.color = some (.text c) → Text.Inert c
  shape : n.shape.Enclosable

/-- A construct is written as a solid item if its slots are laid out. -/
theorem WrittenSolid.of_slots {s : Shape Node} (hsound : s.Sound) (henclosable : s.Enclosable)
    (htext : s.isText = false) (hslots : ∀ slot ∈ s.slots, WrittenLaid settings slot.2) :
  WrittenSolid settings s
  := by
  have hslot : ∀ slot content, (slot, content) ∈ s.slots → WrittenLaid settings content :=
    fun slot content hmem => hslots (slot, content) hmem
  have hpresent : ∀ part (p : Option (List Node)),
      (∀ slot ∈ Shape.slots.present part p, slot ∈ s.slots) → ∀ a ∈ p, WrittenLaid settings a := by
    intro part p hp a ha
    obtain rfl := Option.mem_def.1 ha
    apply hslot part a (hp _ List.mem_cons_self)
  cases s with
  | text => contradiction
  | fraction mode a b =>
    apply WrittenSolid.fraction
    · apply hslot .numerator _ (by simp [Shape.slots])
    · apply hslot .denominator _ (by simp [Shape.slots])
  | bevelledFraction mode a b =>
    apply WrittenSolid.bevelledFraction
    · apply hslot .numerator _ (by simp [Shape.slots])
    · apply hslot .denominator _ (by simp [Shape.slots])
  | sqrt a => apply WrittenSolid.sqrt (hslot .radicand _ (by simp [Shape.slots]))
  | nthRoot a b =>
    apply WrittenSolid.nthRoot
    · apply hslot .index _ (by simp [Shape.slots])
    · apply hslot .radicand _ (by simp [Shape.slots])
  | script a p q =>
    apply WrittenSolid.script
    · apply hslot .base _ (by simp [Shape.slots])
    · apply hpresent .superscript _ (by simp +contextual [Shape.slots])
    · apply hpresent .subscript _ (by simp +contextual [Shape.slots])
  | bracket left right a depth scale p q =>
    apply WrittenSolid.bracket henclosable.1 henclosable.2
    · apply hslot .content _ (by simp [Shape.slots])
    · apply hpresent .superscript _ (by simp +contextual [Shape.slots])
    · apply hpresent .subscript _ (by simp +contextual [Shape.slots])
  | largeOperator operator limitMode mode a b c =>
    apply WrittenSolid.largeOperator hsound
    · apply hslot .lower _ (by simp [Shape.slots])
    · apply hslot .upper _ (by simp [Shape.slots])
    · apply hslot .operand _ (by simp [Shape.slots])
  | derivative o longForm isPartial mode a b =>
    apply WrittenSolid.derivative
    · rintro n rfl
      exact ⟨hsound, henclosable⟩
    · apply hpresent .order _ (by simp +contextual [Shape.slots])
    · apply hslot .function _ (by simp [Shape.slots])
    · apply hslot .differentials _ (by simp [Shape.slots])
  | integral type style limitMode mode a b p q =>
    apply WrittenSolid.integral hsound.1 hsound.2.1 hsound.2.2
    · apply hslot .integrand _ (by simp [Shape.slots])
    · apply hslot .differentials _ (by simp [Shape.slots])
    · apply hpresent .lower _ (by simp +contextual [Shape.slots])
    · apply hpresent .upper _ (by simp +contextual [Shape.slots])
  | matrix t g =>
    obtain ⟨delimiters, rfl⟩ := Option.isSome_iff_exists.1 henclosable
    intro tm
    apply WrittenSolid.exists_solid_grid (.matrix delimiters) hslots
  | stack g =>
    intro tm
    apply WrittenSolid.exists_solid_grid .stack hslots
  | cases g =>
    intro tm
    apply WrittenSolid.exists_solid_grid .cases hslots
  | accent type position a p =>
    apply WrittenSolid.accent hsound.2
    · apply hslot .base _ (by simp [Shape.slots])
    · apply hpresent .label _ (by simp +contextual [Shape.slots])
  | function type a b c d =>
    obtain ⟨info, hinfo⟩ := Option.isSome_iff_exists.1 hsound
    apply WrittenSolid.function hinfo
    · apply hslot .name _ (by simp [Shape.slots])
    · apply hslot .argument _ (by simp [Shape.slots])
    · apply hslot .base _ (by simp [Shape.slots])
    · apply hslot .constraint _ (by simp [Shape.slots])

/-- Siblings are written as a row of items if all nodes in them can be written between
delimiters. -/
theorem writtenLaid (htable : settings.table = .builtin) {ns : List Node}
    (h : ∀ n ∈ walk ns, n.Enclosable) :
  WrittenLaid settings ns
  := by
  intro tm
  apply exists_written (Q := Node.Enclosable) (R := fun m _ => Laid m)
  · intro tm parts nss h
    apply Laid.join h
  · intro n hn w hw m g h
    apply (h.wrap _).laid
    rintro c rfl
    apply hn.color c (Node.color_of_mem_outer hw)
  · intro r hne hr f hshape tm
    obtain ⟨n, rest, rfl⟩ := List.exists_cons_of_ne_nil hne
    obtain ⟨v, scale, hn⟩ := hshape n List.mem_cons_self
    have hcolor := (hr n List.mem_cons_self).shape
    rw [hn] at hcolor
    rw [htable]
    apply Laid.textRun hcolor
  · intro n hn htext hslots tm
    obtain ⟨m, hm, hsolid⟩ := WrittenSolid.of_slots hn.made.sound hn.shape htext hslots tm
    exact ⟨m, hm, hsolid.laid⟩
  · apply h

/-- What an equation is written as may stand in front of any delimiter. -/
theorem exists_enclosable {ns : List Node} (h : ∀ n ∈ walk ns, n.Enclosable)
    (config : WriteConfig) :
  ∃ m, toMarkup .builtin config ns = .ok m ∧ Markup.Enclosable m
  := by
  have htable : (settingsFor config ns).table = .builtin := rfl
  obtain ⟨m, hm, hlaid⟩ := writtenLaid htable h false
  refine ⟨_, ?_, hlaid.trimMarkup.closed.enclosable⟩
  rw [toMarkup_eq, hm]
  rfl

/-- A red text that quotes delimiters. -/
def quotedDelimiters : Node :=
  .plain 2 (.text "\\right) & \\\\ \x7d \\end".toList { color := some "red".toList } none)

/-- Square brackets around a text that quotes delimiters, with it as a bound. -/
def quotingBracket : Node :=
  .plain 1 (.bracket ['['] [']'] [quotedDelimiters] 0 none (some [quotedDelimiters]) (some []))

theorem enclosable_quotingBracket : ∀ n ∈ walk [quotingBracket], n.Enclosable
  := by
  have htext : quotedDelimiters.Enclosable := by
    refine ⟨⟨.text _ _ _, {}, _, rfl, rfl⟩, fun _ h => by contradiction, ?_⟩
    intro c hc
    obtain rfl := Option.some.inj hc
    decide
  intro n hn
  have hmem : n = quotingBracket ∨ n = quotedDelimiters := by
    simpa [walk, quotingBracket, quotedDelimiters, Node.plain, Tree.walk_mk, Shape.children,
      Shape.slots, Shape.slots.present] using hn
  rcases hmem with rfl | rfl
  · exact ⟨⟨.evaluationBracket "square".toList, {}, _, rfl, rfl⟩, fun _ h => by contradiction,
      by decide, by decide⟩
  · apply htext

theorem exists_enclosable_quotingBracket :
  (∀ n ∈ walk [quotingBracket], n.Enclosable)
    ∧ ∃ m, toMarkup .builtin { sizing := .depth } [quotingBracket] = .ok m ∧ Markup.Enclosable m
  := ⟨enclosable_quotingBracket, exists_enclosable enclosable_quotingBracket { sizing := .depth }⟩

end Formula
