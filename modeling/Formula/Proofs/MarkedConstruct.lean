import Formula.Proofs.Factory
import Formula.Proofs.Markers

/-!
# Marked constructs

Every construct is written with the markers that tell it, and marks what stands in its slots
besides.  By induction on the tree, the markers of a markup are those of the constructs in the
equation that it is written for.
-/

namespace Formula

open Markup Writing

/-! ### Markers of constructs -/

/-- The marker of a display mode, if it is set and has one. -/
def styleMarkers (mode : Option DisplayMode) : List Text :=
  if mode = some .display then ["displaystyle".toList] else []

/-- The markers that a construct is written with. -/
def Shape.markers {α : Type} (structural : Bool) : Shape α → List Text
  | .fraction mode _ _ => if mode = some .display then ["dfrac".toList] else []
  | .bevelledFraction mode _ _ => styleMarkers mode
  | .largeOperator _ _ mode _ _ _ => styleMarkers (some mode)
  | .derivative _ longForm isPartial mode _ _ =>
    if structural then
      styleMarkers (some mode) ++ [if isPartial then "pdv".toList else "dv".toList]
    else [(fractionName mode longForm).tail]
  | .integral _ _ _ mode _ _ _ _ => styleMarkers (some mode)
  | _ => []

/-- The markers of all constructs in an equation. -/
def markersOf (structural : Bool) (ns : List Node) : List Text :=
  (walk ns).flatMap fun n => n.shape.markers structural

section Markers

variable {structural : Bool} {a b : List Node}

@[simp]
theorem markersOf_nil :
  markersOf structural [] = []
  := rfl

@[simp]
theorem markersOf_append :
  markersOf structural (a ++ b) = markersOf structural a ++ markersOf structural b
  := by rw [markersOf, walk, List.flatMap_append, List.flatMap_append]; rfl

theorem markersOf_mk (l : Label) (s : Shape Node) :
  markersOf structural [.mk l s] = s.markers structural ++ markersOf structural s.children
  := by
  rw [markersOf, walk, List.flatMap_cons, List.flatMap_nil, List.append_nil, Tree.walk_mk,
    List.flatMap_cons]
  rfl

theorem markersOf_flatMap {α : Type} (l : List α) (f : α → List Node) :
  markersOf structural (l.flatMap f) = l.flatMap fun x => markersOf structural (f x)
  := by
  induction l with
  | nil => rfl
  | cons x l ih => rw [List.flatMap_cons, markersOf_append, ih, List.flatMap_cons]

end Markers

variable {settings : Settings} {tm : Bool}

/-- Siblings are written, and marked by their markers. -/
def Marked (settings : Settings) (ns : List Node) : Prop :=
  ∀ tm, ∃ m, writePieces settings tm (ns.map (piece settings)) = .ok m
    ∧ Marks m (markersOf settings.structural ns)

/-- A construct is written, and marked by its markers and those of what stands in its slots. -/
def ShapeMarked (settings : Settings) (s : Shape Node) : Prop :=
  ∀ tm, ∃ m, writeShape settings tm (s.map (piece settings)) = .ok m
    ∧ Marks m (s.markers settings.structural ++ markersOf settings.structural s.children)

/-! ### Slots -/

section Slots

variable {a : List Node}

theorem Marked.group (h : Marked settings a) (tm : Bool) :
  ∃ content, writeGroup settings tm (a.map (piece settings)) = .ok (braced content)
    ∧ Marks content (markersOf settings.structural a)
  := by
  obtain ⟨m, hm, hmarks⟩ := h tm
  obtain ⟨content, hgroup, hcontent⟩ := hmarks.group
  refine ⟨content, ?_, hcontent⟩
  rw [writeGroup, hm, ← hgroup]
  rfl

theorem Marked.content (h : Marked settings a) (tm : Bool) :
  ∃ m, writeContent settings tm (a.map (piece settings)) = .ok m
    ∧ Marks m (markersOf settings.structural a)
  := by
  obtain ⟨m, hm, hmarks⟩ := h tm
  refine ⟨_, ?_, hmarks.trimMarkup⟩
  rw [writeContent, hm]
  rfl

/-- A script is marked by what stands in its slot, and begins with no letter. -/
theorem exists_marked_script {p : Option (List Node)} (h : ∀ a ∈ p, Marked settings a) (tm : Bool)
    (side : ScriptSide) :
  ∃ m, writeScript settings tm side (p.map (List.map (piece settings))) = .ok (scriptText side m)
    ∧ Marks (scriptText side m) (markersOf settings.structural (p.getD []))
    ∧ Text.startsWithLetter (scriptText side m) = false
  := by
  cases p with
  | none => exact ⟨none, rfl, Marks.nil, rfl⟩
  | some a =>
    obtain ⟨content, hcontent, hmarks⟩ := (h a rfl).group tm
    refine ⟨some content, ?_, ?_, ?_⟩
    · rw [Option.map_some, writeScript, hcontent]
      rfl
    · apply Marks.plain_append (a := [side.marker]) _ hmarks.braced
      cases side <;> decide
    · cases side <;> rfl

/-- The order of a derivative is marked by what stands in it, and an order that is not written is
a number. -/
theorem exists_marked_order {o : Order Node}
    (hnumber : ∀ n, o = .number n → 1 ≤ n ∧ Numeral.isWritable n = true)
    (h : ∀ s ∈ o.slot?, Marked settings s) (tm : Bool) :
  ∃ order : Option Text,
    isFirstOrder (Shape.mapSlotsOr.order (List.map (piece settings)) o) = order.isNone
    ∧ (∀ m ∈ order,
      writeOrder settings tm (Shape.mapSlotsOr.order (List.map (piece settings)) o) = .ok m)
    ∧ Marks (order.getD []) (markersOf settings.structural (o.slot?.getD []))
  := by
  cases o with
  | number n =>
    obtain ⟨hpos, hwritable⟩ := hnumber n rfl
    by_cases hn : n = 1
    · subst hn
      exact ⟨none, rfl, by simp, Marks.nil⟩
    · refine ⟨some (Numeral.write n), ?_, ?_, ?_⟩
      · simp [isFirstOrder, Shape.mapSlotsOr.order, hn]
      · intro m hm
        obtain rfl := Option.some.inj hm
        simp only [Shape.mapSlotsOr.order, writeOrder, hwritable]
        rfl
      · apply Marks.plain
        intro hback
        obtain ⟨hplain, -⟩ := Numeral.read_write hpos hwritable
        have hdigit := (Numeral.all_isDigit_of_isPlain hplain).2 _ hback
        contradiction
  | sequence s =>
    obtain ⟨m, hm, hmarks⟩ := (h s rfl).content tm
    refine ⟨some (orSpace m), rfl, ?_, hmarks.orSpace⟩
    intro order horder
    obtain rfl := Option.some.inj horder
    rw [Shape.mapSlotsOr.order, writeOrder, hm]
    rfl

end Slots

/-! ### Constructs -/

/-- A body with a display mode is marked by the mode and what marks the body. -/
theorem Marks.styled {m : Text} {names : List Text} (h : Marks m names)
    (mode : Option DisplayMode) :
  Marks (Writing.styled mode m) (styleMarkers mode ++ names)
  := by
  have hbody : Marks ([' '] ++ m) names := .plain_append (by decide) h
  rcases mode with _ | _ | _
  · apply h
  · have hstyle : Marks "\\textstyle".toList [] := .fixed (by decide)
    rw [Writing.styled, List.append_assoc]
    apply (hstyle.append hbody rfl).braced
  · have hstyle : Marks "\\displaystyle".toList ["displaystyle".toList] := .command (by decide)
    rw [Writing.styled, List.append_assoc]
    apply (hstyle.append hbody rfl).braced

/-- The spelling of a delimiter marks nothing, and no letter is at its beginning. -/
theorem marks_delimiter {glyph : Text} (h : glyph ∈ Delimiter.glyphs) (left : Bool) :
  Marks (Delimiter.spelling glyph left) []
    ∧ Text.startsWithLetter (Delimiter.spelling glyph left) = false
  := by
  have hstart : ∀ glyph ∈ Delimiter.glyphs, ∀ left,
      Text.startsWithLetter (Delimiter.spelling glyph left) = false := by
    decide +kernel
  obtain ⟨hlookup, -, -⟩ := Delimiter.spellings_checked glyph h left
  exact ⟨.common (by simp [commonTexts]) (CommandTable.mem_commands_of_lookup hlookup),
    hstart glyph h left⟩

/-- The modifier of a large operator marks nothing, and no letter is at its beginning. -/
theorem marks_modifier (mode : LimitMode) :
  Marks mode.modifier [] ∧ Text.startsWithLetter mode.modifier = false
  := by
  cases mode with
  | default => exact ⟨.nil, rfl⟩
  | _ => exact ⟨.common (l := LimitMode.table.commands) (by simp [commonTexts]) (by decide), rfl⟩

section Derivatives

variable {order : Option Text} {function differentials : Text} {os as bs : List Text}

/-- The order in front of the arguments of a derivative marks what it holds. -/
theorem marks_orderArgument (h : Marks (order.getD []) os) :
  Marks (orderArgument order) os ∧ Text.startsWithLetter (orderArgument order) = false
  := by
  cases order with
  | none => exact ⟨h, rfl⟩
  | some m => exact ⟨h.optional.bracketed, rfl⟩

/-- The arguments of a derivative mark what they hold. -/
theorem marks_derivativeArguments (longForm : Bool) (ha : Marks function as)
    (hb : Marks differentials bs) :
  Marks (derivativeArguments longForm function differentials) (as ++ bs)
    ∧ Text.startsWithLetter (derivativeArguments longForm function differentials) = false
  := by
  cases longForm with
  | false => exact ⟨ha.braced.append_braced hb, rfl⟩
  | true =>
    have hgrande : Marks grandeCommand [] := .fixed (by decide)
    refine ⟨(hb.braced.append (hgrande.append_braced ha) rfl).congr ?_, rfl⟩
    simp [or_comm]

/-- A superscript of a differential marks the order that it holds, and does not end with a command
name. -/
theorem marks_orderScript (h : Marks (order.getD []) os) :
  Marks (orderScript order) os ∧ Text.startsWithLetter (orderScript order) = false
    ∧ endsInName (orderScript order) = false
  := by
  cases order with
  | none => exact ⟨h, rfl, rfl⟩
  | some m =>
    refine ⟨.plain_append (a := ['^']) (by decide) h.braced, rfl, ?_⟩
    apply endsInName_concat (s := '^' :: '{' :: m) rfl

/-- The differentials of a derivative mark what they hold. -/
theorem marks_fractionArguments (longForm isPartial : Bool) (ho : Marks (order.getD []) os)
    (ha : Marks function as) (hb : Marks differentials bs) :
  Marks (fractionArguments longForm isPartial order function differentials) (os ++ (as ++ bs))
  := by
  obtain ⟨hscript, hstart, hends⟩ := marks_orderScript ho
  have hsign : Marks (differentialSign isPartial) [] := by
    cases isPartial with
    | false => apply Marks.plain (by decide)
    | true => apply Marks.fixed (by decide)
  have hsignEnds : endsInName (differentialSign isPartial) = false := by
    cases isPartial <;> decide
  have hbelow := (hsign.append_of_follow (hb.append hscript hstart)
    fun h => by rw [hsignEnds] at h; contradiction).braced
  cases longForm with
  | false =>
    have habove := (hsign.append_of_follow (hscript.append_of_follow ha
      fun h => by rw [hends] at h; contradiction)
      fun h => by rw [hsignEnds] at h; contradiction).braced
    apply (habove.append hbelow rfl).congr
    intro name
    simp only [List.mem_append]
    grind
  | true =>
    have habove := (hsign.append hscript hstart).braced
    apply (habove.append (hbelow.append_braced ha) rfl).congr
    intro name
    simp only [List.mem_append]
    grind

end Derivatives

namespace ShapeMarked

variable {a b c d : List Node} {p q : Option (List Node)}

theorem fraction (mode : Option DisplayMode) (ha : Marked settings a) (hb : Marked settings b) :
  ShapeMarked settings (.fraction mode a b)
  := by
  intro tm
  obtain ⟨above, habove, has⟩ := ha.group tm
  obtain ⟨below, hbelow, hbs⟩ := hb.group tm
  have hfrac : Marks ("\\frac".toList ++ braced above ++ braced below) _ :=
    ((Marks.fixed (by decide)).append_braced has).append_braced hbs
  rcases mode with _ | _ | _
  · refine ⟨_, writeShape_fraction _ habove hbelow, hfrac.congr ?_⟩
    simp [Shape.markers, Shape.children, Shape.slots]
  · refine ⟨_, writeShape_fraction _ habove hbelow, (hfrac.styled (some .inline)).congr ?_⟩
    simp [Shape.markers, Shape.children, Shape.slots, styleMarkers]
  · have hdfrac : Marks "\\dfrac".toList ["dfrac".toList] := .command (by decide)
    refine ⟨_, writeShape_fraction _ habove hbelow,
      ((hdfrac.append_braced has).append_braced hbs).congr ?_⟩
    simp [Shape.markers, Shape.children, Shape.slots]

theorem bevelledFraction (mode : Option DisplayMode) (ha : Marked settings a)
    (hb : Marked settings b) :
  ShapeMarked settings (.bevelledFraction mode a b)
  := by
  intro tm
  obtain ⟨above, habove, has⟩ := ha.group tm
  obtain ⟨below, hbelow, hbs⟩ := hb.group tm
  have hbody := (has.braced.append_plain (b := ['/']) (by decide) rfl).append_braced hbs
  refine ⟨_, writeShape_bevelledFraction mode habove hbelow, (hbody.styled mode).congr ?_⟩
  simp [Shape.markers, Shape.children, Shape.slots]

theorem sqrt (ha : Marked settings a) :
  ShapeMarked settings (.sqrt a)
  := by
  intro tm
  obtain ⟨radicand, hradicand, has⟩ := ha.group tm
  have hsqrt : Marks "\\sqrt".toList [] := .fixed (by decide)
  refine ⟨_, writeShape_sqrt hradicand, (hsqrt.append_braced has).congr ?_⟩
  simp [Shape.markers, Shape.children, Shape.slots]

theorem nthRoot (ha : Marked settings a) (hb : Marked settings b) :
  ShapeMarked settings (.nthRoot a b)
  := by
  intro tm
  obtain ⟨index, hindex, has⟩ := ha.content tm
  obtain ⟨radicand, hradicand, hbs⟩ := hb.group tm
  have hsqrt : Marks "\\sqrt".toList [] := .fixed (by decide)
  refine ⟨_, writeShape_nthRoot hindex hradicand, ?_⟩
  apply (hsqrt.append (has.optional.bracketed.append_braced hbs) rfl).congr
  simp [Shape.markers, Shape.children, Shape.slots]

theorem script (ha : Marked settings a) (hp : ∀ a ∈ p, Marked settings a)
    (hq : ∀ a ∈ q, Marked settings a) :
  ShapeMarked settings (.script a p q)
  := by
  intro tm
  obtain ⟨base, hbase, has⟩ := ha.group tm
  obtain ⟨above, habove, hps, habove'⟩ := exists_marked_script hp tm .superscript
  obtain ⟨below, hbelow, hqs, hbelow'⟩ := exists_marked_script hq tm .subscript
  refine ⟨_, writeShape_script hbase habove hbelow, ?_⟩
  rw [← List.append_assoc]
  apply ((has.braced.append hps habove').append hqs hbelow').congr
  cases p <;> cases q <;> simp [Shape.markers, Shape.children, Shape.slots, Shape.slots.present]

theorem bracket {left right : Text} {depth : Int} {scale : Option Scale}
    (hleft : left ∈ Delimiter.glyphs) (hright : right ∈ Delimiter.glyphs)
    (ha : Marked settings a) (hp : ∀ a ∈ p, Marked settings a)
    (hq : ∀ a ∈ q, Marked settings a) :
  ShapeMarked settings (.bracket left right a depth scale p q)
  := by
  intro tm
  obtain ⟨content, hcontent, has⟩ := ha.content tm
  obtain ⟨above, habove, hps, habove'⟩ := exists_marked_script hp tm .superscript
  obtain ⟨below, hbelow, hqs, hbelow'⟩ := exists_marked_script hq tm .subscript
  refine ⟨_, writeShape_bracket depth scale hcontent habove hbelow, ?_⟩
  obtain ⟨names, hnames, hsize⟩ := isSize_bracketSizes settings depth
  rw [hsize]
  have hopening : Marks ('\\' :: names.1) [] :=
    .common (l := Delimiter.sizes.map (·.1)) (by simp [commonTexts]) (by
      simp only [Delimiter.sizes, List.map_map]
      apply List.mem_map_of_mem hnames)
  have hclosing : Marks ('\\' :: names.2) [] :=
    .common (l := Delimiter.sizes.map (·.2)) (by simp [commonTexts]) (by
      simp only [Delimiter.sizes, List.map_map]
      apply List.mem_map_of_mem hnames)
  obtain ⟨hl, hlstart⟩ := marks_delimiter hleft true
  obtain ⟨hr, hrstart⟩ := marks_delimiter hright false
  have hbefore := ((hopening.append hl hlstart).append_plain (b := [' ']) (by decide) rfl)
    |>.append_of_follow has (Follow.concat rfl)
  have hafter := ((hbefore.append_plain (b := [' ']) (by decide) rfl).append hclosing rfl)
    |>.append hr hrstart
  have htext := (hafter.append hqs hbelow').append hps habove'
  simp only [bracketText, padded, List.append_assoc] at htext ⊢
  apply htext.congr
  intro name
  cases p <;> cases q <;>
    simp [Shape.markers, Shape.children, Shape.slots, Shape.slots.present, or_comm]

theorem largeOperator {operator : Text} {limitMode : LimitMode} {mode : DisplayMode}
    (hoperator : (LargeOperator.commandFor? operator).isSome) (ha : Marked settings a)
    (hb : Marked settings b) (hc : Marked settings c) :
  ShapeMarked settings (.largeOperator operator limitMode mode a b c)
  := by
  intro tm
  obtain ⟨command, hcommand⟩ := Option.isSome_iff_exists.1 hoperator
  obtain ⟨lower, hlower, has⟩ := ha.group tm
  obtain ⟨upper, hupper, hbs⟩ := hb.group tm
  obtain ⟨operand, hoperand, hcs⟩ := hc.group tm
  have hname : Marks command [] :=
    have hmem := CommandTable.mem_commands_of_lookup (LargeOperator.lookup_of_commandFor? hcommand)
    .plainCommand (k := 5) rfl (by decide) hmem (isPlainCommand_largeOperator _ hmem)
  obtain ⟨hmodifier, hstart⟩ := marks_modifier limitMode
  have hlow := ((hname.append hmodifier hstart).append_plain (b := ['_']) (by decide) rfl)
    |>.append_braced has
  have hup := (hlow.append_plain (b := ['^']) (by decide) rfl).append_braced hbs
  have hbody := (hup.append_plain (b := [' ']) (by decide) rfl).append_braced hcs
  refine ⟨_, writeShape_largeOperator limitMode mode hcommand hlower hupper hoperand,
    (hbody.styled (some mode)).congr ?_⟩
  simp [Shape.markers, Shape.children, Shape.slots]

theorem derivative {o : Order Node} {longForm isPartial : Bool} {mode : DisplayMode}
    (hnumber : ∀ n, o = .number n → 1 ≤ n ∧ Numeral.isWritable n = true)
    (ho : ∀ s ∈ o.slot?, Marked settings s) (ha : Marked settings a) (hb : Marked settings b) :
  ShapeMarked settings (.derivative o longForm isPartial mode a b)
  := by
  intro tm
  obtain ⟨order, hfirst, hwrite, hos⟩ := exists_marked_order hnumber ho tm
  simp only [Shape.map, Shape.mapSlots, Shape.mapSlotsOr, writeShape]
  split
  · rename_i hstructural
    obtain ⟨function, hfunction, has⟩ := ha.group tm
    obtain ⟨differentials, hdifferentials, hbs⟩ := hb.group tm
    refine ⟨_, writeStructural_eq hfirst hwrite hfunction hdifferentials, ?_⟩
    have hname : Marks (if isPartial then "\\pdv".toList else "\\dv".toList)
        [if isPartial then "pdv".toList else "dv".toList] := by
      cases isPartial
      · apply Marks.command (by decide)
      · apply Marks.command (by decide)
    obtain ⟨hargument, hstart⟩ := marks_orderArgument hos
    obtain ⟨harguments, hstart'⟩ := marks_derivativeArguments longForm has hbs
    have hbody := (hname.append hargument hstart).append harguments hstart'
    rw [List.append_assoc] at hbody
    apply (hbody.styled _).congr
    cases mode <;>
      simp [Shape.markers, Shape.children, Shape.slots, hstructural, styleMarkers]
  · rename_i hstructural
    obtain ⟨function, hfunction, has⟩ := ha.content tm
    obtain ⟨differentials, hdifferentials, hbs⟩ := hb.content tm
    refine ⟨_, writeAsFraction_eq hfirst hwrite hfunction hdifferentials, ?_⟩
    have hname : Marks (fractionName mode longForm) [(fractionName mode longForm).tail] := by
      cases mode <;> cases longForm <;> apply Marks.command (by decide)
    apply (hname.append (marks_fractionArguments longForm isPartial hos has.orSpace hbs.orSpace)
      _).congr
    · simp [Shape.markers, Shape.children, Shape.slots, hstructural]
    · cases longForm <;> rfl

theorem accent {type : AccentType} {position : AccentPosition}
    (hlabel : p.isSome = type.labeled) (ha : Marked settings a) (hp : ∀ a ∈ p, Marked settings a) :
  ShapeMarked settings (.accent type position a p)
  := by
  intro tm
  obtain ⟨base, hbase, has⟩ := ha.group tm
  have hname : Marks type.command [] :=
    .plainCommand (k := 11) rfl (by decide) (mem_accentCommands type) (isPlainCommand_accent type)
  cases p with
  | none =>
    have htype : type.labeled = false := hlabel.symm
    refine ⟨_, writeShape_accent _ htype hbase, (hname.append_braced has).congr ?_⟩
    simp [Shape.markers, Shape.children, Shape.slots, Shape.slots.present]
  | some l =>
    have htype : type.labeled = true := hlabel.symm
    obtain ⟨label, hlabelText, hls⟩ := (hp l rfl).group tm
    have hmarker : Marks (type.labelSide.marker :: braced label) _ :=
      .plain_append (a := [type.labelSide.marker]) (by cases type.labelSide <;> decide) hls.braced
    refine ⟨_, writeShape_labeled_accent _ htype hbase hlabelText, ?_⟩
    rw [← List.append_assoc]
    apply ((hname.append_braced has).append hmarker (by cases type.labelSide <;> rfl)).congr
    simp [Shape.markers, Shape.children, Shape.slots, Shape.slots.present]

/-- Slots that are written as groups one after the other. -/
theorem exists_groups {slots : List (List Node)} (h : ∀ a ∈ slots, Marked settings a) (tm : Bool) :
  ∃ groups, (slots.map (List.map (piece settings))).mapM (writeGroup settings tm) = .ok groups
    ∧ Marks groups.flatten (markersOf settings.structural slots.flatten)
    ∧ Text.startsWithLetter groups.flatten = false
  := by
  induction slots with
  | nil => exact ⟨[], rfl, Marks.nil, rfl⟩
  | cons a slots ih =>
    obtain ⟨content, hcontent, has⟩ := (h a List.mem_cons_self).group tm
    obtain ⟨groups, hgroups, hrest, hstart⟩ := ih fun a ha => h a (List.mem_cons_of_mem _ ha)
    refine ⟨braced content :: groups, ?_, ?_, rfl⟩
    · rw [List.map_cons, List.mapM_cons, hcontent, hgroups]
      rfl
    · rw [List.flatten_cons, List.flatten_cons, markersOf_append]
      apply has.braced.append hrest hstart

theorem integral {type : IntegralType} {style : DifferentialStyle} {limitMode : LimitMode}
    {mode : DisplayMode} (hbounds : q.isSome → p.isSome) (hnone : p = none → limitMode = .default)
    (hlower : q = none → limitMode ≠ .nolimits) (ha : Marked settings a)
    (hb : Marked settings b) (hp : ∀ a ∈ p, Marked settings a) (hq : ∀ a ∈ q, Marked settings a) :
  ShapeMarked settings (.integral type style limitMode mode a b p q)
  := by
  intro tm
  obtain ⟨groups, hgroups, hmarks, hstart⟩ := exists_groups (forall_integralSlots ha hb hp hq) tm
  have hname : ∀ form, Marks (IntegralCommand.spelling ⟨type, style, form⟩) [] := by
    intro form
    have hmem := CommandTable.mem_commands_of_lookup
      (IntegralCommand.lookup_spelling ⟨type, style, form⟩)
    apply Marks.plainCommand (k := 6) rfl (by decide) hmem (isPlainCommand_integral _ hmem)
  refine ⟨_, writeIntegral_eq hbounds hnone hlower hgroups,
    (((hname (.ofBounds p.isSome q.isSome limitMode)).append hmarks hstart).styled
      (some mode)).congr ?_⟩
  cases p <;> cases q <;>
    simp [Shape.markers, Shape.children, Shape.slots, Shape.slots.present]

/-- A grid is marked by what stands in its cells. -/
theorem exists_marked_grid {kind : GridKind} {g : Grid Node}
    (hslots : ∀ slot ∈ Shape.slots.ofGrid g, Marked settings slot.2) (tm : Bool) :
  ∃ m, writeGrid settings tm kind.environment
      (if kind = .stack then braced (List.replicate g.cols.toNat 'c') else [])
      (Shape.mapSlotsOr.grid (List.map (piece settings)) (List.map (piece settings)) g) = .ok m
    ∧ Marks m (markersOf settings.structural ((Shape.slots.ofGrid g).flatMap (·.2)))
  := by
  have hcell : ∀ i j, ∃ m, i < g.rows.toNat → j < g.cols.toNat →
      writeContent settings tm ((g.cell i j).map (piece settings)) = .ok m
      ∧ Marks m (markersOf settings.structural (g.cell i j)) := by
    intro i j
    by_cases hinside : i < g.rows.toNat ∧ j < g.cols.toNat
    · obtain ⟨m, hm, hmarks⟩ := (hslots _ (Grid.cell_mem_slots hinside.1 hinside.2)).content tm
      exact ⟨m, fun _ _ => ⟨hm, hmarks⟩⟩
    · exact ⟨[], fun hi hj => absurd ⟨hi, hj⟩ hinside⟩
  choose content hcontent using hcell
  refine ⟨_, writeGrid_eq fun i hi j hj => (hcontent i j hi hj).1, ?_⟩
  have hsep : ∀ sep, Marks (padded sep) [] → ∀ parts namess, List.Forall₂ Marks parts namess →
      Marks (Text.joinWith (padded sep) parts) namess.flatten := by
    intro sep hsep parts namess h
    apply Marks.joinWith hsep rfl _ h
    intro a
    rw [padded, ← List.append_assoc]
    exact endsInName_concat rfl
  have hrow : ∀ i ∈ List.range g.rows.toNat,
      Marks (Text.joinWith (padded ['&']) ((List.range g.cols.toNat).map (content i)))
        ((List.range g.cols.toNat).map fun j =>
          markersOf settings.structural (g.cell i j)).flatten := by
    intro i hi
    apply hsep _ (.plain (by decide))
    rw [List.forall₂_map_left_iff, List.forall₂_map_right_iff, List.forall₂_same]
    intro j hj
    apply (hcontent i j (List.mem_range.1 hi) (List.mem_range.1 hj)).2
  have hrows := hsep rowBreak (.fixed (by decide)) _ _
    (List.forall₂_map_left_iff.2 (List.forall₂_map_right_iff.2 (List.forall₂_same.2 hrow)))
  have hbody := (Marks.plain_append (a := [' ']) (by decide) hrows).append_plain (b := [' '])
    (by decide) rfl
  have hname : '\\' ∉ kind.environment := by
    rcases kind with (_ | _ | _ | _ | _ | _) | _ | _ <;> decide
  have hspecification : '\\' ∉ (if kind = .stack then braced (List.replicate g.cols.toNat 'c')
      else []) := by
    split <;> simp [braced]
  have hbegin : Marks "\\begin".toList [] := .fixed (by decide)
  have hend : Marks "\\end".toList [] := .fixed (by decide)
  have hinner := (Marks.plain_append hspecification hbody).append
    (hend.append_braced (.plain hname)) rfl
  have hall := hbegin.append ((Marks.plain hname).braced.append hinner (by split <;> rfl)) rfl
  apply hall.congr
  intro name
  rw [Shape.slots.ofGrid, Grid.coordinates, List.flatMap_map, markersOf_flatMap]
  simp

theorem function {type : Text} {info : FunctionInfo} (hinfo : FunctionInfo.find? type = some info)
    (hname : info.command.isSome → a = []) (hbase : info.form ≠ .withBase → c = [])
    (hconstraint : info.form ≠ .withConstraint → d = []) (ha : Marked settings a)
    (hb : Marked settings b) (hc : Marked settings c) (hd : Marked settings d) :
  ShapeMarked settings (.function type a b c d)
  := by
  intro tm
  obtain ⟨argument, hargument, hbs⟩ := hb.group tm
  obtain ⟨hmem, -⟩ := FunctionInfo.of_find? hinfo
  obtain ⟨script, hss, hwithBase, hwithConstraint⟩ : ∃ script,
      Marks script (markersOf settings.structural (c ++ d))
      ∧ (info.form = .withBase →
        writeGroup settings tm (c.map (piece settings)) = .ok (braced script))
      ∧ (info.form = .withConstraint →
        writeGroup settings tm (d.map (piece settings)) = .ok (braced script)) := by
    cases hform : info.form with
    | simple =>
      rw [hbase (by simp [hform]), hconstraint (by simp [hform])]
      exact ⟨[], Marks.nil, by simp, by simp⟩
    | withBase =>
      obtain ⟨script, hscript, hcs⟩ := hc.group tm
      rw [hconstraint (by simp [hform]), List.append_nil]
      exact ⟨script, hcs, fun _ => hscript, by simp⟩
    | withConstraint =>
      obtain ⟨script, hscript, hds⟩ := hd.group tm
      rw [hbase (by simp [hform]), List.nil_append]
      exact ⟨script, hds, by simp, fun _ => hscript⟩
  have hwrite := fun command =>
    @writeShape_function _ a b c d _ _ _ command _ tm hinfo hargument hwithBase hwithConstraint
  have htail : Marks (functionTail info.form script argument)
        (markersOf settings.structural (c ++ d) ++ markersOf settings.structural b)
      ∧ Text.startsWithLetter (functionTail info.form script argument) = false := by
    rw [functionTail]
    split
    · rename_i hform
      rw [hbase (by simp [hform]), hconstraint (by simp [hform])]
      exact ⟨hbs.braced, rfl⟩
    · exact ⟨.append_braced (.plain_append (a := ['_']) (by decide) hss.braced) hbs, rfl⟩
  cases hcommand : info.command with
  | some command =>
    have hmarks : Marks command [] :=
      .common (l := FunctionInfo.members.filterMap (·.command)) (by simp [commonTexts])
        (List.mem_filterMap.2 ⟨info, hmem, hcommand⟩)
    refine ⟨_, hwrite command (.inl hcommand), (hmarks.append htail.1 htail.2).congr ?_⟩
    rw [hname (by simp [hcommand])]
    intro name
    simp only [Shape.markers, Shape.children, Shape.slots, List.flatMap_cons, List.flatMap_nil,
      markersOf_append, markersOf_nil, List.mem_append]
    grind
  | none =>
    obtain ⟨name, hcontent, has⟩ := ha.content tm
    have hmarks : Marks "\\operatorname".toList [] := .fixed (by decide)
    have hstar : Marks ((if info.form = .withConstraint then ['*'] else [])
        ++ braced (orSpace name)) (markersOf settings.structural a) := by
      apply Marks.plain_append _ has.orSpace.braced
      split <;> decide
    refine ⟨_, hwrite _ (.inr ⟨hcommand, name, hcontent, rfl⟩),
      ((hmarks.append hstar (by split <;> rfl)).append htail.1 htail.2).congr ?_⟩
    intro name
    simp only [Shape.markers, Shape.children, Shape.slots, List.flatMap_cons, List.flatMap_nil,
      markersOf_append, markersOf_nil, List.mem_append]
    grind

end ShapeMarked

/-! ### Equations -/

/-- The fields of a construct can be written: a color has no backslash, delimiters have spellings,
a number of an order has few enough digits, a matrix has delimiters, and the slots of a function
that its type does not write are empty. -/
def Shape.Writable : Shape Node → Prop
  | .text _ f _ => ∀ c ∈ f.color, '\\' ∉ c
  | .bracket l r _ _ _ _ _ => l ∈ Delimiter.glyphs ∧ r ∈ Delimiter.glyphs
  | .derivative (.number n) _ _ _ _ _ => Numeral.isWritable n = true
  | .matrix t _ => t.isSome
  | .function t a _ c d =>
    ∀ info, FunctionInfo.find? t = some info →
      (info.command.isSome → a = []) ∧ (info.form ≠ .withBase → c = [])
        ∧ (info.form ≠ .withConstraint → d = [])
  | _ => True

/-- A node that a blueprint makes, with fields and a color that can be written. -/
structure Node.Writable (n : Node) : Prop where
  made : n.shape.FromBlueprint
  color : ∀ c, n.wrapping.params.color = some (.text c) → '\\' ∉ c
  shape : n.shape.Writable

/-- An equation of which all nodes can be written. -/
def Writable (ns : List Node) : Prop := ∀ n ∈ walk ns, n.Writable

/-- A construct that can be written is marked if its slots are. -/
theorem ShapeMarked.of_slots {s : Shape Node} (hsound : s.Sound) (hwritable : s.Writable)
    (htext : s.isText = false) (hslots : ∀ slot ∈ s.slots, Marked settings slot.2) :
  ShapeMarked settings s
  := by
  have hslot : ∀ slot content, (slot, content) ∈ s.slots → Marked settings content :=
    fun slot content hmem => hslots (slot, content) hmem
  have hpresent : ∀ part (p : Option (List Node)),
      (∀ slot ∈ Shape.slots.present part p, slot ∈ s.slots) → ∀ a ∈ p, Marked settings a := by
    intro part p hp a ha
    obtain rfl := Option.mem_def.1 ha
    apply hslot part a (hp _ List.mem_cons_self)
  cases s with
  | text => contradiction
  | fraction mode a b =>
    apply ShapeMarked.fraction
    · apply hslot .numerator _ (by simp [Shape.slots])
    · apply hslot .denominator _ (by simp [Shape.slots])
  | bevelledFraction mode a b =>
    apply ShapeMarked.bevelledFraction
    · apply hslot .numerator _ (by simp [Shape.slots])
    · apply hslot .denominator _ (by simp [Shape.slots])
  | sqrt a => apply ShapeMarked.sqrt (hslot .radicand _ (by simp [Shape.slots]))
  | nthRoot a b =>
    apply ShapeMarked.nthRoot
    · apply hslot .index _ (by simp [Shape.slots])
    · apply hslot .radicand _ (by simp [Shape.slots])
  | script a p q =>
    apply ShapeMarked.script
    · apply hslot .base _ (by simp [Shape.slots])
    · apply hpresent .superscript _ (by simp +contextual [Shape.slots])
    · apply hpresent .subscript _ (by simp +contextual [Shape.slots])
  | bracket left right a depth scale p q =>
    apply ShapeMarked.bracket hwritable.1 hwritable.2
    · apply hslot .content _ (by simp [Shape.slots])
    · apply hpresent .superscript _ (by simp +contextual [Shape.slots])
    · apply hpresent .subscript _ (by simp +contextual [Shape.slots])
  | largeOperator operator limitMode mode a b c =>
    apply ShapeMarked.largeOperator hsound
    · apply hslot .lower _ (by simp [Shape.slots])
    · apply hslot .upper _ (by simp [Shape.slots])
    · apply hslot .operand _ (by simp [Shape.slots])
  | derivative o longForm isPartial mode a b =>
    apply ShapeMarked.derivative
    · rintro n rfl
      exact ⟨hsound, hwritable⟩
    · apply hpresent .order _ (by simp +contextual [Shape.slots])
    · apply hslot .function _ (by simp [Shape.slots])
    · apply hslot .differentials _ (by simp [Shape.slots])
  | integral type style limitMode mode a b p q =>
    apply ShapeMarked.integral hsound.1 hsound.2.1 hsound.2.2
    · apply hslot .integrand _ (by simp [Shape.slots])
    · apply hslot .differentials _ (by simp [Shape.slots])
    · apply hpresent .lower _ (by simp +contextual [Shape.slots])
    · apply hpresent .upper _ (by simp +contextual [Shape.slots])
  | matrix t g =>
    obtain ⟨delimiters, rfl⟩ := Option.isSome_iff_exists.1 hwritable
    intro tm
    apply @exists_marked_grid _ (.matrix delimiters) _ hslots
  | stack g =>
    intro tm
    apply @exists_marked_grid _ .stack _ hslots
  | cases g =>
    intro tm
    apply @exists_marked_grid _ .cases _ hslots
  | accent type position a p =>
    apply ShapeMarked.accent hsound.2
    · apply hslot .base _ (by simp [Shape.slots])
    · apply hpresent .label _ (by simp +contextual [Shape.slots])
  | function type a b c d =>
    obtain ⟨info, hinfo⟩ := Option.isSome_iff_exists.1 hsound
    obtain ⟨hname, hbase, hconstraint⟩ := hwritable info hinfo
    apply ShapeMarked.function hinfo hname hbase hconstraint
    · apply hslot .name _ (by simp [Shape.slots])
    · apply hslot .argument _ (by simp [Shape.slots])
    · apply hslot .base _ (by simp [Shape.slots])
    · apply hslot .constraint _ (by simp [Shape.slots])

/-- Texts have no markers. -/
theorem markersOf_texts {structural : Bool} {r : List Node}
    (h : ∀ n ∈ r, ∃ v f scale, n.shape = .text v f scale) :
  markersOf structural r = []
  := by
  induction r with
  | nil => rfl
  | cons n r ih =>
    obtain ⟨l, s⟩ := n
    obtain ⟨v, f, scale, hshape⟩ := h _ List.mem_cons_self
    obtain rfl : s = .text v f scale := hshape
    rw [← List.singleton_append, markersOf_append, markersOf_mk,
      ih fun n hn => h n (List.mem_cons_of_mem _ hn)]
    rfl

/-- An equation that can be written is marked by its markers. -/
theorem Writable.marked (htable : settings.table = .builtin) {ns : List Node} (h : Writable ns) :
  Marked settings ns
  := by
  intro tm
  apply exists_written (Q := Node.Writable)
    (R := fun m g => Marks m (markersOf settings.structural g))
  · intro tm parts nss h
    rw [← List.flatMap_id', markersOf_flatMap, List.flatMap_def]
    apply Marks.join (List.forall₂_map_right_iff.2 h)
  · intro n hn w hw m g h
    apply h.wrap
    rintro c rfl
    apply hn.color c (Node.color_of_mem_outer hw)
  · intro r hne hr f hshape tm
    obtain ⟨n, rest, rfl⟩ := List.exists_cons_of_ne_nil hne
    obtain ⟨v, scale, hn⟩ := hshape n List.mem_cons_self
    have hcolor := (hr n List.mem_cons_self).shape
    rw [hn] at hcolor
    rw [htable, markersOf_texts fun k hk => by
      obtain ⟨v, scale, hk⟩ := hshape k hk
      exact ⟨v, f, scale, hk⟩]
    apply marks_textRun hcolor
  · intro n hn htext hslots tm
    obtain ⟨l, s⟩ := n
    rw [markersOf_mk]
    apply ShapeMarked.of_slots hn.made.sound hn.shape htext hslots
  · apply h

/-- The markers of a markup are those of the constructs in the equation that it is written for. -/
theorem Writable.toMarkup {ns : List Node} (h : Writable ns) (config : WriteConfig) :
  ∃ m, Formula.toMarkup .builtin config ns = .ok m
    ∧ Marks m (markersOf config.structural ns)
  := by
  have htable : (settingsFor config ns).table = .builtin := rfl
  obtain ⟨m, hm, hmarks⟩ := h.marked htable false
  refine ⟨_, ?_, hmarks.trimMarkup⟩
  rw [toMarkup_eq, hm]
  rfl

end Formula
