import Formula.Proofs.Steady

/-!
# The two families of derivatives

A derivative may be written as a fraction of two differentials, from which its order, function
and variable have to be recovered, or with these as arguments.  Whatever the order, the
function and the variable are, both are read as the same derivative.
-/

namespace Formula

open Build Markup Writing

variable {t : SymbolTable} {n : Nat} {s u m f x rest : Text} {order : Option Text}
  {mode : DisplayMode} {longForm isPartial : Bool}

namespace Reading

/-! ### Whole texts -/

/-- A text that is one item is read as the nodes of the item. -/
theorem sequence_of_item {c : Char} {cs : Text} {b : Build (List Node)}
    (hc : Text.isBlank c = false) (h : item t (c :: cs) = do return (.nodes (← b), [])) :
  sequence t (c :: cs) = b
  := by
  rw [sequence, items_cons hc, h]
  simp [Item.addTo, items_nil]

/-- Leading blanks do not change what is read. -/
theorem sequence_congr (h : Text.skipBlanks s = Text.skipBlanks u) :
  sequence t s = sequence t u
  := by
  rw [sequence, ← items_skipBlanks, h, items_skipBlanks, sequence]

/-- Reads an order, however long it is. -/
def wholeOrder (order : Option Text) : Build (Order Node) :=
  Reading.order (nestedBelow .builtin ((order.getD []).length + 1)) order

theorem order_nestedBelow (h : (order.getD []).length < n) :
  Reading.order (nestedBelow .builtin n) order = wholeOrder order
  := by
  cases order with
  | none => rfl
  | some m =>
    rw [Option.getD_some] at h
    rw [wholeOrder, Reading.order, Reading.order, Option.getD_some,
      sequence_nestedBelow (Nat.lt_succ_self _), sequence_nestedBelow h]

/-- Reads a derivative from its order, its function and its variable. -/
def ofParts (mode : DisplayMode) (longForm isPartial : Bool) (order : Option Text)
    (f x : Text) : Build (List Node) := do
  let i ← Build.fresh
  let o ← wholeOrder order
  let a ← sequence .builtin f
  let d ← sequence .builtin x
  return [.plain i (.derivative o longForm isPartial mode a d)]

theorem steady_wholeOrder (order : Option Text) :
  Alike Order.bare (wholeOrder order) (wholeOrder order)
  := steady_order (steady_nested .builtin _) order

/-- Reading a derivative from its parts does not show the supply, nor whether the function or the
variable comes first. -/
theorem alike_ofParts (mode : DisplayMode) (longForm isPartial : Bool) (order : Option Text)
    (f x : Text) :
  Build.Steady (ofParts mode longForm isPartial order f x)
    ∧ Alike (List.map Node.bare) (do
        let i ← Build.fresh
        let o ← wholeOrder order
        let d ← sequence .builtin x
        let a ← sequence .builtin f
        return [.plain i (.derivative o longForm isPartial mode a d)])
      (ofParts mode longForm isPartial order f x)
  := by
  have hnode : ∀ (i i' : Nat) {o o' : Order Node} {a a' d d' : List Node}, o.bare = o'.bare →
      a.map Node.bare = a'.map Node.bare → d.map Node.bare = d'.map Node.bare →
      Alike (List.map Node.bare)
        (pure [Node.plain i (.derivative o longForm isPartial mode a d)])
        (pure [Node.plain i' (.derivative o' longForm isPartial mode a' d')]) := by
    intro i i' o o' a a' d d' ho ha hd
    apply Alike.pure
    rw [map_bare_plain, map_bare_plain, map_bare_derivative, map_bare_derivative, ho, ha, hd]
  constructor
  · apply Alike.bind alike_fresh
    intro i i' _
    apply Alike.bind (steady_wholeOrder order)
    intro o o' ho
    apply Alike.bind (steady_sequence _ _)
    intro a a' ha
    apply Alike.bind (steady_sequence _ _)
    intro d d' hd
    apply hnode i i' ho ha hd
  · apply Alike.bind alike_fresh
    intro i i' _
    apply Alike.bind (steady_wholeOrder order)
    intro o o' ho
    apply Alike.swap (steady_sequence _ _) (steady_sequence _ _)
    intro d d' a a' hd ha
    apply hnode i i' ho ha hd

/-- A derivative command is read with the text that follows it. -/
theorem item_derivative {command : Text} {meaning : DerivativeCommand}
    {b : Build (Item × Text)}
    (hb : (match meaning with
      | .structural isPartial =>
        structuralDerivative (nestedBelow .builtin (command ++ rest).length) isPartial rest
      | .asFraction mode longForm =>
        fractionDerivative (nestedBelow .builtin (command ++ rest).length) command mode longForm
          rest) = b)
    (h : derivativeCommands.lookup command = some meaning)
    (hrest : Text.startsWithLetter rest = false) :
  item .builtin (command ++ rest) = b
  := by
  have hplain : ∀ sp ∈ derivativeCommands.commands, isPlainCommand sp = true := by decide
  have htext : ∀ sp ∈ derivativeCommands.commands, Text.code sp.tail ≠ Text.code "text".toList := by
    decide
  have hmem := CommandTable.mem_commands_of_lookup h
  have hlongest := CommandTable.longest?_command
    (fun sp hsp => isCommand_of_isPlainCommand (hplain sp hsp)) h hrest
  obtain ⟨name, rfl, hname⟩ := exists_of_isCommand (isCommand_of_isPlainCommand (hplain _ hmem))
  rw [List.cons_append] at hlongest ⊢
  rw [item_cons]
  apply step_name (k := 1) (r := derivative) rfl rfl hmem hname (htext _ hmem) hrest
  rw [derivative, hlongest, Option.map_some, ← hb]
  cases meaning <;> rfl

/-- A group that sets a display mode is read as its content, with that mode. -/
theorem sequence_styled (hm : Balanced m) :
  sequence .builtin (braced (mode.command ++ [' '] ++ m)) = sequence .builtin m >>= applyMode mode
  := by
  obtain ⟨name, hname, hinert⟩ := exists_styleName mode
  have hcommand : Balanced mode.command := by
    rw [hname]
    apply balanced_command (isLetters_of_isInertName hinert)
  have hspace : Balanced [' '] := rfl
  have hcons : braced (mode.command ++ [' '] ++ m)
      = '{' :: (mode.command ++ ([' '] ++ (m ++ ['}']))) := by simp [braced]
  have hskip : ∀ tail, Text.skipBlanks (mode.command ++ tail) = mode.command ++ tail := by
    intro tail
    rw [hname, List.cons_append, Text.skipBlanks, List.dropWhile_cons_of_neg (by decide)]
  have hlongest := CommandTable.longest?_command isCommand_style (styleCommands_command mode)
    (show Text.startsWithLetter ([' '] ++ (m ++ ['}'])) = false from rfl)
  have hgroup : Markup.group (mode.command ++ ([' '] ++ (m ++ ['}'])))
      = (mode.command ++ ([' '] ++ m), []) := by
    have := ((hcommand.append hspace).append hm).group []
    simpa using this
  rw [hcons]
  apply sequence_of_item (by decide)
  have hstyle : style .builtin
      (nestedBelow .builtin ((mode.command ++ ([' '] ++ (m ++ ['}']))).length + 1))
      ('{' :: (mode.command ++ ([' '] ++ (m ++ ['}']))))
      = some (do return (.nodes (← sequence .builtin m >>= applyMode mode), [])) := by
    rw [style, hskip, hlongest, Option.map_some]
    simp only [hgroup, hskip, List.drop_left]
    rw [sequence_nestedBelow (by simp; omega), List.singleton_append, items_blank (by decide),
      bind_assoc]
    rfl
  rw [item_cons, step_eq (k := 0) rfl (by simp) hstyle]

end Reading

/-! ### Derivatives with arguments -/

/-- The command of a derivative with its function and its variable as arguments. -/
def structuralName (isPartial : Bool) : Text :=
  if isPartial then "\\pdv".toList else "\\dv".toList

/-- An order between square brackets. -/
def orderBrackets (order : Option Text) : Text := order.elim [] fun m => ['['] ++ m ++ [']']

/-- A derivative in a line with its function and its variable as arguments. -/
def structuralCore (longForm isPartial : Bool) (order : Option Text) (f x : Text) : Text :=
  structuralName isPartial ++ (orderBrackets order ++ derivativeArguments longForm f x)

/-- A derivative with its function and its variable as arguments; one in display style stands in
a group of that style. -/
def structuralMarkup (mode : DisplayMode) (longForm isPartial : Bool) (order : Option Text)
    (f x : Text) : Text :=
  match mode with
  | .inline => structuralCore longForm isPartial order f x
  | .display =>
    braced (DisplayMode.display.command ++ [' '] ++ structuralCore longForm isPartial order f x)

/-- A derivative as a fraction of two differentials. -/
def fractionMarkup (mode : DisplayMode) (longForm isPartial : Bool) (order : Option Text)
    (f x : Text) : Text :=
  fractionName mode longForm ++ fractionArguments longForm isPartial order f x

/-- An order that may stand between square brackets, and between braces. -/
def Enclosable (o : Text) : Prop := Balanced o ∧ '[' ∉ o ∧ ']' ∉ o

instance (o : Text) : Decidable (Enclosable o) := inferInstanceAs (Decidable (_ ∧ _))

/-- An order in square brackets is read as a whole. -/
theorem optional_orderBrackets (ho : ∀ o ∈ order, Enclosable o) (tail : Text) :
  Markup.optional (orderBrackets order ++ '{' :: tail) = (order, '{' :: tail)
  := by
  cases order with
  | none => rfl
  | some o =>
    obtain ⟨hbalanced, hopen, hclose⟩ := ho o rfl
    have hcons : orderBrackets (some o) ++ '{' :: tail = '[' :: (o ++ ']' :: '{' :: tail) := by
      simp [orderBrackets]
    rw [Markup.optional, hcons, Text.skipBlanks, List.dropWhile_cons_of_neg (by decide)]
    simp only [untilSquare_append hbalanced hopen hclose, untilSquare, Option.map_some,
      Option.getD_some, prepend, List.append_nil]

theorem balanced_structuralCore (ho : ∀ o ∈ order, Enclosable o) (hf : Balanced f)
    (hx : Balanced x) :
  Balanced (structuralCore longForm isPartial order f x)
  := by
  have hname : Balanced (structuralName isPartial) := by
    cases isPartial
    · exact @balanced_command "dv".toList rfl
    · exact @balanced_command "pdv".toList rfl
  have horder : Balanced (orderBrackets order) := by
    cases order with
    | none => rfl
    | some o =>
      have hopen : Balanced ['['] := rfl
      have hclose : Balanced [']'] := rfl
      apply (hopen.append (ho o rfl).1).append hclose
  have hgrande : Balanced grandeCommand := @balanced_command "grande".toList rfl
  have harguments : Balanced (derivativeArguments longForm f x) := by
    rw [derivativeArguments]
    split
    · apply hx.braced.append (hgrande.append hf.braced)
    · apply hf.braced.append hx.braced
  apply hname.append (horder.append harguments)

namespace Reading

/-- A derivative with arguments is read as its parts; in long form the variable comes first. -/
theorem alike_sequence_structuralCore (longForm isPartial : Bool)
    (ho : ∀ o ∈ order, Enclosable o) (hf : Balanced f) (hx : Balanced x) :
  Alike (List.map Node.bare) (sequence .builtin (structuralCore longForm isPartial order f x))
    (ofParts .inline longForm isPartial order f x)
  := by
  have hlookup : derivativeCommands.lookup (structuralName isPartial)
      = some (.structural isPartial) := by
    cases isPartial <;> decide
  obtain ⟨tail, htail⟩ : ∃ tail, derivativeArguments longForm f x = '{' :: tail := by
    cases longForm <;> exact ⟨_, rfl⟩
  have hletter : Text.startsWithLetter
      (orderBrackets order ++ derivativeArguments longForm f x) = false := by
    rw [htail]
    cases order <;> rfl
  have hoptional := optional_orderBrackets ho tail
  rw [← htail] at hoptional
  have hhead : ∃ cs, structuralCore longForm isPartial order f x = '\\' :: cs := by
    cases isPartial <;> exact ⟨_, rfl⟩
  obtain ⟨cs, hcs⟩ := hhead
  have horder : (order.getD []).length < (structuralCore longForm isPartial order f x).length := by
    rw [structuralCore, htail]
    cases order <;> simp only [orderBrackets, Option.elim, Option.getD_none, Option.getD_some,
      List.length_append, List.length_cons, List.length_nil] <;> omega
  have hlength : f.length + x.length < (structuralCore longForm isPartial order f x).length := by
    rw [structuralCore, derivativeArguments]
    split <;> simp only [List.length_append, length_braced] <;> omega
  have hread : sequence .builtin (structuralCore longForm isPartial order f x)
      = if longForm then do
          let i ← Build.fresh
          let o ← wholeOrder order
          let d ← sequence .builtin x
          let a ← sequence .builtin f
          return [.plain i (.derivative o true isPartial .inline a d)]
        else ofParts .inline false isPartial order f x := by
    rw [hcs]
    apply sequence_of_item (by decide)
    rw [← hcs]
    apply item_derivative _ hlookup hletter
    simp only [structuralDerivative, hoptional]
    cases longForm with
    | false =>
      have hgrande : command? grandeCommand (Text.skipMargin (braced x)) = none := rfl
      have hargument : argument (braced f ++ braced x) = (f, braced x) := hf.argument _
      have hgroup : nextGroup? (braced x) = some (x, []) := by
        have := hx.nextGroup? []
        rwa [List.append_nil] at this
      simp only [derivativeArguments, Bool.false_eq_true, if_false, hargument, hgrande, hgroup]
      rw [structuralCore, derivativeArguments, if_neg (by simp)] at horder hlength
      rw [order_nestedBelow horder, sequence_nestedBelow (by omega),
        sequence_nestedBelow (by omega)]
      simp only [ofParts, bind_assoc, pure_bind]
      rfl
    | true =>
      have hgrande : command? grandeCommand (Text.skipMargin (grandeCommand ++ braced f))
          = some (braced f) := by
        have := @command?_command (braced f) "grande".toList "grande".toList rfl rfl rfl
        rwa [if_pos rfl] at this
      have hvariable : argument (braced x ++ (grandeCommand ++ braced f))
          = (x, grandeCommand ++ braced f) := hx.argument _
      have hfunction : argument (braced f) = (f, []) := by
        have := hf.argument []
        rwa [List.append_nil] at this
      simp only [derivativeArguments, if_true, hvariable, hgrande, hfunction]
      rw [structuralCore, derivativeArguments, if_pos rfl] at horder hlength
      rw [order_nestedBelow horder, sequence_nestedBelow (by omega),
        sequence_nestedBelow (by omega)]
      simp only [bind_assoc, pure_bind]
      rfl
  rw [hread]
  cases longForm with
  | false => apply (alike_ofParts _ _ _ _ _ _).1
  | true => apply (alike_ofParts _ _ _ _ _ _).2

/-! ### Derivatives as fractions -/

/-- A derivative as a fraction of two differentials is read as its parts. -/
theorem sequence_fractionMarkup (mode : DisplayMode) (longForm isPartial : Bool)
    (ho : ∀ o ∈ order, Balanced o) (hf : Balanced f) (hx : Balanced x) (hf' : Powerless f)
    (hx' : Powerless x) :
  sequence .builtin (fractionMarkup mode longForm isPartial order f x)
    = ofParts mode longForm isPartial order f x
  := by
  have hlookup : derivativeCommands.lookup (fractionName mode longForm)
      = some (.asFraction mode longForm) := by
    cases mode <;> cases longForm <;> decide
  have hletter : Text.startsWithLetter (fractionArguments longForm isPartial order f x) = false := by
    cases longForm <;> rfl
  obtain ⟨cs, hcs⟩ : ∃ cs, fractionMarkup mode longForm isPartial order f x = '\\' :: cs := by
    cases mode <;> cases longForm <;> exact ⟨_, rfl⟩
  have hsign : Balanced (differentialSign isPartial) :=
    (closed_differentialSign isPartial : Closed false _).balanced
  have hscript : Balanced (orderScript order) := by
    cases order with
    | none => rfl
    | some o =>
      have hpower : Balanced ['^'] := rfl
      apply hpower.append (ho o rfl).braced
  have habove : Balanced (differentialSign isPartial ++ (orderScript order ++ f)) :=
    hsign.append (hscript.append hf)
  have hbelow : Balanced (differentialSign isPartial ++ (x ++ orderScript order)) :=
    hsign.append (hx.append hscript)
  have hargument : ∀ {m : Text}, Balanced m → ∀ rest, argument (braced m ++ rest) = (m, rest) :=
    fun hm rest => hm.argument rest
  have hlast : ∀ {m : Text}, Balanced m → argument (braced m) = (m, []) := by
    intro m hm
    have := hargument hm []
    rwa [List.append_nil] at this
  have hblank := skipBlanks_skipBlanks x
  have hskip := Text.length_skipBlanks_le x
  have hscriptLength : (order.getD []).length ≤ (orderScript order).length := by
    cases order <;> simp only [orderScript, scriptText, Option.elim, Option.getD_none,
      Option.getD_some, List.length_cons, length_braced, List.length_nil] <;> omega
  have hlength : (orderScript order).length + f.length + x.length
      < (fractionName mode longForm ++ fractionArguments longForm isPartial order f x).length := by
    rw [fractionArguments]
    split <;> simp only [List.length_append, length_braced] <;> omega
  rw [hcs]
  apply sequence_of_item (by decide)
  rw [← hcs]
  apply item_derivative _ hlookup hletter
  dsimp only
  have hinside := fun {s : Text} (hs : s.length ≤ f.length + x.length) =>
    sequence_nestedBelow (t := .builtin) (u := s) (lt_of_le_of_lt hs (by omega :
      f.length + x.length
        < (fractionName mode longForm ++ fractionArguments longForm isPartial order f x).length))
  have horder : Reading.order (nestedBelow .builtin
      (fractionName mode longForm ++ fractionArguments longForm isPartial order f x).length) order
      = wholeOrder order := order_nestedBelow (by omega)
  generalize (fractionName mode longForm
    ++ fractionArguments longForm isPartial order f x).length = n at hinside horder
  cases longForm with
  | false =>
    obtain ⟨body, htop, hbody, hbodyLength⟩ := Differential.split?_numerator isPartial ho hf'
    obtain ⟨bottom, hbottom, hpartial, hvariable⟩ :=
      Differential.split?_denominator isPartial ho hx' body
    have hpair : Differential.pair? (differentialSign isPartial ++ (orderScript order ++ f))
        (differentialSign isPartial ++ (x ++ orderScript order)) false
        = some ({ isPartial, order, rest := body }, bottom) := by
      simp [Differential.pair?, htop, hbottom, hpartial]
    simp only [fractionDerivative, fractionArguments, Bool.false_eq_true, if_false,
      hargument habove, hlast hbelow, hpair, hvariable]
    rw [horder, hinside (by omega), hinside (by omega), ← sequence, ← sequence,
      sequence_congr hbody, sequence_congr hblank]
    simp only [ofParts, bind_assoc, pure_bind]
  | true =>
    obtain ⟨body, htop, -, hbodyLength⟩ :=
      @Differential.split?_numerator [] isPartial _ ho (by decide)
    obtain ⟨bottom, hbottom, hpartial, hvariable⟩ :=
      Differential.split?_denominator isPartial ho hx' body
    obtain rfl := List.eq_nil_of_length_eq_zero (Nat.le_zero.1 hbodyLength)
    rw [List.append_nil] at htop
    have hpair : Differential.pair? (differentialSign isPartial ++ orderScript order)
        (differentialSign isPartial ++ (x ++ orderScript order)) true
        = some ({ isPartial, order, rest := [] }, bottom) := by
      simp [Differential.pair?, htop, hbottom, hpartial, Text.isAllBlank]
    simp only [fractionDerivative, fractionArguments, if_true,
      hargument (hsign.append hscript), hargument hbelow, hlast hf, hpair, hvariable]
    rw [horder, hinside (by omega), hinside (by omega), ← sequence, ← sequence,
      sequence_congr hblank]
    simp only [ofParts, bind_assoc, pure_bind]

end Reading

/-! ### Both families -/

/-- A derivative that is written with arguments is read as its parts. -/
theorem alike_sequence_structuralMarkup (mode : DisplayMode) (longForm isPartial : Bool)
    (ho : ∀ o ∈ order, Enclosable o) (hf : Balanced f) (hx : Balanced x) :
  Alike (List.map Node.bare)
    (Reading.sequence .builtin (structuralMarkup mode longForm isPartial order f x))
    (Reading.ofParts mode longForm isPartial order f x)
  := by
  have hcore := Reading.alike_sequence_structuralCore longForm isPartial ho hf hx
  cases mode with
  | inline => apply hcore
  | display =>
    have hstyled : Reading.ofParts .display longForm isPartial order f x
        = Reading.ofParts .inline longForm isPartial order f x
          >>= Reading.applyMode .display := by
      simp only [Reading.ofParts, bind_assoc, pure_bind]
      rfl
    rw [structuralMarkup, Reading.sequence_styled (balanced_structuralCore ho hf hx), hstyled]
    apply Alike.bind hcore
    intro ns ns' hns
    apply Reading.alike_applyMode hns

/-- Both families of derivatives are read as the same tree up to identifiers, or both fail,
whatever stands in the order, the function and the variable. -/
theorem alike_ofMarkup_families (config : Config) (mode : DisplayMode)
    (longForm isPartial : Bool) {order : Option Text} {f x : Text}
    (ho : ∀ o ∈ order, Enclosable o) (hf : Balanced f) (hx : Balanced x) (hf' : Powerless f)
    (hx' : Powerless x) :
  Alike (List.map Node.bare)
    (ofMarkup .builtin config (fractionMarkup mode longForm isPartial order f x))
    (ofMarkup .builtin config (structuralMarkup mode longForm isPartial order f x))
  := by
  have hfraction := Reading.sequence_fractionMarkup mode longForm isPartial
    (fun o h => (ho o h).1) hf hx hf' hx'
  have hstructural := alike_sequence_structuralMarkup mode longForm isPartial ho hf hx
  apply Alike.bind (v := List.map Node.bare)
  · rw [hfraction]
    apply hstructural.symm
  · intro ns ns' hns
    apply Alike.pure
    have hstore := map_bare_store config ns
    rw [hns, ← map_bare_store] at hstore
    apply hstore

/-- A second derivative whose variable ends in the same power as the differential. -/
theorem alike_ofMarkup_families_power :
  (Enclosable ['2'] ∧ Balanced ['f'] ∧ Balanced "x^{2}".toList ∧ Powerless ['f']
      ∧ Powerless "x^{2}".toList)
    ∧ Alike (List.map Node.bare)
      (ofMarkup .builtin {} "\\derivfrac{d^{2}f}{dx^{2}^{2}}".toList)
      (ofMarkup .builtin {} "\\dv[2]{f}{x^{2}}".toList)
  := by
  have hchecked : Enclosable ['2'] ∧ Balanced ['f'] ∧ Balanced "x^{2}".toList ∧ Powerless ['f']
      ∧ Powerless "x^{2}".toList := by
    decide
  have hfraction : "\\derivfrac{d^{2}f}{dx^{2}^{2}}".toList
      = fractionMarkup .inline false false (some ['2']) ['f'] "x^{2}".toList := by
    decide
  have hstructural : "\\dv[2]{f}{x^{2}}".toList
      = structuralMarkup .inline false false (some ['2']) ['f'] "x^{2}".toList := by
    decide
  refine ⟨hchecked, ?_⟩
  obtain ⟨ho, hf, hx, hf', hx'⟩ := hchecked
  rw [hfraction, hstructural]
  apply alike_ofMarkup_families {} .inline false false (by simpa using ho) hf hx hf' hx'

end Formula
