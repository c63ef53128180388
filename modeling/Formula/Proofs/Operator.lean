import Formula.Proofs.Construct

/-!
# Written operators and functions

Large operators, integrals and functions are commands with a row of groups after them, some
of which are marked as scripts.
-/

namespace Formula

open Build Markup Writing

variable {cell : Bool} {a b c rest : Text} {n : Nat} {as bs cs : List Node}

/-! ### Large operators -/

theorem isPlainCommand_largeOperator :
  ∀ sp ∈ LargeOperator.table.commands, isPlainCommand sp = true
  := by decide

/-- The command of a glyph is read as the glyph. -/
theorem LargeOperator.lookup_of_commandFor? {glyph command : Text}
    (h : commandFor? glyph = some command) :
  table.lookup command = some glyph
  := by
  obtain ⟨⟨_, _⟩, hfind, rfl⟩ := Option.map_eq_some_iff.1 h
  have hglyph := List.find?_some hfind
  simp only [decide_eq_true_eq] at hglyph
  rw [← hglyph]
  have hall : ∀ entry ∈ table.entries, table.lookup entry.1 = some entry.2 := by decide
  apply hall _ (List.mem_of_find?_eq_some hfind)

/-- The modifier of a limit mode is found before a script, if there is one. -/
theorem LimitMode.longest?_modifier (mode : LimitMode) (side : ScriptSide) (rest : Text) :
  table.longest? (Text.skipBlanks (mode.modifier ++ side.marker :: rest))
    = if mode = .default then none else some (mode.modifier, mode, side.marker :: rest)
  := by
  have hskip : Text.skipBlanks (mode.modifier ++ side.marker :: rest)
      = mode.modifier ++ side.marker :: rest := by
    cases mode <;> cases side <;> rfl
  rw [hskip]
  by_cases hmode : mode = .default
  · rw [if_pos hmode, hmode]
    apply Reading.Free.table_eq_none
    apply Reading.free_of_start (p := [side.marker])
    cases side <;> decide
  · rw [if_neg hmode]
    apply CommandTable.longest?_command (by decide) (LimitMode.lookup_modifier hmode)
    cases side <;> rfl

theorem closed_modifier (mode : LimitMode) :
  Closed cell mode.modifier
  := by
  cases mode with
  | default => apply Closed.nil
  | limits => apply Closed.command _ (by decide)
  | nolimits => apply Closed.command _ (by decide)

/-- What stands behind the command of a large operator is closed when its arguments are. -/
theorem closed_largeOperatorArguments (mode : LimitMode) (ha : Closed false a) (hb : Closed false b)
    (hc : Closed false c) :
  Closed cell (mode.modifier ++ (scriptText .subscript (some a)
    ++ (scriptText .superscript (some b) ++ ([' '] ++ braced c))))
  := by
  have hoperand : Closed cell ([' '] ++ braced c) :=
    Closed.append_braced (Closed.plain (by simp) (by simp)) hc
  have hlower : ∀ m ∈ some a, Closed false m := by simpa using ha
  have hupper : ∀ m ∈ some b, Closed false m := by simpa using hb
  apply (closed_modifier mode).append _ (Follow.cons rfl)
  apply (closed_scriptText hlower).append _ (Follow.cons rfl)
  apply (closed_scriptText hupper).append hoperand (Follow.cons rfl)

/-- Reads the bounds and the operand of a large operator. -/
def Reading.largeOperatorTail (nested : Nested) (i : Nat) (glyph : Text) (mode : LimitMode)
    (s : Text) : Build (Item × Text) := do
  let (bounds, rest) ← Bounds.read nested s
  let (operand, rest) ← nested.group? rest
  return (.node i (.largeOperator glyph mode .inline (bounds.subscript.getD [])
    (bounds.superscript.getD []) operand), rest)

/-- A large operator with its bounds and its operand. -/
theorem spells_largeOperator {glyph command : Text} {mode : LimitMode}
    (hcommand : LargeOperator.commandFor? glyph = some command)
    (ha : Spelled .builtin false false a as) (hb : Spelled .builtin false false b bs)
    (hc : Spelled .builtin false false c cs) :
  Spells .builtin cell (command ++ (mode.modifier ++ (scriptText .subscript (some a)
      ++ (scriptText .superscript (some b) ++ ([' '] ++ braced c)))))
    [.plain 0 (.largeOperator glyph mode .inline as bs cs)]
  := by
  have hlookup := LargeOperator.lookup_of_commandFor? hcommand
  have hmem := CommandTable.mem_commands_of_lookup hlookup
  have hlower : SlotSpelled (some a) (some as) := .some ha
  have hupper : SlotSpelled (some b) (some bs) := .some hb
  apply Spells.withArguments (k := 5) (r := Reading.largeOperator) rfl rfl hmem
    (isPlainCommand_largeOperator _ hmem)
  · cases mode <;> rfl
  · apply (whole_braced c).append.append.append.append
  · apply closed_largeOperatorArguments mode ha.closed hb.closed hc.closed
  intro n rest hn hargs _ hrest
  have hlongest := CommandTable.longest?_command
    (fun sp hsp => isCommand_of_isPlainCommand (isPlainCommand_largeOperator sp hsp)) hlookup
    hargs
  refine ⟨_, by rw [Reading.largeOperator, hlongest, Option.map_some], ?_⟩
  have hn' : mode.modifier.length + ((scriptText .subscript (some a)).length
      + ((scriptText .superscript (some b)).length + (1 + (c.length + 2)))) < n := by
    simpa only [List.length_append, length_braced, List.length_singleton] using hn
  have hspace : scriptMarker? ([' '] ++ braced c ++ rest) = none := rfl
  have hgroup : ∀ nested : Nested, nested.group? ([' '] ++ braced c ++ rest)
      = nested.group? (braced c ++ rest) := fun _ => rfl
  have hread : ∀ i, Gives (Reading.largeOperatorTail (Reading.nestedBelow .builtin n) i glyph mode
      (scriptText .subscript (some a)
        ++ (scriptText .superscript (some b) ++ ([' '] ++ braced c ++ rest))))
      [.plain 0 (.largeOperator glyph mode .inline as bs cs)] rest := by
    intro i
    apply Returns.bind (returns_read hlower hupper (by decide) (by omega) hspace)
    rintro ⟨⟨superscript, subscript⟩, _⟩ ⟨hsub, hsup, rfl⟩
    simp only [hgroup]
    apply Returns.bind (hc.returns_group? (by omega) rest)
    rintro ⟨operand, _⟩ ⟨hoperand, rfl⟩
    obtain ⟨lower, rfl, rfl⟩ := Option.map_eq_some_iff.1 hsub
    obtain ⟨upper, rfl, rfl⟩ := Option.map_eq_some_iff.1 hsup
    apply Gives.node
    rw [← hoperand]
    rfl
  have hargs : mode.modifier ++ (scriptText .subscript (some a)
        ++ (scriptText .superscript (some b) ++ ([' '] ++ braced c))) ++ rest
      = mode.modifier ++ ScriptSide.subscript.marker :: (braced a
        ++ (scriptText .superscript (some b) ++ ([' '] ++ braced c ++ rest))) := by
    simp [scriptText, ScriptSide.marker]
  apply Returns.bind (meets_fresh fun _ => trivial)
  intro i _
  simp only [hargs, LimitMode.longest?_modifier]
  by_cases hmode : mode = .default
  · simp only [if_pos hmode]
    rw [hmode] at hread ⊢
    apply hread i
  · simp only [if_neg hmode]
    apply hread i

/-! ### Integrals -/

/-- A group, if there is one. -/
def groupText (slot : Option Text) : Text := slot.elim [] braced

theorem closed_groupText {p : Option Text} (h : ∀ m ∈ p, Closed false m) :
  Closed cell (groupText p)
  := by
  cases p with
  | none => apply Closed.nil
  | some m => apply (h m rfl).braced

theorem whole_groupText {m : Text} {p : Option Text} (h : Whole m) :
  Whole (m ++ groupText p)
  := by
  cases p with
  | none =>
    rw [groupText, Option.elim, List.append_nil]
    apply h
  | some m' => apply (whole_braced m').append

/-- What stands behind the command of an integral is closed when its arguments are. -/
theorem closed_integralArguments {p q : Option Text} (ha : Closed false a) (hb : Closed false b)
    (hp : ∀ m ∈ p, Closed false m) (hq : ∀ m ∈ q, Closed false m) :
  Closed cell (braced a ++ (braced b ++ (groupText p ++ groupText q)))
  := by
  apply ha.braced_append
  apply hb.braced_append
  apply (closed_groupText hp).append (closed_groupText hq)
  cases q with
  | none => apply Follow.nil_right
  | some m => apply Follow.cons rfl

theorem whole_integralArguments {p q : Option Text} :
  Whole (braced a ++ (braced b ++ (groupText p ++ groupText q)))
  := by
  rw [← List.append_assoc, ← List.append_assoc]
  apply whole_groupText (whole_groupText (whole_braced b).append)

theorem isPlainCommand_integral :
  ∀ sp ∈ IntegralCommand.table.commands, isPlainCommand sp = true
  := by decide

theorem IntegralCommand.lookup_spelling (command : IntegralCommand) :
  table.lookup command.spelling = some command
  := by
  have hall : ∀ command ∈ members, table.lookup command.spelling = some command := by
    decide
  apply hall
  obtain ⟨type, style, form⟩ := command
  simp only [members, List.mem_flatMap, List.mem_map]
  refine ⟨type, ?_, style, ?_, form, ?_, rfl⟩
  · cases type <;> decide
  · cases style <;> decide
  · cases form <;> decide

/-- A bound that a command has is read. -/
theorem returns_bound {p : Option Text} {ps : Option (List Node)} (h : SlotSpelled p ps)
    (hn : (groupText p).length < n) :
  Returns (Reading.integral.bound p.isSome (Reading.nestedBelow .builtin n)
      (groupText p ++ rest)) fun read =>
    read.1.map (List.map Node.bare) = ps ∧ read.2 = rest
  := by
  cases h with
  | none => apply Returns.pure ⟨rfl, rfl⟩
  | @some m ms hm =>
    simp only [groupText, Option.elim, length_braced] at hn ⊢
    apply Returns.bind (hm.returns_argument (by omega) rest)
    rintro ⟨made, _⟩ ⟨hmade, rfl⟩
    apply Returns.pure
    exact ⟨congrArg some hmade, rfl⟩

/-- An integral with the bounds that its command has. -/
theorem spells_integral {command : IntegralCommand} {p q : Option Text}
    {ps qs : Option (List Node)} (ha : Spelled .builtin false false a as)
    (hb : Spelled .builtin false false b bs) (hp : SlotSpelled p ps) (hq : SlotSpelled q qs)
    (hlower : command.form.hasLower = p.isSome) (hupper : command.form.hasUpper = q.isSome) :
  Spells .builtin cell (command.spelling ++ (braced a ++ (braced b ++ (groupText p ++ groupText q))))
    [.plain 0 (.integral command.type command.style
      (command.form.bounds.fold command.form.limitMode) .inline as bs ps qs)]
  := by
  have hlookup := IntegralCommand.lookup_spelling command
  have hmem := CommandTable.mem_commands_of_lookup hlookup
  apply Spells.withArguments (k := 6) (r := Reading.integral) rfl rfl hmem
    (isPlainCommand_integral _ hmem) rfl
  · apply whole_integralArguments
  · apply closed_integralArguments ha.closed hb.closed hp.closed hq.closed
  intro n rest hn hargs _ _
  have hlongest := CommandTable.longest?_command
    (fun sp hsp => isCommand_of_isPlainCommand (isPlainCommand_integral sp hsp)) hlookup hargs
  refine ⟨_, by rw [Reading.integral, hlongest, Option.map_some], ?_⟩
  simp only [List.length_append, length_braced] at hn
  simp only [List.append_assoc, hlower, hupper]
  apply Returns.bind (meets_fresh fun _ => trivial)
  intro i _
  apply Returns.bind (ha.returns_argument (by omega) _)
  rintro ⟨integrand, _⟩ ⟨hintegrand, rfl⟩
  apply Returns.bind (hb.returns_argument (by omega) _)
  rintro ⟨differentials, _⟩ ⟨hdifferentials, rfl⟩
  apply Returns.bind (returns_bound hp (by omega))
  rintro ⟨lower, _⟩ ⟨hlower, rfl⟩
  apply Returns.bind (returns_bound hq (by omega))
  rintro ⟨upper, _⟩ ⟨hupper, rfl⟩
  apply Gives.node
  rw [← hintegrand, ← hdifferentials, ← hlower, ← hupper]
  rfl

/-! ### Functions -/

/-- What is written after the name of a function of a form: its base or constraint, if it has
one, and its argument. -/
def functionTail (form : FunctionForm) (script argument : Text) : Text :=
  if form = .simple then braced argument
  else scriptText .subscript (some script) ++ braced argument

theorem scriptMarker?_functionTail (form : FunctionForm) (script argument rest : Text) :
  scriptMarker? (functionTail form script argument ++ rest)
    = if form = .simple then none
      else some (.subscript, braced script ++ (braced argument ++ rest))
  := by
  rw [functionTail]
  split
  · rfl
  · simp only [scriptText, Option.elim, List.cons_append, List.append_assoc,
      scriptMarker?_marker]

theorem closed_functionTail (form : FunctionForm) (ha : Closed false a) (hb : Closed false b) :
  Closed cell (functionTail form a b)
  := by
  rw [functionTail]
  split
  · apply hb.braced
  · apply (closed_scriptText (by simpa using ha)).append_braced hb

theorem whole_functionTail (form : FunctionForm) (script argument : Text) :
  Whole (functionTail form script argument)
  := by
  rw [functionTail]
  split
  · apply whole_braced
  · apply (whole_braced argument).append

/-- What is written after the name of a function is read. -/
theorem gives_functionArguments {type : Text} {info : FunctionInfo} {name names : List Node}
    {i : Nat} (hinfo : FunctionInfo.find? type = some info) (ha : Spelled .builtin false false a as)
    (hb : Spelled .builtin false false b bs) (hname : name.map Node.bare = names)
    (hn : (functionTail info.form a b).length < n) :
  Gives (Reading.functionArguments (Reading.nestedBelow .builtin n) i type name
      (functionTail info.form a b ++ rest))
    [.plain 0 (.function type names bs (if info.form = .withBase then as else [])
      (if info.form = .withConstraint then as else []))] rest
  := by
  have hmarker := scriptMarker?_functionTail info.form a b rest
  rw [Reading.functionArguments]
  simp only [hinfo, Option.map_some, Option.getD_some, hmarker]
  obtain ⟨_, form, _⟩ := info
  simp only at hn ⊢
  cases form with
  | simple =>
    simp only [functionTail, if_true, length_braced] at hn ⊢
    apply Returns.bind (Returns.pure rfl)
    rintro _ rfl
    apply Returns.bind (hb.returns_group? (by omega) rest)
    rintro ⟨argument, _⟩ ⟨hargument, rfl⟩
    apply Gives.node
    rw [← hargument, ← hname]
    rfl
  | withBase =>
    simp only [functionTail, reduceCtorEq, if_false, List.length_append, scriptText, Option.elim,
      List.length_cons, length_braced] at hn
    simp only [reduceCtorEq, if_true, if_false]
    apply Returns.bind (ha.returns_argument (by omega) _)
    rintro ⟨base, _⟩ ⟨hbase, rfl⟩
    apply Returns.bind (Returns.pure rfl)
    rintro _ rfl
    apply Returns.bind (hb.returns_group? (by omega) rest)
    rintro ⟨argument, _⟩ ⟨hargument, rfl⟩
    apply Gives.node
    rw [← hargument, ← hname, ← hbase]
    rfl
  | withConstraint =>
    simp only [functionTail, reduceCtorEq, if_false, List.length_append, scriptText, Option.elim,
      List.length_cons, length_braced] at hn
    simp only [reduceCtorEq, if_true, if_false]
    apply Returns.bind (ha.returns_argument (by omega) _)
    rintro ⟨constraint, _⟩ ⟨hconstraint, rfl⟩
    apply Returns.bind (Returns.pure rfl)
    rintro _ rfl
    apply Returns.bind (hb.returns_group? (by omega) rest)
    rintro ⟨argument, _⟩ ⟨hargument, rfl⟩
    apply Gives.node
    rw [← hargument, ← hname, ← hconstraint]
    rfl

theorem isPlainCommand_function : ∀ sp ∈ FunctionInfo.table.commands, isPlainCommand sp = true
  := by decide

/-- The command of a function is not an operator name. -/
theorem operatorName?_function {command : Text} (hmem : command ∈ FunctionInfo.table.commands)
    (hrest : Text.startsWithLetter rest = false) :
  Reading.operatorName? (command ++ rest) = none
  := by
  have hnot : ∀ sp ∈ FunctionInfo.table.commands, ¬ "\\operatorname".toList <+: sp := by decide
  obtain ⟨name, rfl, -⟩ :=
    exists_of_isCommand (isCommand_of_isPlainCommand (isPlainCommand_function _ hmem))
  have hprefix : ¬ "operatorname".toList <+: name ++ rest := by
    apply not_prefix_append rfl hrest
    intro h
    apply hnot _ hmem
    apply List.cons_prefix_cons.2 ⟨rfl, h⟩
  rw [Reading.operatorName?]
  cases h : Text.after? "\\operatorname".toList ('\\' :: name ++ rest) with
  | none => rfl
  | some tail =>
    apply absurd _ hprefix
    have hsplit := Text.after?_eq_some_iff.1 h
    exact ⟨tail, (List.cons.inj hsplit).2.symm⟩

/-- A function with a command. -/
theorem spells_function {type command : Text} {info : FunctionInfo}
    (hinfo : FunctionInfo.find? type = some info) {listed : Text}
    (hlookup : FunctionInfo.table.lookup command = some listed)
    (htype : type = if info.form ≠ .simple ∧ listed = "log".toList then "logn".toList else listed)
    (ha : Spelled .builtin false false a as) (hb : Spelled .builtin false false b bs) :
  Spells .builtin cell (command ++ functionTail info.form a b)
    [.plain 0 (.function type [] bs (if info.form = .withBase then as else [])
      (if info.form = .withConstraint then as else []))]
  := by
  have hmem := CommandTable.mem_commands_of_lookup hlookup
  have hplain := isPlainCommand_function _ hmem
  apply Spells.withArguments (k := 7) (r := Reading.function) rfl rfl
    (List.mem_cons_of_mem _ hmem) hplain
  · rw [functionTail]
    split <;> rfl
  · apply whole_functionTail
  · apply closed_functionTail info.form ha.closed hb.closed
  intro n rest hn hargs _ _
  have hlongest := CommandTable.longest?_command
    (fun sp hsp => isCommand_of_isPlainCommand (isPlainCommand_function sp hsp)) hlookup hargs
  have hname : Reading.operatorName? (command ++ (functionTail info.form a b ++ rest)) = none :=
    operatorName?_function hmem hargs
  refine ⟨_, by rw [Reading.function, hname, hlongest, Option.map_some], ?_⟩
  apply Returns.bind (meets_fresh fun _ => trivial)
  intro i _
  have hcommand : Reading.commandFunctionType listed (functionTail info.form a b ++ rest)
      = type := by
    rw [Reading.commandFunctionType, scriptMarker?_functionTail, htype]
    by_cases hform : info.form = .simple
    · simp [hform]
    · simp [hform]
  simp only [hcommand]
  apply gives_functionArguments hinfo ha hb rfl hn

/-- What stands behind the command of an operator name is closed when the name and the arguments
are. -/
theorem closed_operatorNameArguments {name : Text} (star : Bool) (form : FunctionForm)
    (hname : Closed false name) (ha : Closed false a) (hb : Closed false b) :
  Closed cell ((if star then ['*'] else []) ++ (braced name ++ functionTail form a b))
  := by
  apply Closed.append (a := if star = true then ['*'] else [])
  · cases star
    · apply Closed.nil
    · apply Closed.plain (by simp) (by simp)
  · apply hname.braced_append (closed_functionTail form ha hb)
  · apply Follow.cons rfl

/-- A function with an operator name, of which the name is kept or is known. -/
theorem spells_operatorName {type name : Text} {info : FunctionInfo} {names : List Node}
    {star keepName : Bool} (hinfo : FunctionInfo.find? type = some info)
    (hclosed : Closed false name)
    (htype : ∀ rest, Reading.namedFunctionType star
      ("\\operatorname".toList ++ if star then ['*'] else []) name
      (functionTail info.form a b ++ rest) = (type, keepName))
    (hname : keepName = true → Spelled .builtin false false name names)
    (hnames : keepName = false → names = [])
    (ha : Spelled .builtin false false a as) (hb : Spelled .builtin false false b bs) :
  Spells .builtin cell ("\\operatorname".toList ++ ((if star then ['*'] else [])
      ++ (braced name ++ functionTail info.form a b)))
    [.plain 0 (.function type names bs (if info.form = .withBase then as else [])
      (if info.form = .withConstraint then as else []))]
  := by
  apply Spells.withArguments (k := 7) (r := Reading.function) rfl rfl List.mem_cons_self
    (by decide)
  · cases star <;> rfl
  · apply (whole_functionTail info.form a b).append.append
  · apply closed_operatorNameArguments star info.form hclosed ha.closed hb.closed
  intro n rest hn hargs _ _
  have hoperator : Reading.operatorName? ("\\operatorname".toList
      ++ ((if star then ['*'] else []) ++ (braced name ++ functionTail info.form a b) ++ rest))
      = some (star, braced name ++ (functionTail info.form a b ++ rest)) := by
    rw [Reading.operatorName?, Text.after?_eq_some_iff.2 rfl, List.append_assoc, List.append_assoc]
    cases star <;> rfl
  refine ⟨_, by rw [Reading.function, hoperator], ?_⟩
  have hargument : Markup.argument (braced name ++ (functionTail info.form a b ++ rest))
      = (name, functionTail info.form a b ++ rest) := hclosed.balanced.argument _
  simp only [List.length_append, length_braced] at hn
  rw [Reading.namedFunction]
  simp only [hargument, htype]
  apply Returns.bind (meets_fresh fun _ => trivial)
  intro i _
  cases keepName with
  | true =>
    apply Returns.bind ((hname rfl).makes_sequence (by omega))
    intro made hmade
    apply gives_functionArguments hinfo ha hb hmade (by omega)
  | false =>
    rw [hnames rfl]
    apply Returns.bind (Returns.pure rfl)
    rintro _ rfl
    apply gives_functionArguments hinfo ha hb rfl (by omega)

end Formula
