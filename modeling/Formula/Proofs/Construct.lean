import Formula.Proofs.Decoration

/-!
# Written fractions, roots, scripts and accents

Every construct is a single item that is read as one node.  Its slots are groups, and each
is read as what its content spells.
-/

namespace Formula

open Build Markup Writing

variable {keep cell : Bool} {a b m rest : Text} {n : Nat} {ns as bs : List Node}

/-! ### Single nodes -/

/-- A new node is its construct up to identifiers. -/
theorem map_bare_plain (i : Nat) (s : Shape Node) :
  [Node.plain i s].map Node.bare = [.plain 0 (s.map Node.bare)]
  := by
  rw [List.map_singleton, Node.bare_mk]

/-- A new node is given when its construct is given up to identifiers. -/
theorem Gives.node {i : Nat} {s s' : Shape Node} (h : s.map Node.bare = s') :
  Gives (pure (Item.node i s, rest)) [.plain 0 s'] rest
  := by
  apply Returns.pure
  refine ⟨_, rfl, ?_⟩
  rw [map_bare_plain, h]

theorem Shape.map_withMode? (mode : DisplayMode) (f : Node → Node) (s : Shape Node) :
  (s.map f).withMode? mode = (s.withMode? mode).map (Shape.map f)
  := by
  cases s <;> rfl

/-- What stands first in a group does not change what the group is. -/
theorem Spelled.opens (h : Spelled .builtin keep cell m ns) (rest : Text) :
  Reading.Free Escape.table.commands ('{' :: (m ++ '}' :: rest))
    ∧ Reading.Free styleCommands.commands (Text.skipBlanks (m ++ '}' :: rest))
  := by
  induction h with
  | nil =>
    have := Opens.of_ne (c := '}') (s := []) (by decide) rest (Follow.concat (s := []) rfl)
    apply this
  | blank _ _ ih =>
    constructor
    · apply free_escape_of_ne (by decide)
    · rw [List.cons_append, Text.skipBlanks, List.dropWhile_cons_of_pos (by decide)]
      apply ih.2
  | @item core m ns ns' hcore hfollow _ _ =>
    have hrest : Follow core (m ++ '}' :: rest) := by
      cases m with
      | nil => apply Follow.cons rfl
      | cons c cs => apply hfollow
    have hopens := hcore.opens _ hrest
    obtain ⟨c, cs, rfl, hblank, -⟩ := hcore.head
    rw [List.append_assoc, Text.skipBlanks, List.cons_append,
      List.dropWhile_cons_of_neg (by simp [hblank])]
    apply hopens

/-- An item that begins with a group is read by the reader of groups. -/
theorem gives_group_item {b : Build (Item × Text)} (h : Spelled .builtin keep cell m ns)
    (hb : Reading.group .builtin
      (Reading.nestedBelow .builtin ((m ++ '}' :: rest).length + 1)) ('{' :: (m ++ '}' :: rest))
      = some b)
    {ns' : List Node} {rest' : Text} (hgives : Gives b ns' rest') :
  Gives (Reading.item .builtin (braced m ++ rest)) ns' rest'
  := by
  have hcons : braced m ++ rest = '{' :: (m ++ '}' :: rest) := by simp [braced]
  rw [hcons]
  obtain ⟨hescape, hstyle⟩ := h.opens rest
  apply Reading.gives_brace hescape hstyle hb hgives

/-! ### Display modes -/

theorem styleCommands_command (mode : DisplayMode) :
  styleCommands.lookup mode.command = some mode
  := by
  cases mode <;> decide

theorem exists_styleName (mode : DisplayMode) :
  ∃ name, mode.command = '\\' :: name ∧ isInertName name = true
  := by
  cases mode with
  | display => exact ⟨"displaystyle".toList, rfl, by decide⟩
  | inline => exact ⟨"textstyle".toList, rfl, by decide⟩

/-- The content of a group that sets a display mode is closed when its body is. -/
theorem closed_styled (mode : DisplayMode) (h : Closed cell m) :
  Closed cell (mode.command ++ [' '] ++ m)
  := by
  obtain ⟨name, hname, hinert⟩ := exists_styleName mode
  apply Closed.append _ h (Follow.concat rfl)
  rw [hname]
  apply (Closed.command _ hinert).append _ (Follow.cons rfl)
  apply Closed.plain (by simp) (by simp)

/-- A group that sets a display mode gives the node in it that mode. -/
theorem spells_styled {mode : DisplayMode} {s s' : Shape Node}
    (h : Spelled .builtin false false m [.plain 0 s]) (hmode : s.withMode? mode = some s') :
  Spells .builtin cell (braced (mode.command ++ [' '] ++ m)) [.plain 0 s']
  := by
  obtain ⟨name, hname, hinert⟩ := exists_styleName mode
  have hletters := Reading.isLetters_of_isInertName hinert
  have hclosed := closed_styled mode h.closed
  constructor
  · exact ⟨_, _, rfl, by decide, rfl⟩
  · apply whole_braced
  · apply Opens.of_ne (by decide)
  · apply Closed.braced hclosed
  · intro rest
    apply SymbolTable.endsBefore_builtin
  · intro rest _ _ _
    have hcons : braced (mode.command ++ [' '] ++ m) ++ rest
        = '{' :: (mode.command ++ ([' '] ++ (m ++ '}' :: rest))) := by simp [braced]
    have hskip : ∀ tail, Text.skipBlanks (mode.command ++ tail) = mode.command ++ tail := by
      intro tail
      rw [hname, List.cons_append, Text.skipBlanks, List.dropWhile_cons_of_neg (by decide)]
    have hlongest := CommandTable.longest?_command isCommand_style (styleCommands_command mode)
      (show Text.startsWithLetter ([' '] ++ (m ++ '}' :: rest)) = false from rfl)
    have hgroup : Markup.group (mode.command ++ ([' '] ++ (m ++ '}' :: rest)))
        = (mode.command ++ ([' '] ++ m), rest) := by
      have := hclosed.balanced.group rest
      simpa using this
    rw [hcons]
    refine Reading.gives_item (k := 0) (r := Reading.style) rfl (by simp)
      SymbolTable.misses_builtin (by rw [Reading.style, hskip, hlongest, Option.map_some]) ?_
    simp only [hgroup, hskip, List.drop_left]
    have hmakes := (Spelled.blank rfl h).makes_sequence
      (n := (mode.command ++ ([' '] ++ (m ++ '}' :: rest))).length + 1) (by simp; omega)
    apply Returns.bind hmakes
    intro made hmade
    obtain ⟨⟨l, s₀⟩, rfl⟩ : ∃ n, made = [n] := by
      rw [← List.length_eq_one_iff, ← List.length_map Node.bare, hmade]
      rfl
    rw [List.map_singleton, Node.bare_mk] at hmade
    simp only [Node.plain, List.cons.injEq, Tree.mk.injEq, and_true] at hmade
    obtain ⟨hlabel, hshape⟩ := hmade
    rw [← hshape, Shape.map_withMode?, Option.map_eq_some_iff] at hmode
    obtain ⟨s₁, hs₁, rfl⟩ := hmode
    apply Returns.bind (P := fun ns => ns = [.mk l s₁])
    · simp only [Reading.applyMode, Tree.shape, hs₁]
      apply Returns.pure rfl
    · rintro _ rfl
      apply Returns.pure
      refine ⟨_, rfl, ?_⟩
      rw [List.map_singleton, Node.bare_mk, hlabel]

/-! ### Fractions and roots -/

theorem isPlainCommand_fraction : ∀ sp ∈ fractionCommands.commands, isPlainCommand sp = true
  := by decide

theorem spells_fraction {name : Text} {mode : Option DisplayMode}
    (hmode : fractionCommands.lookup name = some mode) (ha : Spelled .builtin false false a as)
    (hb : Spelled .builtin false false b bs) :
  Spells .builtin cell (name ++ (braced a ++ braced b)) [.plain 0 (.fraction mode as bs)]
  := by
  have hmem := CommandTable.mem_commands_of_lookup hmode
  apply Spells.withArguments (k := 2) (r := Reading.fraction) rfl rfl hmem
    (isPlainCommand_fraction _ hmem) rfl (whole_braced b).append
    (ha.closed.braced_append hb.closed_braced)
  intro n rest hn hrest _ _
  have hlongest := CommandTable.longest?_command
    (fun sp hsp => isCommand_of_isPlainCommand (isPlainCommand_fraction sp hsp)) hmode hrest
  refine ⟨_, by rw [Reading.fraction, hlongest, Option.map_some], ?_⟩
  simp only [List.length_append, length_braced] at hn
  simp only [List.append_assoc, ha.argument_eq, hb.argument_eq]
  apply Returns.bind (meets_fresh fun _ => trivial)
  intro i _
  apply Returns.bind (ha.makes_sequence (by omega))
  intro top htop
  apply Returns.bind (hb.makes_sequence (by omega))
  intro bottom hbottom
  apply Gives.node
  rw [← htop, ← hbottom]
  rfl

/-- Without an optional argument a root has no index. -/
theorem spells_sqrt (ha : Spelled .builtin false false a as) :
  Spells .builtin cell ("\\sqrt".toList ++ braced a) [.plain 0 (.sqrt as)]
  := by
  apply Spells.withArguments (k := 3) (r := Reading.root) rfl rfl (by simp) (by decide) rfl
    (whole_braced a) ha.closed_braced
  intro n rest hn hrest _ _
  have hcommand := @command?_command _ "sqrt".toList "sqrt".toList rfl rfl hrest
  rw [if_pos rfl] at hcommand
  refine ⟨_, congrArg (Option.map _) hcommand, ?_⟩
  have hoptional : Markup.optional (braced a ++ rest) = (none, braced a ++ rest) := rfl
  simp only [hoptional, ha.argument_eq]
  apply Returns.bind (meets_fresh fun _ => trivial)
  intro i _
  rw [length_braced] at hn
  apply Returns.bind (ha.makes_sequence (by omega))
  intro radicand hradicand
  apply Gives.node
  rw [← hradicand]
  rfl

/-- A group that nothing follows is read as its content. -/
theorem makes_group (h : Spelled .builtin false false m ns) (hne : m ≠ []) :
  Makes (Reading.sequence .builtin (braced m)) ns
  := by
  have hgives : Gives (Reading.item .builtin (braced m ++ [])) ns [] := by
    apply gives_group_item h rfl
    simp only [h.closed.balanced.group, List.isEmpty_eq_false_iff.2 hne, Bool.false_eq_true,
      if_false]
    apply Returns.bind (h.makes_sequence (by simp only [List.length_append]; omega))
    intro made hmade
    apply Returns.pure ⟨_, rfl, hmade⟩
  have hcons : braced m ++ [] = '{' :: (m ++ ['}']) := by simp [braced]
  rw [hcons] at hgives
  rw [← List.append_nil (braced m), hcons, Reading.sequence, Reading.items_cons (by decide)]
  apply Returns.bind hgives
  rintro _ ⟨made, rfl, hmade⟩
  apply Returns.bind (Returns.pure rfl)
  rintro _ rfl
  rw [if_pos (by simp), Reading.items_nil]
  apply Returns.pure
  simpa using hmade

/-- The content of an optional argument is read as a whole, and as what its body spells. -/
theorem Spelled.optional (h : Spelled .builtin false cell m ns) :
  Makes (Reading.sequence .builtin (Writing.optional m)) ns ∧ Closed cell (Writing.optional m)
  := by
  rw [Writing.optional]
  split
  · rename_i hempty
    rw [List.isEmpty_iff] at hempty
    rw [hempty] at h
    rw [h.eq_nil]
    have hspace : Spelled .builtin false cell _ _ := Spelled.blank rfl .nil
    exact ⟨hspace.makes, hspace.closed⟩
  split
  · rename_i hne _
    refine ⟨?_, h.closed_braced⟩
    apply makes_group (h.mono id (by simp))
    rintro rfl
    contradiction
  · exact ⟨h.makes, h.closed⟩

/-- With an optional argument a root has an index. -/
theorem spells_nthRoot (ha : Spelled .builtin false cell a as)
    (hb : Spelled .builtin false false b bs) :
  Spells .builtin cell ("\\sqrt".toList ++ (['['] ++ Writing.optional a ++ [']'] ++ braced b))
    [.plain 0 (.nthRoot as bs)]
  := by
  obtain ⟨hmakes, hclosed⟩ := ha.optional
  apply Spells.withArguments (k := 3) (r := Reading.root) rfl rfl (by simp) (by decide) rfl
    (whole_braced b).append (hclosed.bracketed.append_braced hb.closed)
  intro n rest hn hrest _ _
  have hcommand := @command?_command _ "sqrt".toList "sqrt".toList rfl rfl hrest
  rw [if_pos rfl] at hcommand
  refine ⟨_, congrArg (Option.map _) hcommand, ?_⟩
  have hoptional : Markup.optional (['['] ++ Writing.optional a ++ [']'] ++ braced b ++ rest)
      = (some (Writing.optional a), braced b ++ rest) := by
    have hread := ha.closed.balanced.optional (braced b ++ rest)
    simpa using hread
  simp only [hoptional, hb.argument_eq]
  apply Returns.bind (meets_fresh fun _ => trivial)
  intro i _
  simp only [List.length_append, length_braced] at hn
  rw [Reading.sequence_nestedBelow (by omega)]
  apply Returns.bind hmakes
  intro index hindex
  apply Returns.bind (hb.makes_sequence (by omega))
  intro radicand hradicand
  apply Gives.node
  rw [← hindex, ← hradicand]
  rfl

/-! ### Scripts -/

/-- A script as it is written, if there is one. -/
def scriptText (side : ScriptSide) (slot : Option Text) : Text :=
  slot.elim [] fun m => side.marker :: braced m

/-- An absent slot spells an absent slot, and a content what its slot holds. -/
abbrev SlotSpelled : Option Text → Option (List Node) → Prop :=
  Option.Rel (Spelled .builtin false false)

section Scripts

variable {side side' : ScriptSide} {p q : Option Text} {ps qs : Option (List Node)}
  {bounds : Bounds}

theorem isBlank_marker (side : ScriptSide) :
  Text.isBlank side.marker = false
  := by
  cases side <;> decide

theorem scriptMarker?_marker (side : ScriptSide) (rest : Text) :
  scriptMarker? (side.marker :: rest) = some (side, rest)
  := by
  rw [scriptMarker?, Text.skipBlanks, List.dropWhile_cons_of_neg (by simp [isBlank_marker])]
  cases side <;> rfl

/-- The content of a slot is closed when it spells what the slot holds. -/
theorem SlotSpelled.closed (h : SlotSpelled p ps) :
  ∀ m ∈ p, Closed false m
  := by
  cases h with
  | none => simp
  | some h => simpa using h.closed

theorem closed_scriptText (h : ∀ m ∈ p, Closed false m) :
  Closed cell (scriptText side p)
  := by
  cases p with
  | none => apply Closed.nil
  | some m =>
    apply Closed.append (a := [side.marker]) _ (h m rfl).braced (Follow.cons rfl)
    cases side <;> apply Closed.plain (by simp [ScriptSide.marker])
      (by simp [ScriptSide.marker])

/-- A script may stand behind everything. -/
theorem follow_scriptText :
  Follow m (scriptText side p)
  := by
  cases p with
  | none => apply Follow.nil_right
  | some m =>
    cases side <;> apply Follow.cons rfl

theorem follow_scripts :
  Follow m (scriptText side p ++ scriptText side' q)
  := by
  cases p with
  | none => apply follow_scriptText
  | some m => cases side <;> apply Follow.cons rfl

theorem closed_scripts (hp : ∀ m ∈ p, Closed false m) (hq : ∀ m ∈ q, Closed false m) :
  Closed cell (scriptText side p ++ scriptText side' q)
  := (closed_scriptText hp).append (closed_scriptText hq) follow_scriptText

/-- Where no script follows, none is read. -/
theorem readOne_eq_none {nested : Nested} (h : scriptMarker? rest = none) :
  Bounds.readOne nested bounds rest = pure (bounds, rest)
  := by
  rw [Bounds.readOne, h]

/-- A script on a free side is read. -/
theorem returns_readOne (h : Spelled .builtin false false m ns) (hfree : bounds.get? side = none)
    (hn : m.length < n) :
  Returns (Bounds.readOne (Reading.nestedBelow .builtin n) bounds
      (side.marker :: (braced m ++ rest))) fun read =>
    ∃ made, read = (bounds.set side made, rest) ∧ made.map Node.bare = ns
  := by
  rw [Bounds.readOne, scriptMarker?_marker]
  simp only [hfree, Option.isSome_none, Bool.false_eq_true, if_false, h.argument_eq]
  apply Returns.bind (h.makes_sequence hn)
  intro made hmade
  apply Returns.pure ⟨made, rfl, hmade⟩

/-- The scripts on two sides are read in the order in which they are written. -/
theorem returns_read (hp : SlotSpelled p ps) (hq : SlotSpelled q qs) (hside : side ≠ side')
    (hn : (scriptText side p).length + (scriptText side' q).length < n)
    (hrest : scriptMarker? rest = none) :
  Returns (Bounds.read (Reading.nestedBelow .builtin n)
      (scriptText side p ++ (scriptText side' q ++ rest))) fun read =>
    (read.1.get? side).map (List.map Node.bare) = ps
      ∧ (read.1.get? side').map (List.map Node.bare) = qs ∧ read.2 = rest
  := by
  have hempty : ∀ side, Bounds.get? {} side = none := by
    intro side
    cases side <;> rfl
  have hset : ∀ (bounds : Bounds) (side : ScriptSide) (made : List Node),
      (bounds.set side made).get? side = some made := by
    intro bounds side made
    cases side <;> rfl
  have hother : ∀ (bounds : Bounds) (made : List Node),
      (bounds.set side' made).get? side = bounds.get? side := by
    intro bounds made
    cases side <;> cases side' <;> first | rfl | contradiction
  have hother' : ∀ (bounds : Bounds) (made : List Node),
      (bounds.set side made).get? side' = bounds.get? side' := by
    intro bounds made
    cases side <;> cases side' <;> first | rfl | contradiction
  rw [Bounds.read]
  cases hp with
  | none =>
    cases hq with
    | none =>
      rw [scriptText, scriptText, Option.elim, Option.elim, List.nil_append, List.nil_append,
        readOne_eq_none hrest]
      apply Returns.bind (Returns.pure rfl)
      rintro _ rfl
      simp only [readOne_eq_none hrest]
      apply Returns.pure
      simp [hempty]
    | @some m _ hm =>
      simp only [scriptText, Option.elim, List.length_cons, length_braced, List.length_nil] at hn
      rw [scriptText, scriptText, Option.elim, Option.elim, List.nil_append, List.cons_append]
      apply Returns.bind (returns_readOne hm (hempty side') (by omega))
      rintro _ ⟨made, rfl, hmade⟩
      simp only [readOne_eq_none hrest]
      apply Returns.pure
      simp [hset, hother, hempty, hmade]
  | @some m _ hm =>
    simp only [scriptText, Option.elim, List.length_cons, length_braced] at hn
    rw [scriptText, Option.elim, List.cons_append]
    apply Returns.bind (returns_readOne hm (hempty side) (by omega))
    rintro _ ⟨made, rfl, hmade⟩
    cases hq with
    | none =>
      simp only [scriptText, Option.elim, List.nil_append, readOne_eq_none hrest]
      apply Returns.pure
      simp [hset, hother', hempty, hmade]
    | @some m' _ hm' =>
      simp only [List.length_cons, length_braced] at hn
      simp only [scriptText, Option.elim, List.cons_append]
      apply Returns.mono (returns_readOne hm' (by rw [hother', hempty]) (by omega))
      rintro _ ⟨made', rfl, hmade'⟩
      simp [hset, hother, hmade, hmade']

end Scripts

/-! ### Groups with something after them -/

/-- An item that begins with a group, given how the group is read with what stands after it. -/
theorem Spells.grouped {tail : Text} (ha : Spelled .builtin false false a as)
    (htail : Closed cell tail) (hwhole : Whole (braced a ++ tail))
    (hgives : ∀ rest, scriptMarker? rest = none →
      Gives (Reading.item .builtin (braced a ++ (tail ++ rest))) ns rest) :
  Spells .builtin cell (braced a ++ tail) ns
  := by
  constructor
  · exact ⟨_, _, rfl, by decide, rfl⟩
  · apply hwhole
  · apply Opens.of_ne (by decide)
  · apply ha.closed.braced_append htail
  · intro rest
    apply SymbolTable.endsBefore_builtin
  · intro rest _ hrest _
    rw [List.append_assoc]
    apply hgives rest hrest

theorem whole_scriptText {side : ScriptSide} {p : Option Text} (h : Whole m) :
  Whole (m ++ scriptText side p)
  := by
  cases p with
  | none =>
    rw [scriptText, Option.elim, List.append_nil]
    apply h
  | some m' => apply (Whole.append (a := [side.marker]) (whole_braced m')).append

/-- A group with scripts is a script node. -/
theorem spells_script {p q : Option Text} {ps qs : Option (List Node)}
    (ha : Spelled .builtin false false a as) (hne : a ≠ []) (hp : SlotSpelled p ps)
    (hq : SlotSpelled q qs) (hsome : ps.isSome ∨ qs.isSome) :
  Spells .builtin cell (braced a ++ (scriptText .superscript p ++ scriptText .subscript q))
    [.plain 0 (.script as ps qs)]
  := by
  apply Spells.grouped ha
  · apply closed_scripts hp.closed hq.closed
  · rw [← List.append_assoc]
    apply whole_scriptText (whole_scriptText (whole_braced a))
  intro rest hrest
  have hmarker : (scriptMarker? (scriptText .superscript p
      ++ (scriptText .subscript q ++ rest))).isSome = true := by
    cases hp with
    | some _ =>
      rw [scriptText, Option.elim, List.cons_append, scriptMarker?_marker]
      rfl
    | none =>
      cases hq with
      | some _ =>
        rw [scriptText, Option.elim, List.nil_append, scriptText, Option.elim, List.cons_append,
          scriptMarker?_marker]
        rfl
      | none => simp at hsome
  rw [List.append_assoc]
  apply gives_group_item ha rfl
  simp only [ha.closed.balanced.group, List.isEmpty_eq_false_iff.2 hne, Bool.false_eq_true,
    if_false]
  apply Returns.bind (ha.makes_sequence (by simp only [List.length_append]; omega))
  intro base hbase
  simp only [hmarker, if_true]
  apply Returns.bind (meets_fresh fun _ => trivial)
  intro i _
  apply Returns.bind (returns_read hp hq (by decide)
    (by simp only [List.length_append, List.length_cons]; omega) hrest)
  rintro ⟨bounds, _⟩ ⟨hsup, hsub, rfl⟩
  apply Gives.node
  rw [← hbase, ← hsup, ← hsub]
  rfl

/-- A group, a solidus and another group are a bevelled fraction. -/
theorem spells_bevelledFraction (ha : Spelled .builtin false false a as) (hne : a ≠ [])
    (hb : Spelled .builtin false false b bs) :
  Spells .builtin cell (braced a ++ (['/'] ++ braced b)) [.plain 0 (.bevelledFraction none as bs)]
  := by
  apply Spells.grouped ha
  · apply Closed.append (Closed.plain (by simp) (by simp)) hb.closed_braced (Follow.cons rfl)
  · apply (whole_braced b).append.append
  intro rest _
  have hmarker : scriptMarker? (['/'] ++ braced b ++ rest) = none := rfl
  have hsolidus : Reading.afterSolidus? (['/'] ++ braced b ++ rest) = some (b, rest) := by
    have hskip : Text.skipBlanks (['/'] ++ braced b ++ rest) = '/' :: (braced b ++ rest) := rfl
    rw [Reading.afterSolidus?, hskip]
    apply hb.nextGroup?_eq
  apply gives_group_item ha rfl
  simp only [ha.closed.balanced.group, List.isEmpty_eq_false_iff.2 hne, Bool.false_eq_true,
    if_false, hmarker, Option.isSome_none, hsolidus]
  apply Returns.bind (ha.makes_sequence (by simp only [List.length_append]; omega))
  intro above habove
  apply Returns.bind (meets_fresh fun _ => trivial)
  intro i _
  apply Returns.bind (hb.makes_sequence
    (by simp only [List.length_append, List.length_cons, length_braced]; omega))
  intro below hbelow
  apply Gives.node
  rw [← habove, ← hbelow]
  rfl

/-! ### Accents -/

theorem isPlainCommand_accent : ∀ type : AccentType, isPlainCommand type.command = true
  := by
  intro type
  cases type <;> decide

theorem mem_accentCommands : ∀ type : AccentType, type.command ∈ AccentType.table.commands
  := by
  intro type
  cases type <;> decide

/-- An accent without a label. -/
theorem spells_accent {type : AccentType} (htype : type.labeled = false)
    (ha : Spelled .builtin false false a as) :
  Spells .builtin cell (type.command ++ braced a) [.plain 0 (.accent type type.position as none)]
  := by
  have hlookup : AccentType.table.lookup type.command = some type := by
    cases type <;> first | decide | cases htype
  apply Spells.withArguments (k := 11) (r := Reading.accent) rfl rfl (mem_accentCommands type)
    (isPlainCommand_accent type) rfl (whole_braced a) ha.closed_braced
  intro n rest hn hargs _ hrest
  have hlongest := CommandTable.longest?_command (by decide) hlookup hargs
  have hplain : type.withLabel none = type := by
    cases type <;> rfl
  refine ⟨_, by rw [Reading.accent, hlongest, Option.map_some], ?_⟩
  rw [length_braced] at hn
  simp only [ha.argument_eq, hrest, Option.map_none, hplain, htype]
  apply Returns.bind (meets_fresh fun _ => trivial)
  intro i _
  apply Returns.bind (ha.makes_sequence (by omega))
  intro base hbase
  apply Gives.node
  rw [← hbase]
  rfl

/-- An accent with a label. -/
theorem spells_labeled_accent {type : AccentType} (htype : type.labeled = true)
    (ha : Spelled .builtin false false a as) (hb : Spelled .builtin false false b bs) :
  Spells .builtin cell (type.command ++ (braced a ++ ([type.labelSide.marker] ++ braced b)))
    [.plain 0 (.accent type type.position as (some bs))]
  := by
  obtain ⟨plain, hlookup, hlabel⟩ : ∃ plain, AccentType.table.lookup type.command = some plain
      ∧ plain.withLabel (some type.labelSide) = type := by
    cases type
    case labeledOverbrace => exact ⟨.overbrace, by decide, rfl⟩
    case labeledUnderbrace => exact ⟨.underbrace, by decide, rfl⟩
    all_goals cases htype
  apply Spells.withArguments (k := 11) (r := Reading.accent) rfl rfl (mem_accentCommands type)
    (isPlainCommand_accent type) rfl (whole_braced b).append.append
  · apply ha.closed.braced_append
    apply closed_scriptText (p := some b) (SlotSpelled.closed (.some hb))
  intro n rest hn hargs _ _
  have hlongest := CommandTable.longest?_command (by decide) hlookup hargs
  have hmarker := scriptMarker?_marker type.labelSide (braced b ++ rest)
  refine ⟨_, by rw [Reading.accent, hlongest, Option.map_some], ?_⟩
  simp only [List.length_append, length_braced, List.length_singleton] at hn
  simp only [List.append_assoc, ha.argument_eq, List.cons_append, List.nil_append, hmarker,
    Option.map_some, hlabel, htype]
  apply Returns.bind (meets_fresh fun _ => trivial)
  intro i _
  apply Returns.bind (ha.makes_sequence (by omega))
  intro base hbase
  apply Returns.bind (hb.returns_argument (by omega) rest)
  rintro ⟨label, _⟩ ⟨hlabel, rfl⟩
  apply Gives.node
  rw [← hbase, ← hlabel]
  rfl

end Formula
