import Formula.Proofs.Bracket
import Formula.Proofs.Families
import Formula.Proofs.Operator

/-!
# The order of scripts

A superscript and a subscript may be written in either order.  After a character they are added
to it one after the other, and a group, a sized bracket and a large operator read them as
bounds; in each case both orders are read as the same construct.
-/

namespace Formula

open Build Markup Writing

variable {a b m : Text} {nested : Nested}

/-- A superscript and a subscript behind it. -/
def upThenDown (a b : Text) : Text :=
  scriptText .superscript (some a) ++ scriptText .subscript (some b)

/-- A subscript and a superscript behind it. -/
def downThenUp (a b : Text) : Text :=
  scriptText .subscript (some b) ++ scriptText .superscript (some a)

theorem length_downThenUp (a b : Text) :
  (downThenUp a b).length = (upThenDown a b).length
  := by
  rw [downThenUp, upThenDown, List.length_append, List.length_append, Nat.add_comm]

theorem isSome_scriptMarker? (a b : Text) :
  (scriptMarker? (upThenDown a b)).isSome = true ∧ (scriptMarker? (downThenUp a b)).isSome = true
  := ⟨rfl, rfl⟩

/-! ### Scripts as bounds -/

/-- A script on a free side is read with its argument. -/
theorem readOne_script {side : ScriptSide} {bounds : Bounds} {rest : Text}
    (hfree : bounds.get? side = none) (hm : Balanced m) :
  Bounds.readOne nested bounds (scriptText side (some m) ++ rest) = do
    return (bounds.set side (← nested.sequence m), rest)
  := by
  have hargument : Markup.argument (braced m ++ rest) = (m, rest) := hm.argument rest
  rw [scriptText, Option.elim, List.cons_append, Bounds.readOne, scriptMarker?_marker]
  simp only [hfree, Option.isSome_none, Bool.false_eq_true, if_false, hargument]

/-- Two scripts on different sides are read one after the other. -/
theorem read_scripts {side side' : ScriptSide} {m m' : Text} (hside : side ≠ side')
    (hm : Balanced m) (hm' : Balanced m') :
  Bounds.read nested (scriptText side (some m) ++ scriptText side' (some m')) = do
    let first ← nested.sequence m
    let second ← nested.sequence m'
    return ((({} : Bounds).set side first).set side' second, [])
  := by
  have hempty : ({} : Bounds).get? side = none := by
    cases side <;> rfl
  have hother : ∀ made, (({} : Bounds).set side made).get? side' = none := by
    intro made
    cases side <;> cases side' <;> first | rfl | contradiction
  have hlast := fun made => @readOne_script m' nested side' _ [] (hother made) hm'
  simp only [List.append_nil] at hlast
  rw [Bounds.read, readOne_script hempty hm]
  simp only [bind_assoc, pure_bind, hlast]

/-- Scripts are read as the same bounds in both orders. -/
theorem alike_read (h : nested.Steady) (ha : Balanced a) (hb : Balanced b) :
  Alike (Prod.map Bounds.bare id) (Bounds.read nested (upThenDown a b))
    (Bounds.read nested (downThenUp a b))
  := by
  rw [upThenDown, downThenUp, read_scripts (by decide) ha hb, read_scripts (by decide) hb ha]
  apply Alike.swap (h.sequence a) (h.sequence b)
  intro up up' down down' hup hdown
  apply Alike.pure
  simp only [Prod.map, Bounds.set, Bounds.bare, Option.map_some, hup, hdown]

/-! ### Scripts as items -/

namespace Reading

/-- No spelling of a reader before that of scripts begins like a script. -/
theorem heads_script : ∀ l ∈ heads.take 13, ∀ sp ∈ l, sp.head? ≠ some '^' ∧ sp.head? ≠ some '_'
  := by decide +kernel

/-- A script is read with its argument. -/
theorem item_script {side : ScriptSide} {rest : Text} (hm : Balanced m) :
  item .builtin (scriptText side (some m) ++ rest) = do
    return (.script side (← sequence .builtin m), rest)
  := by
  have hargument : Markup.argument (braced m ++ rest) = (m, rest) := hm.argument rest
  have hmarker : ScriptSide.ofMarker? side.marker = some side := by
    cases side <;> rfl
  rw [scriptText, Option.elim, List.cons_append, item_cons]
  apply step_eq (k := 13) (r := script) rfl
  · intro l hl sp hsp hne rest' hstands
    obtain ⟨hup, hdown⟩ := heads_script l hl sp hsp
    cases sp with
    | nil => contradiction
    | cons d ds =>
      obtain ⟨rfl, -⟩ := List.cons.inj hstands.1
      cases side <;> contradiction
  · simp only [script, hmarker, Option.map_some, Nested.argument, hargument, bind_assoc, pure_bind]
    rw [sequence_nestedBelow (by simp only [List.length_append, length_braced]; omega), sequence]

/-- A script is added to the nodes before it. -/
theorem items_script {side : ScriptSide} {before : List Node} {rest : Text} (hm : Balanced m) :
  items .builtin false before (scriptText side (some m) ++ rest) = (do
    let content ← sequence .builtin m
    let siblings ← (Item.script side content).addTo before
    items .builtin false siblings rest)
  := by
  have hitem := @item_script m side rest hm
  have hshort : rest.length < (scriptText side (some m) ++ rest).length := by
    simp only [scriptText, Option.elim, List.length_append, List.length_cons]
    omega
  rw [scriptText, Option.elim, List.cons_append] at hitem hshort ⊢
  rw [items_cons (isBlank_marker side), hitem]
  simp only [bind_assoc, pure_bind, hshort, if_true]

/-- Scripts on both sides of a node that is no script make one script node with it. -/
theorem items_scripts {last : Node} {side side' : ScriptSide} {m m' : Text}
    (hlast : ∀ side content, Item.fillScript? side content last = none) (hside : side ≠ side')
    (hm : Balanced m) (hm' : Balanced m') :
  items .builtin false [last] (scriptText side (some m) ++ scriptText side' (some m')) = do
    let first ← sequence .builtin m
    let i ← Build.fresh
    let second ← sequence .builtin m'
    let bounds := (({} : Bounds).set side first).set side' second
    return [Node.plain i (.script [last] bounds.superscript bounds.subscript)]
  := by
  have hsecond := fun before => @items_script m' side' before [] hm'
  simp only [List.append_nil] at hsecond
  rw [items_script hm]
  simp only [Item.addTo, hlast, bind_assoc, pure_bind, hsecond]
  cases side <;> cases side' <;> first
    | contradiction
    | simp only [Item.newScript, Build.node, bind_assoc, pure_bind, Item.fillScript?, Node.plain,
        Tree.shape, Tree.label, Tree.withShape, items_nil, List.reverse_singleton, Bounds.set]

/-- A script node on a node, with bounds that look the same. -/
theorem alike_scriptNode {last last' : Node} {bounds bounds' : Bounds}
    (hlast : last.bare = last'.bare) (h : bounds.bare = bounds'.bare) (i i' : Nat) :
  Alike (List.map Node.bare)
    (pure [Node.plain i (.script [last] bounds.superscript bounds.subscript)])
    (pure [Node.plain i' (.script [last'] bounds'.superscript bounds'.subscript)])
  := by
  simp only [Bounds.bare, Bounds.mk.injEq] at h
  apply Alike.pure
  rw [map_bare_plain, map_bare_plain]
  simp only [Shape.map, Shape.mapSlots, Shape.mapSlotsOr, List.map_singleton, hlast, h]

/-- Reads the scripts of a node as bounds. -/
def ofBounds (nested : Nested) (last : Node) (s : Text) : Build (List Node) := do
  let i ← Build.fresh
  let (bounds, _) ← Bounds.read nested s
  return [Node.plain i (.script [last] bounds.superscript bounds.subscript)]

/-- Scripts that are added to a node are read as its bounds; only the identifier is taken
later. -/
theorem alike_items_scripts {last : Node} {side side' : ScriptSide} {m m' : Text} {n : Nat}
    (hlast : ∀ side content, Item.fillScript? side content last = none) (hside : side ≠ side')
    (hm : Balanced m) (hm' : Balanced m') (hn : m.length + m'.length < n) :
  Alike (List.map Node.bare)
    (items .builtin false [last] (scriptText side (some m) ++ scriptText side' (some m')))
    (ofBounds (nestedBelow .builtin n) last
      (scriptText side (some m) ++ scriptText side' (some m')))
  := by
  rw [items_scripts hlast hside hm hm', ofBounds, read_scripts hside hm hm',
    sequence_nestedBelow (by omega), sequence_nestedBelow (by omega), ← sequence, ← sequence]
  simp only [bind_assoc, pure_bind]
  apply Alike.swap (steady_sequence .builtin m) alike_fresh
  intro first first' i i' hfirst _
  apply Alike.bind (steady_sequence .builtin m')
  intro second second' hsecond
  apply alike_scriptNode rfl
  cases side <;> cases side' <;> simp [Bounds.set, Bounds.bare, hfirst, hsecond]

/-- Bounds of nodes that look the same are read alike in both orders. -/
theorem alike_ofBounds {last last' : Node} (h : nested.Steady) (hlast : last.bare = last'.bare)
    (ha : Balanced a) (hb : Balanced b) :
  Alike (List.map Node.bare) (ofBounds nested last (upThenDown a b))
    (ofBounds nested last' (downThenUp a b))
  := by
  apply Alike.bind alike_fresh
  intro i i' _
  apply Alike.bind_rest (alike_read h ha hb)
  intro bounds bounds' rest hbounds
  apply alike_scriptNode hlast hbounds

/-! ### Bases -/

/-- Texts that are read as one item each, in the same way by all readers of the insides that do
not show the supply, are read alike. -/
theorem alike_sequence_of_step {c : Char} {cs cs' : Text} (hc : Text.isBlank c = false)
    (hlength : cs'.length = cs.length)
    (h : ∀ nested : Nested, nested.Steady → Alike (Prod.map Item.bare id)
      (step .builtin nested c cs) (step .builtin nested c cs')) :
  Alike (List.map Node.bare) (sequence .builtin (c :: cs)) (sequence .builtin (c :: cs'))
  := by
  rw [sequence, sequence, items_cons hc, items_cons hc, item_cons, item_cons, hlength]
  apply Alike.bind_rest (h _ (steady_nested .builtin _))
  intro i i' rest hi
  apply Alike.bind (Item.alike_addTo hi rfl)
  intro siblings siblings' hsiblings
  simp only [List.length_cons, hlength]
  split
  · apply (alike_items rest).2 false siblings siblings' hsiblings
  · apply Alike.pure
    rw [List.map_reverse, List.map_reverse, hsiblings]

/-- What is read as a text node takes scripts alike in both orders. -/
theorem alike_sequence_of_text {c : Char} {cs value : Text} (hc : Text.isBlank c = false)
    (h : ∀ rest, item .builtin (c :: (cs ++ rest)) = do
      return (.nodes [← Build.text value], rest))
    (ha : Balanced a) (hb : Balanced b) :
  Alike (List.map Node.bare) (sequence .builtin (c :: (cs ++ upThenDown a b)))
    (sequence .builtin (c :: (cs ++ downThenUp a b)))
  := by
  have hread : ∀ rest, sequence .builtin (c :: (cs ++ rest)) = (do
      let i ← Build.fresh
      items .builtin false [Node.plain i (.text value {} none)] rest) := by
    intro rest
    have hshort : rest.length < (c :: (cs ++ rest)).length := by
      simp only [List.length_cons, List.length_append]
      omega
    rw [sequence, items_cons hc, h]
    simp only [Build.text, Build.node, bind_assoc, pure_bind, Item.addTo, List.reverse_singleton,
      List.append_nil, hshort, if_true]
  have hlast : ∀ i side content,
      Item.fillScript? side content (Node.plain i (.text value {} none)) = none := by
    intro i side content
    cases side <;> rfl
  rw [hread, hread]
  apply Alike.bind alike_fresh
  intro i i' _
  have hbare : (Node.plain i (.text value {} none)).bare
      = (Node.plain i' (.text value {} none)).bare := by
    rw [Node.bare_mk, Node.bare_mk]
  have hbounds := alike_ofBounds (steady_nested .builtin (a.length + b.length + 1)) hbare ha hb
  have hup := alike_items_scripts (hlast i) (by decide : .superscript ≠ .subscript) ha hb
    (Nat.lt_succ_self _)
  have hdown := alike_items_scripts (hlast i') (by decide : .subscript ≠ .superscript) hb ha
    (by omega : b.length + a.length < a.length + b.length + 1)
  apply hup.trans (hbounds.trans hdown.symm)

/-! ### Characters and groups -/

/-- A character takes scripts alike in both orders. -/
theorem alike_sequence_char {c : Char} (hblank : Text.isBlank c = false)
    (hc : c ∉ ['\\', '{', '}', '^', '_']) (ha : Balanced a) (hb : Balanced b) :
  Alike (List.map Node.bare) (sequence .builtin ([c] ++ upThenDown a b))
    (sequence .builtin ([c] ++ downThenUp a b))
  := by
  have hsubset : ['\\', '{', '^', '_'] ⊆ ['\\', '{', '}', '^', '_'] := by decide
  have hother : c ∉ ['\\', '{', '^', '_'] := fun h => hc (hsubset h)
  have hback : c ≠ '\\' := by
    rintro rfl
    simp at hc
  have hitem : ∀ rest, item .builtin (c :: ([] ++ rest)) = do
      return (.nodes [← Build.text [c]], rest) := by
    intro rest
    rw [List.nil_append, item_cons, step_plain hother, literal, if_neg hback]
  apply alike_sequence_of_text hblank hitem ha hb

/-- The escapes that begin with a brace are groups with a closed content. -/
theorem escape_groups : ∀ sp ∈ Escape.table.commands, sp.head? = some '{' →
    sp = braced sp.tail.dropLast ∧ Balanced sp.tail.dropLast
      ∧ ∃ c ∈ ['^', '_'], Escape.spelling? c = some sp
  := by decide +kernel

/-- An escape that stands at a group is the group. -/
theorem eq_braced_of_stands (hm : Balanced m) {sp rest rest' : Text}
    (hsp : sp ∈ Escape.table.commands) (hne : sp ≠ [])
    (hstands : Spellings.Stands sp ('{' :: (m ++ '}' :: rest)) rest') :
  sp = braced m
  := by
  have htext := hstands.1
  have hhead : sp.head? = some '{' := by
    cases sp with
    | nil => contradiction
    | cons d ds => rw [← (List.cons.inj htext).1, List.head?_cons]
  obtain ⟨hbraced, hbalanced, -⟩ := escape_groups sp hsp hhead
  generalize sp.tail.dropLast = content at hbraced hbalanced
  subst hbraced
  have hgroup : m ++ '}' :: rest = content ++ '}' :: rest' := by
    simpa [braced] using htext
  have hread := hm.group rest
  rw [hgroup, hbalanced.group] at hread
  rw [(Prod.mk.inj hread).1]

/-- What is computed about the readers before that of escapes: none has a spelling that begins
with a brace, apart from the styles. -/
theorem heads_brace : ∀ l ∈ heads.tail.take 7, ∀ sp ∈ l, sp.head? ≠ some '{'
  := by decide

/-- A group that is an escape is read as its character. -/
theorem item_escape
    (hstyle : ∀ rest, Free styleCommands.commands (Text.skipBlanks (m ++ '}' :: rest)))
    (h : braced m ∈ Escape.table.commands) :
  ∃ c, ∀ rest, item .builtin ('{' :: (m ++ ['}'] ++ rest)) = do
    return (.nodes [← Build.text [c]], rest)
  := by
  obtain ⟨-, -, c, -, hspelling⟩ := escape_groups _ h rfl
  use c
  intro rest
  have hlongest := longest?_escape hspelling rest
  have hcons : braced m ++ rest = '{' :: (m ++ '}' :: rest) := by simp [braced]
  rw [hcons] at hlongest
  have hcons' : m ++ ['}'] ++ rest = m ++ '}' :: rest := by simp
  rw [hcons', item_cons]
  apply step_brace (k := 7) (r := escape) rfl (hstyle rest)
  · intro l hl sp hsp hne rest' hstands
    apply heads_brace l hl sp hsp
    cases sp with
    | nil => contradiction
    | cons d ds => rw [← (List.cons.inj hstands.1).1, List.head?_cons]
  · rw [escape, hlongest, Option.map_some]

/-- A text that does not begin with a style may stand first in a group. -/
theorem free_style (h : ∀ sp ∈ styleCommands.commands, ¬ sp <+: Text.skipBlanks m) (rest : Text) :
  Free styleCommands.commands (Text.skipBlanks (m ++ '}' :: rest))
  := by
  have hskip : Text.skipBlanks (m ++ '}' :: rest) = Text.skipBlanks m ++ '}' :: rest := by
    rw [Text.skipBlanks, Text.skipBlanks, List.dropWhile_append]
    split
    · rename_i hempty
      rw [List.isEmpty_iff.1 hempty]
      rfl
    · rfl
  have hbrace : ∀ sp ∈ styleCommands.commands, '}' ∉ sp := by decide
  intro sp hsp _ rest' hstands
  rw [hskip] at hstands
  rcases List.append_eq_append_iff.1 hstands.1 with ⟨as, hsp', htail⟩ | ⟨as, hm, -⟩
  · cases as with
    | nil =>
      apply h sp hsp
      rw [hsp', List.append_nil]
    | cons d ds =>
      apply hbrace sp hsp
      rw [hsp', (List.cons.inj htail).1]
      apply List.mem_append_right _ List.mem_cons_self
  · apply h sp hsp
    use as
    exact hm.symm

/-- A group takes scripts alike in both orders. -/
theorem alike_sequence_group (hne : m ≠ []) (hm : Balanced m)
    (hstyle : ∀ sp ∈ styleCommands.commands, ¬ sp <+: Text.skipBlanks m) (ha : Balanced a)
    (hb : Balanced b) :
  Alike (List.map Node.bare) (sequence .builtin (braced m ++ upThenDown a b))
    (sequence .builtin (braced m ++ downThenUp a b))
  := by
  have hcons : ∀ rest, braced m ++ rest = '{' :: (m ++ ['}'] ++ rest) := by
    intro rest
    simp [braced]
  rw [hcons, hcons]
  by_cases hescape : braced m ∈ Escape.table.commands
  · obtain ⟨c, hc⟩ := item_escape (free_style hstyle) hescape
    apply alike_sequence_of_text (by decide) hc ha hb
  apply alike_sequence_of_step (by decide)
    (by simp only [List.length_append, length_downThenUp])
  intro nested hnested
  have hstep : ∀ rest, (scriptMarker? rest).isSome = true →
      step .builtin nested '{' (m ++ ['}'] ++ rest) = (do
        let ns ← nested.sequence m
        let i ← Build.fresh
        let (bounds, rest) ← Bounds.read nested rest
        return (.node i (.script ns bounds.superscript bounds.subscript), rest)) := by
    intro rest hrest
    have hsplit : m ++ ['}'] ++ rest = m ++ '}' :: rest := by simp
    rw [hsplit]
    apply step_brace (k := 15) (r := group) rfl (free_style hstyle _)
    · apply free_of_escape
      intro sp hsp hne rest' hstands
      apply hescape
      rw [← eq_braced_of_stands hm hsp hne hstands]
      apply hsp
    · simp only [group, hm.group, List.isEmpty_eq_false_iff.2 hne, Bool.false_eq_true, if_false,
        hrest, if_true]
  rw [hstep _ (isSome_scriptMarker? a b).1, hstep _ (isSome_scriptMarker? a b).2]
  apply Alike.bind (hnested.sequence m)
  intro ns ns' hns
  apply Alike.bind alike_fresh
  intro i i' _
  apply Alike.bind_rest (alike_read hnested ha hb)
  intro bounds bounds' rest hbounds
  simp only [Bounds.bare, Bounds.mk.injEq] at hbounds
  apply alike_node
  simp only [Shape.map, Shape.mapSlots, Shape.mapSlotsOr, hns, hbounds]

/-! ### Sized brackets -/

/-- The number of sized brackets that are open after a text, where `depth` are open before it.
There is none if the text closes one more. -/
def sizeDepth? : (depth : Nat) → Text → Option Nat
  | depth, [] => some depth
  | depth, c :: cs =>
    match sizeCommand? (c :: cs), depth with
    | some (true, _), depth => sizeDepth? (depth + 1) cs
    | some (false, _), 0 => none
    | some (false, _), depth + 1 => sizeDepth? depth cs
    | none, depth => sizeDepth? depth cs

/-- A text that closes exactly the sized brackets that it opens. -/
def SizeBalanced (s : Text) : Prop := sizeDepth? 0 s = some 0

instance (s : Text) : Decidable (SizeBalanced s) := inferInstanceAs (Decidable (_ = _))

/-- A command ends where the next one begins. -/
theorem sizeCommand?_append (c : Char) (cs rest : Text) :
  (sizeCommand? (c :: (cs ++ '\\' :: rest))).map (·.1) = (sizeCommand? (c :: cs)).map (·.1)
  := by
  by_cases hc : c = '\\'
  · subst hc
    have hname : (cs ++ '\\' :: rest).takeWhile Text.isLetter = cs.takeWhile Text.isLetter := by
      rw [List.takeWhile_append, List.takeWhile_cons_of_neg (by decide), List.append_nil]
      split
      · rename_i hlength
        exact ((List.takeWhile_prefix _).eq_of_length hlength).symm
      · rfl
    rw [sizeCommand?, sizeCommand?, hname]
    split
    · rfl
    · split <;> rfl
  · rw [sizeCommand?_eq_none hc, sizeCommand?_eq_none hc]

/-- The end of a sized bracket is looked for behind a text. -/
theorem untilClosing_append {d e : Nat} {rest : Text} (h : sizeDepth? d m = some e) :
  untilClosing d (m ++ '\\' :: rest) = (untilClosing e ('\\' :: rest)).map (prepend m)
  := by
  induction m generalizing d with
  | nil =>
    obtain rfl := Option.some.inj h
    simp
  | cons c cs ih =>
    have hsize := sizeCommand?_append c cs rest
    rw [sizeDepth?.eq_def] at h
    rw [List.cons_append, untilClosing.eq_def]
    rcases hfirst : sizeCommand? (c :: cs) with _ | ⟨_ | _, after⟩ <;>
      rcases hfirst' : sizeCommand? (c :: (cs ++ '\\' :: rest)) with _ | ⟨_ | _, after'⟩ <;>
      simp only [hfirst, hfirst', Option.map_none, Option.map_some, reduceCtorEq,
        Option.some.injEq, Bool.true_eq_false, Bool.false_eq_true] at hsize h ⊢
    · rw [ih h, Option.map_map, prepend_comp_prepend, List.singleton_append]
    · cases d with
      | zero => contradiction
      | succ d =>
        dsimp only at h ⊢
        rw [ih h, Option.map_map, prepend_comp_prepend, List.singleton_append]
    · rw [ih h, Option.map_map, prepend_comp_prepend, List.singleton_append]

/-- Parentheses are read as delimiters. -/
theorem delimiter_parenthesis (rest : Text) :
  delimiter ('(' :: rest) = (['('], rest) ∧ delimiter (')' :: rest) = ([')'], rest)
  := by
  constructor
  · apply @Delimiter.delimiter_eq rest ['('] (.known (by decide)) true
    apply Follow.concat (s := []) rfl
  · apply @Delimiter.delimiter_eq rest [')'] (.known (by decide)) false
    apply Follow.concat (s := []) rfl

/-- A text in parentheses of a size. -/
def sizedText (names : Text × Text) (m : Text) : Text :=
  '\\' :: names.1 ++ ('(' :: (m ++ '\\' :: (names.2 ++ [')'])))

/-- A sized bracket takes its bounds alike in both orders. -/
theorem alike_sequence_bracket {names : Text × Text} (hnames : names ∈ Delimiter.sizeNames)
    (hm : SizeBalanced m) (ha : Balanced a) (hb : Balanced b) :
  Alike (List.map Node.bare) (sequence .builtin (sizedText names m ++ upThenDown a b))
    (sequence .builtin (sizedText names m ++ downThenUp a b))
  := by
  obtain ⟨hletters, hletters', -, hcloses, hcloses', -, -, -, -, htext, hmem, -⟩ :=
    sizeNames_checked names hnames
  have hcons : ∀ rest, sizedText names m ++ rest
      = '\\' :: (names.1 ++ ('(' :: (m ++ '\\' :: (names.2 ++ ')' :: rest)))) := by
    intro rest
    simp [sizedText]
  rw [hcons, hcons]
  apply alike_sequence_of_step (by decide)
    (by simp only [List.length_append, List.length_cons, length_downThenUp])
  intro nested hnested
  have hclosing : ∀ rest, untilClosing 0 (m ++ '\\' :: (names.2 ++ ')' :: rest))
      = some (m, ')' :: rest) := by
    intro rest
    rw [untilClosing_append hm, untilClosing_right_zero hletters' rfl hcloses hcloses']
    simp [prepend]
  have hstep : ∀ rest,
      step .builtin nested '\\' (names.1 ++ ('(' :: (m ++ '\\' :: (names.2 ++ ')' :: rest)))) = (do
        let i ← Build.fresh
        let content ← nested.sequence m
        let (bounds, rest) ← Bounds.read nested rest
        return (.node i (.bracket ['('] [')'] content 0 none bounds.superscript
          bounds.subscript), rest)) := by
    intro rest
    apply step_name (k := 14) (r := bracket) rfl rfl hmem hletters htext rfl
    simp only [bracket, Delimiter.longest?_leftSizes hnames (rfl : Text.startsWithLetter
      ('(' :: (m ++ '\\' :: (names.2 ++ ')' :: rest))) = false), Option.map_some,
      (delimiter_parenthesis _).1, hclosing, (delimiter_parenthesis _).2, pure_bind]
  rw [hstep, hstep]
  apply Alike.bind alike_fresh
  intro i i' _
  apply Alike.bind (hnested.sequence m)
  intro content content' hcontent
  apply Alike.bind_rest (alike_read hnested ha hb)
  intro bounds bounds' rest hbounds
  simp only [Bounds.bare, Bounds.mk.injEq] at hbounds
  apply alike_node
  simp only [Shape.map, Shape.mapSlots, Shape.mapSlotsOr, hcontent, hbounds]

/-! ### Large operators -/

/-- A large operator takes its bounds alike in both orders. -/
theorem alike_sequence_operator {command : Text} (mode : LimitMode)
    (hcommand : command ∈ LargeOperator.table.commands) (ha : Balanced a) (hb : Balanced b) :
  Alike (List.map Node.bare) (sequence .builtin (command ++ mode.modifier ++ upThenDown a b))
    (sequence .builtin (command ++ mode.modifier ++ downThenUp a b))
  := by
  have hplain := isPlainCommand_largeOperator
  have htext : ∀ sp ∈ LargeOperator.table.commands,
      Text.code sp.tail ≠ Text.code "text".toList := by decide
  have hknown : ∀ sp ∈ LargeOperator.table.commands,
      (LargeOperator.table.lookup sp).isSome = true := by decide
  obtain ⟨glyph, hglyph⟩ := Option.isSome_iff_exists.1 (hknown _ hcommand)
  obtain ⟨name, rfl, hname⟩ := exists_of_isCommand (isCommand_of_isPlainCommand (hplain _ hcommand))
  rw [List.cons_append, List.cons_append, List.cons_append]
  apply alike_sequence_of_step (by decide) (by simp only [List.length_append, length_downThenUp])
  intro nested hnested
  have hstep : ∀ (side : ScriptSide) (rest : Text),
      step .builtin nested '\\' (name ++ mode.modifier ++ side.marker :: rest) = (do
        let i ← Build.fresh
        largeOperatorTail nested i glyph mode (side.marker :: rest)) := by
    intro side rest
    have hrest : Text.startsWithLetter (mode.modifier ++ side.marker :: rest) = false := by
      cases mode <;> cases side <;> rfl
    have hlongest := CommandTable.longest?_command
      (fun sp hsp => isCommand_of_isPlainCommand (hplain sp hsp)) hglyph hrest
    rw [List.cons_append] at hlongest
    rw [List.append_assoc]
    apply step_name (k := 5) (r := largeOperator) rfl rfl hcommand hname (htext _ hcommand) hrest
    simp only [largeOperator, hlongest, Option.map_some, LimitMode.longest?_modifier]
    by_cases hmode : mode = .default
    · subst hmode
      rfl
    · simp only [if_neg hmode]
      rfl
  have hbound : ∀ {bounds bounds' : Option (List Node)},
      bounds.map (List.map Node.bare) = bounds'.map (List.map Node.bare) →
      (bounds.getD []).map Node.bare = (bounds'.getD []).map Node.bare := by
    intro bounds bounds' h
    cases bounds <;> cases bounds' <;> simp_all
  rw [upThenDown, downThenUp, scriptText, scriptText, Option.elim, Option.elim, List.cons_append,
    List.cons_append, hstep, hstep]
  apply Alike.bind alike_fresh
  intro i i' _
  apply Alike.bind_rest (alike_read hnested ha hb)
  intro bounds bounds' rest hbounds
  simp only [Bounds.bare, Bounds.mk.injEq] at hbounds
  apply Alike.bind_rest (hnested.group? rest)
  intro operand operand' rest hoperand
  apply alike_node
  simp only [Shape.map, Shape.mapSlots, Shape.mapSlotsOr, hbound hbounds.1, hbound hbounds.2,
    hoperand]

end Reading

/-! ### Any base -/

/-- A markup that takes scripts: a character, a group that no style begins, a sized bracket, or a
large operator. -/
inductive ScriptBase : Text → Prop
  | char {c : Char} : Text.isBlank c = false → c ∉ ['\\', '{', '}', '^', '_'] → ScriptBase [c]
  | group {m : Text} : m ≠ [] → Balanced m →
    (∀ sp ∈ styleCommands.commands, ¬ sp <+: Text.skipBlanks m) → ScriptBase (braced m)
  | bracket {names : Text × Text} {m : Text} : names ∈ Delimiter.sizeNames →
    Reading.SizeBalanced m → ScriptBase (Reading.sizedText names m)
  | operator {command : Text} (mode : LimitMode) : command ∈ LargeOperator.table.commands →
    ScriptBase (command ++ mode.modifier)

/-- A base with a superscript and a subscript is read as the same tree up to identifiers in both
orders of the scripts, or both readings fail. -/
theorem alike_ofMarkup_scripts (config : Config) {base a b : Text} (hbase : ScriptBase base)
    (ha : Balanced a) (hb : Balanced b) :
  Alike (List.map Node.bare) (ofMarkup .builtin config (base ++ upThenDown a b))
    (ofMarkup .builtin config (base ++ downThenUp a b))
  := by
  have hsequence : Alike (List.map Node.bare)
      (Reading.sequence .builtin (base ++ upThenDown a b))
      (Reading.sequence .builtin (base ++ downThenUp a b)) := by
    cases hbase with
    | char hblank hc => apply Reading.alike_sequence_char hblank hc ha hb
    | group hne hm hstyle => apply Reading.alike_sequence_group hne hm hstyle ha hb
    | bracket hnames hm => apply Reading.alike_sequence_bracket hnames hm ha hb
    | operator mode hcommand => apply Reading.alike_sequence_operator mode hcommand ha hb
  apply Alike.bind hsequence
  intro ns ns' hns
  apply Alike.pure
  have hstore := map_bare_store config ns
  rw [hns, ← map_bare_store] at hstore
  apply hstore

/-- A bracket inside a bracket, with a power for its superscript. -/
theorem alike_ofMarkup_scripts_nested :
  (ScriptBase "\\left(\\bigl(x\\bigr)\\right)".toList ∧ Balanced "n^{2}".toList ∧ Balanced ['i'])
    ∧ Alike (List.map Node.bare)
      (ofMarkup .builtin {} "\\left(\\bigl(x\\bigr)\\right)^{n^{2}}_{i}".toList)
      (ofMarkup .builtin {} "\\left(\\bigl(x\\bigr)\\right)_{i}^{n^{2}}".toList)
  := by
  have hsized : "\\left(\\bigl(x\\bigr)\\right)".toList
      = Reading.sizedText ("left".toList, "right".toList) "\\bigl(x\\bigr)".toList := by
    decide
  have hchecked : ScriptBase "\\left(\\bigl(x\\bigr)\\right)".toList
      ∧ Balanced "n^{2}".toList ∧ Balanced ['i'] := by
    rw [hsized]
    exact ⟨.bracket (by decide) (by decide), by decide, by decide⟩
  have hupThenDown : "\\left(\\bigl(x\\bigr)\\right)^{n^{2}}_{i}".toList
      = "\\left(\\bigl(x\\bigr)\\right)".toList ++ upThenDown "n^{2}".toList ['i'] := by
    decide
  have hdownThenUp : "\\left(\\bigl(x\\bigr)\\right)_{i}^{n^{2}}".toList
      = "\\left(\\bigl(x\\bigr)\\right)".toList ++ downThenUp "n^{2}".toList ['i'] := by
    decide
  refine ⟨hchecked, ?_⟩
  obtain ⟨hbase, ha, hb⟩ := hchecked
  rw [hupThenDown, hdownThenUp]
  apply alike_ofMarkup_scripts {} hbase ha hb

end Formula
