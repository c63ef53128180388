import Formula.Proofs.TextRun

/-!
# Written decorations

The commands for weight and slant change the format of every text in their argument; the
wrapper commands wrap the nodes of their argument one by one.
-/

namespace Formula

open Build Markup Writing

variable {t : SymbolTable} {keep cell cell' inText : Bool} {m rest value : Text} {ns : List Node}

/-! ### Changing nodes -/

/-- The construct with an attribute command applied, if it is text. -/
def Shape.emphasize {α : Type} (e : TextEmphasis) : Shape α → Shape α
  | .text v f s => .text v (e.applyTo f) s
  | s => s

theorem Shape.map_emphasize {α β : Type} (e : TextEmphasis) (f : α → β) (s : Shape α) :
  (s.emphasize e).map f = (s.map f).emphasize e
  := by
  cases s <;> rfl

namespace Node

variable (e : TextEmphasis)

theorem emphasize_mk (l : Label) (s : Shape Node) :
  emphasize e (.mk l s) = .mk l ((s.map (emphasize e)).emphasize e)
  := by
  rw [emphasize, Tree.mapBottomUp, Tree.fold_mk]
  cases s <;> rfl

/-- Emphasis and identifiers have nothing to do with each other. -/
theorem bare_emphasize (n : Node) :
  bare (emphasize e n) = emphasize e (bare n)
  := by
  induction n using Tree.induction with
  | h l s ih =>
    rw [emphasize_mk, bare_mk, bare_mk, emphasize_mk, Shape.map_emphasize, Shape.map_map,
      Shape.map_map, Shape.map_congr (f := bare ∘ emphasize e) (g := emphasize e ∘ bare) ih]

/-- The node with its wrappers changed. -/
def rewrap (f : Wrapping → Wrapping) (n : Node) : Node := n.withWrapping (f n.wrapping)

theorem bare_rewrap (f : Wrapping → Wrapping) (n : Node) :
  bare (rewrap f n) = rewrap f (bare n)
  := by
  cases n with
  | mk l s =>
    rw [bare_mk, rewrap, rewrap, Tree.withWrapping, Tree.withLabel, bare_mk]
    rfl

end Node

/-- A text node of one character in a format, without identifier. -/
def charWith (f : TextFormat) (c : Char) : Node := .plain 0 (.text [c] f none)

theorem emphasize_charWith (e : TextEmphasis) (f : TextFormat) (c : Char) :
  Node.emphasize e (charWith f c) = charWith (e.applyTo f) c
  := by
  rw [charWith, Node.plain, Node.emphasize_mk]
  rfl

/-! ### Emphasis -/

theorem isPlainCommand_attribute :
  ∀ sp ∈ attributeCommands.commands, isPlainCommand sp = true
  := by decide

theorem isCommand_of_isPlainCommand {command : Text} (h : isPlainCommand command = true) :
  isCommand command = true
  := by
  unfold isPlainCommand at h
  split at h
  · simp only [Bool.and_eq_true, isInertName] at h
    apply h.1.1.1.1.1.1
  · contradiction

section Emphasis

variable [t.IsExtension]

/-- An attribute command changes the format of what its argument spells. -/
theorem spells_emphasis {name : Text} {e : TextEmphasis}
    (he : attributeCommands.lookup name = some e) (h : Spelled t keep cell m ns) :
  Spells t cell' (name ++ braced m) (ns.map (Node.emphasize e))
  := by
  have hmem := CommandTable.mem_commands_of_lookup he
  apply Spells.withArguments (k := 9) (r := Reading.emphasis) rfl rfl hmem
    (isPlainCommand_attribute _ hmem) rfl (whole_braced m) h.closed_braced
  intro n rest hn hrest _ _
  have hlongest := CommandTable.longest?_command
    (fun sp hsp => isCommand_of_isPlainCommand (isPlainCommand_attribute sp hsp)) he hrest
  refine ⟨_, by rw [Reading.emphasis, hlongest, Option.map_some], ?_⟩
  apply Returns.bind (h.returns_argument (by rw [length_braced] at hn; omega) rest)
  rintro ⟨made, _⟩ ⟨hmade, rfl⟩
  apply Returns.pure
  refine ⟨_, rfl, ?_⟩
  rw [← hmade]
  simp [Node.bare_emphasize]

/-- An attribute command changes the format of the characters in its argument. -/
theorem spelled_emphasis {name : Text} {e : TextEmphasis} {f : TextFormat}
    (he : attributeCommands.lookup name = some e)
    (h : Spelled t keep cell m (value.map (charWith f))) :
  Spelled t keep cell (name ++ braced m) (value.map (charWith (e.applyTo f)))
  := by
  have hspells : Spelled t keep cell _ _ := (spells_emphasis he h).spelled
  rw [List.map_map] at hspells
  have hchars : Node.emphasize e ∘ charWith f = charWith (e.applyTo f) := by
    funext c
    apply emphasize_charWith
  rwa [hchars] at hspells

/-- The commands for weight and slant give the characters of a run their format. -/
theorem spelled_emphasized (f : TextFormat) (h : Spelled t keep cell m (value.map charNode)) :
  Spelled t keep cell (emphasized f value m)
    (value.map (charWith { bold := f.bold, italic := f.italic }))
  := by
  have hplain : Spelled t keep cell m (value.map (charWith {})) := h
  rw [emphasized]
  split
  · rename_i hbold hitalic
    rw [hbold, hitalic]
    split
    · apply spelled_emphasis (e := ⟨false, some true⟩) (f := { bold := true }) (by decide)
      apply spelled_emphasis (e := ⟨true, none⟩) (by decide) hplain
    · apply spelled_emphasis (e := ⟨true, some true⟩) (by decide) hplain
  · rename_i hbold hitalic
    rw [hbold, hitalic]
    apply spelled_emphasis (e := ⟨true, none⟩) (f := { italic := some false }) (by decide)
    apply spelled_emphasis (e := ⟨false, some false⟩) (by decide) hplain
  · rename_i hbold hitalic
    rw [hbold, hitalic]
    apply spelled_emphasis (e := ⟨true, none⟩) (by decide) hplain
  · rename_i hbold hitalic
    rw [hbold, hitalic]
    apply spelled_emphasis (e := ⟨false, some true⟩) (by decide) hplain
  · rename_i hbold hitalic
    rw [hbold, hitalic]
    apply spelled_emphasis (e := ⟨false, some false⟩) (by decide) hplain
  · rename_i hbold hitalic
    rw [hbold, hitalic]
    apply hplain

end Emphasis

/-! ### Wrappers -/

/-- The wrappers after a written wrapper is read around them. -/
def Wrapping.reread (wrapping : Wrapping) : Wrapper → Wrapping
  | (.underline, .style .double) => (wrapping.wrap .underline .none).wrap .underline .none
  | (.underline, _) => wrapping.wrap .underline .none
  | (.cancel, _) => wrapping.wrap .cancel .none
  | (.color, param) => wrapping.wrap .color (.text (colorText param))
  | (.textMode, _) => wrapping.wrap .textMode .none

/-- A wrapper is written up to a closing brace. -/
theorem whole_wrap (m : Text) (x : Wrapper) :
  Whole (wrap m x)
  := by
  obtain ⟨kind, p⟩ := x
  cases kind with
  | underline => rcases p with _ | (_ | _) | _ <;> exact (whole_braced _).append
  | cancel => exact (whole_braced _).append
  | color => exact (whole_braced _).append
  | textMode => exact (whole_braced _).append

/-- A color that a run is written with is that of its format. -/
theorem color_of_mem_attributeCommandsOf {f : TextFormat} {c : Text}
    (h : (.color, .text c) ∈ attributeCommandsOf f) :
  c ∈ f.color
  := by
  simp only [attributeCommandsOf, List.mem_append, List.mem_map, Option.mem_toList] at h
  rcases h with ((⟨s, -, heq⟩ | h) | ⟨c', hc', heq⟩) | h
  · cases heq
  · split at h
    · cases List.mem_singleton.1 h
    · contradiction
  · cases heq
    apply hc'
  · split at h
    · cases List.mem_singleton.1 h
    · contradiction

theorem isPlainCommand_wrapper : ∀ sp ∈ wrapperCommands.commands,
    sp ≠ "\\text".toList → isPlainCommand sp = true
  := by decide

theorem isCommand_wrapper : ∀ sp ∈ wrapperCommands.commands, isCommand sp = true
  := by decide

/-- A command that wraps without a parameter wraps what its argument spells. -/
theorem spells_wrapper [t.IsExtension] {name : Text} {kind : WrapperKind}
    (hkind : wrapperCommands.lookup name = some kind) (hcolor : kind ≠ .color)
    (htext : kind ≠ .textMode) (hname : name ≠ "\\text".toList) (h : Spelled t keep cell m ns) :
  Spells t cell' (name ++ braced m) (ns.map (Node.rewrap fun w => w.wrap kind .none))
  := by
  have hmem := CommandTable.mem_commands_of_lookup hkind
  apply Spells.withArguments (k := 10) (r := Reading.wrapper) rfl rfl hmem
    (isPlainCommand_wrapper _ hmem hname) rfl (whole_braced m) h.closed_braced
  intro n rest hn hrest _ _
  have hlongest := CommandTable.longest?_command isCommand_wrapper hkind hrest
  refine ⟨_, by rw [Reading.wrapper, hlongest, Option.map_some], ?_⟩
  simp only [Reading.colorOf, hcolor, htext, if_false, h.argument_eq]
  apply Returns.bind (h.makes_sequence (by rw [length_braced] at hn; omega))
  intro made hmade
  apply Returns.pure
  refine ⟨_, rfl, ?_⟩
  rw [← hmade, List.map_map, List.map_map]
  apply List.map_congr_left
  intro n _
  exact Node.bare_rewrap (fun w => w.wrap kind .none) n

/-- A color that is written and read as it is. -/
structure CleanColor (color : Text) : Prop where
  ne_nil : color ≠ []
  strip : Text.strip color = color
  closed : Closed false color

/-- A color command wraps what its second argument spells. -/
theorem spells_color [t.IsExtension] {color : Text} (hcolor : CleanColor color)
    (h : Spelled t keep cell m ns) :
  Spells t cell' ("\\textcolor".toList ++ braced color ++ braced m)
    (ns.map (Node.rewrap fun w => w.wrap .color (.text color)))
  := by
  rw [List.append_assoc]
  apply Spells.withArguments (k := 10) (r := Reading.wrapper) (l := wrapperCommands.commands)
    rfl rfl (by decide) (by decide) rfl (whole_braced m).append
  · apply Closed.append (Closed.braced hcolor.closed) h.closed_braced (Follow.cons rfl)
  intro n rest hn hrest _ _
  have hlongest := CommandTable.longest?_command isCommand_wrapper
    (show wrapperCommands.lookup "\\textcolor".toList = some .color by decide) hrest
  refine ⟨_, by rw [Reading.wrapper, hlongest, Option.map_some], ?_⟩
  have hargument : Markup.argument (braced color ++ braced m ++ rest)
      = (color, braced m ++ rest) := by
    rw [List.append_assoc]
    apply hcolor.closed.balanced.argument
  simp only [Reading.colorOf, if_true, hargument, hcolor.strip, h.argument_eq,
    Option.some.injEq, hcolor.ne_nil, if_false]
  rw [if_neg (by decide)]
  apply Returns.bind (h.makes_sequence ?_)
  · intro made hmade
    apply Returns.pure
    refine ⟨_, rfl, ?_⟩
    rw [← hmade, List.map_map, List.map_map]
    apply List.map_congr_left
    intro n _
    exact Node.bare_rewrap (fun w => w.wrap .color (.text color)) n
  · rw [List.length_append, length_braced m] at hn
    omega

/-! ### Text mode -/

/-- Markup spells one list of nodes only. -/
theorem Spelled.unique {cell' : Bool} {ns' : List Node} (h : Spelled t keep cell m ns)
    (h' : Spelled t keep cell' m ns') :
  ns = ns'
  := by
  obtain ⟨made, -, hmade, hmade'⟩ := ((h.makes_items []).and (h'.makes_items [])).exists_ok {}
  simp only [List.reverse_nil, List.map_nil, List.nil_append] at hmade hmade'
  rw [← hmade, hmade']

/-- What is computed about the spellings with the name of the wrapper of text: among those of
the readers before it only the escaped ampersand has it. -/
theorem text_checked :
  (∀ l ∈ Reading.heads.take 10, ∀ sp ∈ l,
      sp ≠ ['\\'] ∧ (Text.nameOf? sp = some "text".toList → sp = "\\text\x7b＆\x7d".toList))
    ∧ (∀ sp ∈ Escape.table.commands, sp = "\x7b\\text\x7b^\x7d\x7d".toList
        ∨ ¬ sp <+: "\x7b\\text\x7b".toList ∧ ¬ "\x7b\\text\x7b".toList <+: sp)
  := by decide

/-- The escaped ampersand does not stand where a group in text mode has another content. -/
theorem free_text (hbalanced : Balanced m) (hm : m ≠ ['＆']) {l : List Text}
    (hl : l ∈ Reading.heads.take 10) :
  Reading.Free l ("\\text".toList ++ (braced m ++ rest))
  := by
  intro sp hsp hne rest' hstands
  obtain ⟨hbare, hname⟩ := text_checked.1 l hl sp hsp
  obtain rfl := hname (Spellings.nameOf?_of_stands rfl rfl hne hbare
    hstands)
  have htext : '{' :: (m ++ '}' :: rest) = '{' :: '＆' :: '}' :: rest' := by
    simpa [braced] using hstands.1
  cases m with
  | nil => cases htext
  | cons c cs =>
    simp only [List.cons_append, List.cons.injEq, true_and] at htext
    obtain ⟨rfl, htail⟩ := htext
    cases cs with
    | nil => apply hm rfl
    | cons d ds =>
      obtain ⟨rfl, -⟩ := List.cons.inj htail
      rw [Markup.Balanced, braceDepth?_cons (by decide) (by decide) (by decide),
        braceDepth?.eq_def] at hbalanced
      simp at hbalanced

variable [t.IsExtension]

/-- Markup that does not spell an ampersand alone is not that ampersand. -/
theorem Spelled.ne_ampersand (h : Spelled t keep cell m ns) (hns : ns ≠ [charNode '＆']) :
  m ≠ ['＆']
  := by
  rintro rfl
  apply hns
  have hplain : Spells t true ['＆'] [charNode '＆'] :=
    spells_plain (by decide) (by decide) (by decide)
  apply h.unique hplain.spelled

/-- The wrapper of text wraps what its argument spells where spaces count, unless that is the
escaped ampersand. -/
theorem spells_text (h : Spelled t true cell m ns) (hm : m ≠ ['＆']) :
  Spells t cell' ("\\text".toList ++ braced m)
    (ns.map (Node.rewrap fun w => w.wrap .textMode .none))
  := by
  constructor
  · exact ⟨_, _, rfl, by decide, rfl⟩
  · apply (whole_braced m).append
  · intro rest _
    constructor
    · intro sp hsp hne rest' hstands
      have hstart : '{' :: ("\\text".toList ++ braced m ++ rest)
          = "\x7b\\text\x7b".toList ++ (m ++ '}' :: rest) := by
        simp [braced]
      rw [hstart] at hstands
      rcases text_checked.2 sp hsp with rfl | hdiffer
      · have htext : m ++ '}' :: rest = '^' :: '}' :: '}' :: rest' := by
          simpa using hstands.1
        have hmarker := h.scriptMarker?_eq_none
        cases m with
        | nil => cases htext
        | cons c cs =>
          obtain ⟨rfl, -⟩ := List.cons.inj htext
          cases hmarker
      · rcases List.append_eq_append_iff.1 hstands.1 with ⟨as, hsp', -⟩ | ⟨as, htext, -⟩
        · apply hdiffer.2 ⟨as, hsp'.symm⟩
        · apply hdiffer.1 ⟨as, htext.symm⟩
    · apply Reading.free_of_start (p := "\\text\x7b".toList) (by decide)
  · apply (Closed.command "text".toList (by decide)).append h.closed_braced
    apply Follow.cons rfl
  · intro rest
    apply SymbolTable.EndsBefore.of_ne (by decide)
  · intro rest _ _ _
    have hlongest := CommandTable.longest?_command isCommand_wrapper
      (show wrapperCommands.lookup "\\text".toList = some .textMode by decide)
      (show Text.startsWithLetter (braced m ++ rest) = false from rfl)
    rw [List.append_assoc]
    have hknown : '\\' :: "text".toList ∈ Reading.knownSpellings.flatten := by
      apply List.mem_flatten_of_mem (l := wrapperCommands.commands) _ (by decide)
      simp [Reading.knownSpellings, Reading.heads]
    change Gives (Reading.item t ('\\' :: ("text".toList ++ (braced m ++ rest)))) _ _
    refine Reading.gives_item (k := 10) (r := Reading.wrapper) rfl
      (fun l hl => free_text h.closed.balanced hm hl) (SymbolTable.Misses.command rfl rfl hknown)
      (congrArg (Option.map _) hlongest) ?_
    simp only [Reading.colorOf, reduceCtorEq, if_false, if_true, h.argument_eq]
    apply Returns.bind (h.makes_spaced ?_)
    · intro made hmade
      apply Returns.pure
      refine ⟨_, rfl, ?_⟩
      rw [← hmade, List.map_map, List.map_map]
      apply List.map_congr_left
      intro n _
      exact Node.bare_rewrap (fun w => w.wrap .textMode .none) n
    · simp only [List.length_append, length_braced]
      omega

/-! ### Wrapping in turn -/

/-- A wrapper with the parameter that its kind takes. -/
inductive Wrapper.Clean : Wrapper → Prop
  | underline (style : UnderlineStyle) : Clean (.underline, .style style)
  | cancel : Clean (.cancel, .none)
  | color {color : Text} : CleanColor color → Clean (.color, .text color)
  | textMode : Clean (.textMode, .none)

/-- A wrapper wraps what is spelled inside of it. -/
theorem spells_wrap {w : Wrapper} (hw : w.Clean) (h : Spelled t keep cell m ns)
    (hkeep : w.1 = .textMode → keep = true)
    (hm : w.1 = .textMode → Writing.trimMarkup m ≠ ['＆']) :
  Spells t cell' (wrap m w) (ns.map (Node.rewrap fun wrapping => wrapping.reread w))
  := by
  have htrim := h.trimMarkup
  cases hw with
  | underline style =>
    have hunderline : ∀ {cell cell' keep : Bool} {m : Text} {ns : List Node},
        Spelled t keep cell m ns → Spells t cell' (Writing.command "\\underline" m) _ :=
      fun h => spells_wrapper
        (show wrapperCommands.lookup "\\underline".toList = some .underline by decide)
        (by decide) (by decide) (by decide) h
    cases style with
    | single => apply hunderline htrim
    | double =>
      have houter : Spells t cell' _ _ :=
        hunderline (Spells.spelled (@hunderline _ false _ _ _ htrim) : Spelled t false _ _ _)
      rw [List.map_map] at houter
      apply houter
  | cancel =>
    apply spells_wrapper
      (show wrapperCommands.lookup "\\cancel".toList = some .cancel by decide)
      (by decide) (by decide) (by decide) htrim
  | color hcolor => apply spells_color hcolor htrim
  | textMode => apply spells_text (htrim.mono (fun _ => hkeep rfl) id) (hm rfl)

/-- A node that is read inside of a wrapper is wrapped. -/
theorem rewrap_reread_ne_charNode (w : Wrapper) (c : Char) (n : Node) :
  Node.rewrap (fun wrapping => wrapping.reread w) n ≠ charNode c
  := by
  have hput : ∀ (wrapping : Wrapping) (kind : WrapperKind) (param : WrapperParam),
      ((wrapping.wrap kind param).params.get? kind).isSome = true := by
    intro wrapping kind param
    rw [Wrapping.wrap]
    split
    · rename_i hkind
      rw [hkind]
      split
      · simp [Wrapping.put]
      · rename_i hcurrent
        split
        · simp [Wrapping.put]
        · simp [WrapperParams.get?, hcurrent]
    · simp [Wrapping.put]
  have hsome : ((n.wrapping.reread w).params.get? w.1).isSome = true := by
    unfold Wrapping.reread
    split <;> apply hput
  intro heq
  have hwrapping : n.wrapping.reread w = {} := congrArg Tree.wrapping heq
  rw [hwrapping] at hsome
  obtain ⟨kind, param⟩ := w
  cases kind <;> cases hsome

/-- Wrappers one around the other wrap what is spelled inside of them. -/
theorem spelled_foldl_wrap {keep' : Bool} {ws : List Wrapper} (hws : ∀ w ∈ ws, w.Clean)
    (h : Spelled t keep cell m ns) (hkeep : ∀ w ∈ ws, w.1 = .textMode → keep = true)
    (hm : ∀ w ∈ ws.head?, w.1 = .textMode → Writing.trimMarkup m ≠ ['＆'])
    (hbare : ws = [] → (keep' = true → keep = true) ∧ (cell' = true → cell = true)) :
  Spelled t keep' cell' (ws.foldl wrap m)
    (ns.map (Node.rewrap fun wrapping => ws.foldl Wrapping.reread wrapping))
  := by
  induction ws generalizing m ns keep cell with
  | nil =>
    have hid : (Node.rewrap fun wrapping => wrapping) = id := by
      funext n
      cases n
      rfl
    rw [List.foldl_nil]
    simp only [List.foldl_nil]
    rw [hid, List.map_id]
    apply h.mono (hbare rfl).1 (hbare rfl).2
  | cons w ws ih =>
    have hspells : Spells t true (wrap m w) _ := spells_wrap (hws w List.mem_cons_self) h
      (hkeep w List.mem_cons_self) (hm w rfl)
    have hlone : ns.map (Node.rewrap fun wrapping => wrapping.reread w) ≠ [charNode '＆'] := by
      intro heq
      cases ns with
      | nil => cases heq
      | cons n ns => apply rewrap_reread_ne_charNode w '＆' n (List.cons.inj heq).1
    have hrest := ih (fun w hw => hws w (List.mem_cons_of_mem _ hw))
      (hspells.spelled) (fun _ _ _ => rfl)
      (fun _ _ _ => (hspells.spelled : Spelled t true true _ _).trimMarkup.ne_ampersand hlone)
      (fun _ => ⟨fun _ => rfl, fun _ => rfl⟩)
    rw [List.map_map] at hrest
    apply hrest

end Formula
