import Formula.Proofs.SymbolItem
import Formula.Writing.Sequence

/-!
# Written runs of text

A text is written character by character, with spaces around operators and runs of spaces
collapsed, and read again as its characters.  The commands for weight and slant give every
character the format of the run.
-/

namespace Formula

open Build Markup Writing

variable {t : SymbolTable} {keep cell tm : Bool} {c : Char} {m core rest value : Text}
  {ns : List Node}

variable [t.IsExtension]

/-! ### Groups -/

namespace Reading

/-- A group that neither an escape nor a style begins gives what the reader of groups gives. -/
theorem gives_brace {cs : Text} {b : Build (Item × Text)}
    (hescape : Free Escape.table.commands ('{' :: cs))
    (hstyle : Free styleCommands.commands (Text.skipBlanks cs))
    (hb : group .builtin (nestedBelow t (cs.length + 1)) ('{' :: cs) = some b)
    (h : Gives b ns rest) :
  Gives (item t ('{' :: cs)) ns rest
  := by
  rw [item_cons, step_eq_builtin (SymbolTable.Misses.of_ne (by decide)),
    step_brace (k := 15) rfl hstyle (free_of_escape hescape) hb]
  apply h

end Reading

/-- The empty group gives nothing. -/
theorem spells_empty_group : Spells t cell ['{', '}'] []
  := by
  constructor
  · exact ⟨_, _, rfl, by decide, rfl⟩
  · apply Whole.concat (a := ['{']) (by decide) (by decide)
  · apply Opens.of_ne (by decide)
  · apply Closed.braced Closed.nil
  · intro rest
    apply SymbolTable.EndsBefore.brace rfl
  · intro rest _ _ _
    apply Reading.gives_brace _ _ rfl
    -- The content up to the next brace is computed.
    · apply Returns.pure
      exact ⟨[], rfl, rfl⟩
    · apply free_escape_of_ne (by decide)
    · intro sp hsp hne rest' hstands
      obtain ⟨name, rfl, -⟩ := exists_of_isCommand (isCommand_style sp hsp)
      have := (List.cons.inj hstands.1).1
      contradiction

/-- A control space is a space. -/
theorem spells_control_space : Spells t cell ['\\', ' '] [charNode ' ']
  := by
  constructor
  · exact ⟨_, _, rfl, by decide, rfl⟩
  · exact ⟨['\\'], ' ', rfl, by decide, fun _ => ⟨[], rfl⟩⟩
  · intro rest _
    constructor
    · apply Reading.free_of_start (p := ['{', '\\', ' ']) (by decide)
    · apply Reading.free_of_start (p := ['\\', ' ']) (by decide)
  · apply Closed.escape (by decide) (by decide)
  · intro rest
    apply SymbolTable.EndsBefore.of_ne (by decide)
  · intro rest _ _ _
    have hspacing : ∀ nested, Reading.spacing .builtin nested ('\\' :: ' ' :: rest)
        = some (do return (.nodes [← Build.text [' ']], rest)) := by
      intro nested
      have hafter : Text.after? ['\\', ' '] ('\\' :: ' ' :: rest) = some rest :=
        Text.after?_eq_some_iff.2 rfl
      rw [Reading.spacing, hafter]
    apply Reading.gives_item (k := 15) rfl Reading.free_control_space
      (SymbolTable.Misses.escape rfl) (hspacing _)
    apply gives_char

/-- What separates a command name from a letter spells nothing. -/
theorem separator_separator (h : keep = true → tm = true) :
  Spelled.Separator t keep cell (separator tm)
  := by
  cases tm with
  | true =>
    constructor
    · apply spells_empty_group.spelled
    · intro a b
      apply Follow.cons rfl
    · intro b
      apply Follow.concat (s := ['{']) rfl
  | false =>
    have hkeep : keep = false := by
      cases keep with
      | true => apply absurd (h rfl) (by simp)
      | false => rfl
    constructor
    · apply Spelled.blank hkeep .nil
    · intro a b
      apply Follow.cons rfl
    · intro b
      apply Follow.concat (s := []) rfl

/-! ### Collapsing spaces -/

/-- A row of items without runs of spaces inside an item, apart from a control space. -/
inductive Tight (t : SymbolTable) (keep : Bool) : Text → List Node → Prop
  | nil : Tight t keep [] []
  | blank {m : Text} {ns : List Node} (h : keep = false) :
    Tight t keep m ns → Tight t keep (' ' :: m) ns
  | item {core m : Text} {ns ns' : List Node} :
    Spells t true core ns → ' ' ∉ core → Follow core m → Tight t keep m ns' →
    Tight t keep (core ++ m) (ns ++ ns')
  | controlSpace {m : Text} {ns : List Node} :
    Tight t keep m ns → Tight t keep ('\\' :: ' ' :: m) (charNode ' ' :: ns)

theorem collapseSpaces_cons (h : c ≠ ' ') :
  collapseSpaces (c :: m) = c :: collapseSpaces m
  := by
  rw [collapseSpaces.eq_def]
  split <;> simp_all

theorem collapseSpaces_append (h : ' ' ∉ core) :
  collapseSpaces (core ++ m) = core ++ collapseSpaces m
  := by
  induction core with
  | nil => rfl
  | cons c cs ih =>
    simp only [List.mem_cons, not_or] at h
    rw [List.cons_append, collapseSpaces_cons (Ne.symm h.1), ih h.2, List.cons_append]

/-- One space is left of the spaces at the beginning. -/
theorem collapseSpaces_space :
  collapseSpaces (' ' :: m) = ' ' :: collapseSpaces (m.dropWhile (· = ' '))
  := by
  induction m with
  | nil => rfl
  | cons c cs ih =>
    by_cases hc : c = ' '
    · rw [hc, collapseSpaces, ih, List.dropWhile_cons_of_pos (by simp)]
    · rw [List.dropWhile_cons_of_neg (by simp [hc]), collapseSpaces.eq_def]
      simp [hc]

theorem startsWithLetter_collapseSpaces :
  Text.startsWithLetter (collapseSpaces m) = Text.startsWithLetter m
  := by
  cases m with
  | nil => rfl
  | cons c cs =>
    by_cases hc : c = ' '
    · rw [hc, collapseSpaces_space]
      rfl
    · rw [collapseSpaces_cons hc]
      rfl

/-- Collapsing spaces keeps what is spelled, also after the spaces in front are dropped. -/
theorem Tight.collapse (h : Tight t keep m ns) :
  Spelled t keep true (collapseSpaces m) ns
    ∧ Spelled t keep true (collapseSpaces (m.dropWhile (· = ' '))) ns
  := by
  induction h with
  | nil =>
    constructor
    · apply Spelled.nil
    · apply Spelled.nil
  | blank hkeep _ ih =>
    rw [collapseSpaces_space, List.dropWhile_cons_of_pos (by simp)]
    constructor
    · apply Spelled.blank hkeep ih.2
    · apply ih.2
  | item hcore hspace hfollow _ ih =>
    obtain ⟨c, cs, rfl, hblank, -⟩ := hcore.head
    have hc : c ≠ ' ' := by
      rintro rfl
      contradiction
    have hdrop : ∀ m : Text, (c :: cs ++ m).dropWhile (· = ' ') = c :: cs ++ m :=
      fun m => List.dropWhile_cons_of_neg (by simp [hc])
    rw [hdrop, and_self, collapseSpaces_append hspace]
    apply Spelled.item hcore _ ih.1
    intro hends
    rw [startsWithLetter_collapseSpaces]
    apply hfollow hends
  | controlSpace _ ih =>
    rw [List.dropWhile_cons_of_neg (by decide), and_self, collapseSpaces_cons (by decide),
      collapseSpaces_space]
    apply Spelled.item spells_control_space _ ih.2
    apply Follow.concat (s := ['\\']) rfl

/-! ### Characters -/

/-- The characters that a text may have: spaces, and characters that are not blank. -/
def isTextChar (c : Char) : Bool := c = ' ' || !Text.isBlank c

/-- A character that is read as it is written: a blank other than a space has to be the glyph of
a symbol. -/
def SymbolTable.Writes (t : SymbolTable) (c : Char) : Prop :=
  (t.commandFor? [c]).isSome = true ∨ isTextChar c = true

theorem writtenEscapes_tight : ∀ sp ∈ writtenEscapes, ' ' ∉ sp ∧ endsInName sp = false
  := by decide

/-- A text that ends with a command name ends with a letter. -/
theorem getLast?_of_endsInName {s : Text} (h : endsInName s = true) :
  s.getLast?.any Text.isLetter = true
  := by
  rcases List.eq_nil_or_concat' s with rfl | ⟨front, c, rfl⟩
  · contradiction
  · cases hc : Text.isLetter c with
    | true => simp [hc]
    | false =>
      rw [endsInName_concat hc] at h
      contradiction

theorem space_not_mem_command {command : Text} (h : command ∈ t.commands) :
  ' ' ∉ command
  := by
  rcases Reading.command_cases h with ⟨name, rfl, hname⟩ | ⟨-, rfl | ⟨d, hd, rfl⟩⟩
  · have hletters := Reading.isLetters_of_isInertName hname.inert
    simp only [Text.isLetters, Bool.and_eq_true, List.all_eq_true] at hletters
    intro hmem
    rcases List.mem_cons.1 hmem with h | h
    · contradiction
    · have := hletters.2 _ h
      contradiction
  · decide
  · have hd' : ' ' ≠ d := by
      rintro rfl
      contradiction
    simp [Reading.blackboard, hd']

/-- The command of a symbol in front of more, which no letter begins if the command ends with
one. -/
theorem Tight.symbol {command : Text}
    (hcommand : t.commandFor? [c] = some command)
    (hm : command.getLast?.any Text.isLetter = true → Text.startsWithLetter m = false)
    (h : Tight t tm m ns) :
  Tight t tm (command ++ m) (charNode c :: ns)
  := by
  apply Tight.item (spells_symbol hcommand) _ _ h
  · apply space_not_mem_command (SymbolTable.glyphOf?_commandFor? hcommand).1
  · intro hends
    apply hm (getLast?_of_endsInName hends)

/-- A character that has neither an escape nor a command is none of those that count in markup. -/
theorem ne_of_unescaped (hescape : Escape.spelling? c = none) (hcommand : t.commandFor? [c] = none) :
  ∀ d ∈ ['\\', '{', '}', '^', '_', '&'], c ≠ d
  := by
  rintro d hd rfl
  simp only [List.mem_cons, List.not_mem_nil, or_false] at hd
  rcases hd with rfl | rfl | rfl | rfl | rfl | rfl
  · obtain ⟨command, h⟩ := SymbolTable.commandFor?_backslash (t := t)
    rw [hcommand] at h
    cases h
  all_goals cases hescape

/-- No character ends with a command name. -/
theorem endsInName_singleton :
  endsInName [c] = false
  := by
  simp only [endsInName, Writing.endsInCommandReversed, List.reverse_singleton,
    List.takeWhile_cons, List.dropWhile_cons]
  split <;> simp

/-- The command of a symbol is not empty. -/
theorem filter_commandFor? :
  (t.commandFor? [c]).filter (!·.isEmpty) = t.commandFor? [c]
  := by
  cases h : t.commandFor? [c] with
  | none => rfl
  | some command =>
    have hne := (@spells_symbol t true _ _ _ h).ne_nil
    rw [Option.filter_some, if_pos (by simpa using hne)]

/-- What a character is written as: a control space, an escape, the command of its symbol, or the
character itself.  Operators are padded outside of text mode, and a command that ends with a letter
is separated from what follows. -/
theorem escapeChar_cases {P : Text → Prop} (space : c = ' ' → P ['\\', ' '])
    (escape : ∀ spelling, Escape.spelling? c = some spelling → P spelling)
    (separated : ∀ command, t.commandFor? [c] = some command → P (command ++ separator tm))
    (bare : ∀ command, t.commandFor? [c] = some command →
      command.getLast?.any Text.isLetter = false → P command)
    (operator : ∀ command, t.commandFor? [c] = some command → tm = false → P (padded command))
    (plain : c ≠ ' ' → Escape.spelling? c = none → t.commandFor? [c] = none → P [c])
    (plainOperator : c ≠ ' ' → Escape.spelling? c = none → t.commandFor? [c] = none → tm = false →
      P (padded [c])) :
  P (escapeChar t tm c)
  := by
  have hends : ∀ command : Text, t.commandFor? [c] = some command →
      P (command ++ if command.getLast?.any Text.isLetter then separator tm else []) := by
    intro command hcommand
    split
    · apply separated command hcommand
    · rename_i hlast
      rw [List.append_nil]
      apply bare command hcommand (by simpa using hlast)
  rw [escapeChar, filter_commandFor?]
  split
  · rename_i h
    apply space h
  rename_i hspace
  split
  · rename_i spelling h
    apply escape spelling h
  rename_i hescape
  split
  · rename_i command hcommand
    cases tm with
    | true => apply hends command hcommand
    | false =>
      simp only [Bool.false_eq_true, if_false]
      split
      · apply operator command hcommand rfl
      · apply hends command hcommand
  · rename_i hcommand
    split
    · rename_i hoperator
      apply plainOperator hspace hescape hcommand (by simp_all)
    · apply plain hspace hescape hcommand

/-- A character that has neither an escape nor a command in front of more. -/
theorem Tight.plain (hblank : Text.isBlank c = false) (hescape : Escape.spelling? c = none)
    (hcommand : t.commandFor? [c] = none) (h : Tight t tm m ns) :
  Tight t tm (c :: m) (charNode c :: ns)
  := by
  have hne := ne_of_unescaped hescape hcommand
  have hspace : c ≠ ' ' := by
    rintro rfl
    contradiction
  rw [← List.singleton_append, ← List.singleton_append (l := ns)]
  apply Tight.item _ _ _ h
  · apply spells_plain hblank
    · intro hmem
      apply hne c _ rfl
      revert hmem
      simp only [List.mem_cons, List.not_mem_nil, or_false]
      grind
    · intro _
      apply hne '&' (by simp)
  · simpa using Ne.symm hspace
  · intro hends
    rw [endsInName_singleton] at hends
    cases hends

/-- No letter begins what separates a command name from a letter. -/
theorem startsWithLetter_separator :
  Text.startsWithLetter (separator tm ++ m) = false
  := by
  cases tm <;> rfl

/-- No text ends with a command name behind which it is separated from what follows. -/
theorem endsInName_separator :
  endsInName (m ++ separator tm) = false
  := by
  cases tm with
  | true =>
    rw [separator, if_pos rfl, ← List.singleton_append, ← List.append_assoc]
    apply endsInName_concat rfl
  | false => apply endsInName_concat rfl

/-- What separates a command name from a letter, in front of more. -/
theorem Tight.separator (h : Tight t tm m ns) :
  Tight t tm (Writing.separator tm ++ m) ns
  := by
  cases tm with
  | true => apply Tight.item spells_empty_group (by decide) (Follow.concat (s := ['{']) rfl) h
  | false => apply Tight.blank rfl h

/-- The markup of a character in front of more. -/
theorem Tight.escapeChar (hc : t.Writes c) (h : Tight t tm m ns) :
  Tight t tm (Writing.escapeChar t tm c ++ m) (charNode c :: ns)
  := by
  have hblank : c ≠ ' ' → t.commandFor? [c] = none → Text.isBlank c = false := by
    intro hspace hcommand
    rcases hc with hc | hc
    · rw [hcommand] at hc
      contradiction
    · simpa [isTextChar, hspace] using hc
  have hpadded : ∀ {s : Text}, tm = false →
      (Tight t tm (s ++ (' ' :: m)) (charNode c :: ns)) →
      Tight t tm (padded s ++ m) (charNode c :: ns) := by
    intro s htm hs
    rw [padded, List.append_assoc, List.append_assoc]
    apply Tight.blank htm hs
  apply escapeChar_cases (P := fun s => Tight t tm (s ++ m) (charNode c :: ns))
  case space =>
    rintro rfl
    apply Tight.controlSpace h
  case escape =>
    intro spelling hspelling
    obtain ⟨htight, hends⟩ := writtenEscapes_tight _ (mem_writtenEscapes hspelling)
    apply Tight.item (spells_escape hspelling) htight _ h
    intro hends'
    rw [hends] at hends'
    contradiction
  case separated =>
    intro command hcommand
    rw [List.append_assoc]
    apply Tight.symbol hcommand (fun _ => startsWithLetter_separator) h.separator
  case bare =>
    intro command hcommand hlast
    apply Tight.symbol hcommand _ h
    rw [hlast]
    intro hletter
    contradiction
  case operator =>
    intro command hcommand htm
    apply hpadded htm (Tight.symbol hcommand (fun _ => rfl) (Tight.blank htm h))
  case plain =>
    intro hspace hescape hcommand
    apply Tight.plain (hblank hspace hcommand) hescape hcommand h
  case plainOperator =>
    intro hspace hescape hcommand htm
    apply hpadded htm (Tight.plain (hblank hspace hcommand) hescape hcommand (Tight.blank htm h))

/-- A text is read as its characters. -/
theorem spelled_escapeText (h : ∀ c ∈ value, t.Writes c) :
  Spelled t tm true (escapeText t tm value) (value.map charNode)
  := by
  apply (Tight.collapse _).1
  induction value with
  | nil => apply Tight.nil
  | cons c cs ih =>
    rw [List.flatMap_cons, List.map_cons]
    apply Tight.escapeChar (h c List.mem_cons_self)
    apply ih fun c hc => h c (List.mem_cons_of_mem _ hc)

/-- A character that is written with a command is not written as itself. -/
theorem trimMarkup_escapeText_ne {command : Text} (hspace : c ≠ ' ') (hback : c ≠ '\\')
    (hescape : Escape.spelling? c = none) (h : t.commandFor? [c] = some command) :
  trimMarkup (escapeText t tm [c]) ≠ [c]
  := by
  obtain ⟨cs, rfl⟩ : ∃ cs, command = '\\' :: cs := by
    rcases Reading.command_cases (SymbolTable.glyphOf?_commandFor? h).1 with
      ⟨name, rfl, -⟩ | ⟨-, rfl | ⟨d, -, rfl⟩⟩ <;> exact ⟨_, rfl⟩
  have hstart : ∃ rest,
      (collapseSpaces (escapeChar t tm c)).dropWhile (· = ' ') = '\\' :: rest := by
    have hspaced : ∀ s : Text, (collapseSpaces (' ' :: '\\' :: s)).dropWhile (· = ' ')
        = '\\' :: collapseSpaces s := by
      intro s
      rw [collapseSpaces_space, List.dropWhile_cons_of_pos (by decide),
        List.dropWhile_cons_of_neg (by decide), collapseSpaces_cons (by decide),
        List.dropWhile_cons_of_neg (by decide)]
    have hplain : ∀ s : Text, (collapseSpaces ('\\' :: s)).dropWhile (· = ' ')
        = '\\' :: collapseSpaces s := by
      intro s
      rw [collapseSpaces_cons (by decide), List.dropWhile_cons_of_neg (by decide)]
    rw [escapeChar, if_neg hspace, hescape, h]
    simp only [Option.filter_some, List.isEmpty_cons, Bool.not_false, if_true]
    split
    · exact ⟨_, hplain _⟩
    · split
      · exact ⟨_, hspaced _⟩
      · exact ⟨_, hplain _⟩
  obtain ⟨rest, hrest⟩ := hstart
  intro heq
  rw [escapeText, List.flatMap_singleton, trimMarkup_eq, hrest] at heq
  have hprefix := isPrefix_trimEndSpaces ('\\' :: rest)
  rw [heq] at hprefix
  apply hback (List.cons_prefix_cons.1 hprefix).1

end Formula
