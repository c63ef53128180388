import Formula.Proofs.Character

/-!
# Written symbols

A glyph is written with the command of the first symbol that has it, and that command is
read as the glyph again.
-/

namespace Formula

open Build Markup

variable {t : SymbolTable} {cell : Bool} {c : Char} {name rest command : Text}

namespace Reading

/-- The command of a blackboard letter. -/
def blackboard (c : Char) : Text := ['\\', 'm', 'a', 't', 'h', 'b', 'b', '{', c, '}']

/-- A command name that no reader before that of symbols takes, and that neither sizes a bracket
nor begins or ends an environment. -/
structure IsSymbolName (name : Text) : Prop where
  inert : isInertName name = true
  fresh : ∀ l ∈ heads.take 12, ∀ sp ∈ l, sp ≠ ['\\'] ∧ Text.nameOf? sp ≠ some name

theorem isLetters_of_isInertName (h : isInertName name = true) :
  Text.isLetters name = true
  := by
  simp only [isInertName, Bool.and_eq_true] at h
  apply h.1.1.1.1

/-- A command name that is in none of the other lists is inert. -/
theorem isInertName_of_forall (hname : Text.isLetters name = true)
    (h : ∀ k l, knownSpellings[k]? = some l → '\\' :: name ∈ l → k = 12) :
  isInertName name = true
  := by
  have hleft : Delimiter.sizeNames.any (·.1 = name) = false := by
    rw [List.any_eq_false]
    intro names hnames heq
    have := h 14 (Delimiter.sizes.map (·.1)) rfl (by
      rw [← of_decide_eq_true heq]
      simp only [Delimiter.sizes, List.map_map, List.mem_map]
      exact ⟨names, hnames, rfl⟩)
    contradiction
  have hright : Delimiter.sizeNames.any (·.2 = name) = false := by
    rw [List.any_eq_false]
    intro names hnames heq
    have := h 17 closers rfl (by
      rw [← of_decide_eq_true heq]
      apply List.mem_cons_of_mem
      simp only [Delimiter.sizes, List.map_map, List.mem_map]
      exact ⟨names, hnames, rfl⟩)
    contradiction
  have hbegin : "begin".toList ≠ name := by
    rintro rfl
    have := h 4 ["\\begin".toList] rfl (by decide)
    contradiction
  have hend : "end".toList ≠ name := by
    rintro rfl
    have := h 17 closers rfl List.mem_cons_self
    contradiction
  rw [isInertName, hname, hleft, hright, bne_iff_ne.2 hbegin, bne_iff_ne.2 hend]
  rfl

/-- The three kinds of commands of the built-in symbols. -/
theorem symbolCommand_cases (h : command ∈ symbolCommands) :
  (∃ name, command = '\\' :: name ∧ Text.isLetters name = true
      ∧ Text.code name ≠ Text.code "text".toList)
    ∨ command = ['\\', '$']
    ∨ ∃ c, Text.isLetter c = true ∧ command = blackboard c
  := by
  have hchecked := heads_checked.2.2.2.2.2.1 command h
  unfold isSymbolSpelling at hchecked
  split at hchecked
  · rename_i name
    simp only [Bool.or_eq_true, Bool.and_eq_true, bne_iff_ne, beq_iff_eq] at hchecked
    rcases hchecked with (⟨⟨hname, -⟩, htext⟩ | rfl) | hbb
    · exact Or.inl ⟨name, rfl, hname, htext⟩
    · exact Or.inr (Or.inl rfl)
    · obtain ⟨c, hc, hname⟩ := List.any_eq_true.1 hbb
      rw [beq_iff_eq] at hname
      have hletters : ∀ c ∈ "RZQNCHP".toList, Text.isLetter c = true := by decide
      exact Or.inr (Or.inr ⟨c, hletters c hc, by rw [hname]; rfl⟩)
  · contradiction

/-- A built-in command with a name is told from the other commands by it. -/
theorem isSymbolName_builtin (hmem : '\\' :: name ∈ symbolCommands)
    (hname : Text.isLetters name = true) (htext : Text.code name ≠ Text.code "text".toList) :
  IsSymbolName name
  where
  inert := by
    apply isInertName_of_forall hname
    intro k l hk hmem'
    apply eq_of_nameOf?_eq hname htext hk (getElem?_knownSpellings (k := 12) rfl) hmem' hmem
      (nameOf?_command hname) (nameOf?_command hname)
  fresh l hl sp hsp :=
    nameOf?_ne hname htext (k := 12) rfl hmem (nameOf?_command hname) hl hsp

/-- The command of a further symbol is told from the other commands by its name. -/
theorem isSymbolName_own (hname : Text.isLetters name = true)
    (hown : '\\' :: name ∉ knownSpellings.flatten) :
  IsSymbolName name
  where
  inert := by
    apply isInertName_of_forall hname
    intro k l hk hmem
    apply absurd _ hown
    apply List.mem_flatten_of_mem (List.mem_of_getElem? hk) hmem
  fresh l hl sp hsp := by
    constructor
    · apply (heads_checked.2.2.1 l (List.mem_of_mem_take hl) sp hsp).1
    · intro h
      apply hown
      apply mem_knownSpellings_of_nameOf? hname hl hsp h

variable [t.IsExtension]

/-- The commands of symbols are command names, or built-in commands of two other kinds. -/
theorem command_cases (h : command ∈ t.commands) :
  (∃ name, command = '\\' :: name ∧ IsSymbolName name)
    ∨ command ∈ symbolCommands ∧ (command = ['\\', '$']
      ∨ ∃ c, Text.isLetter c = true ∧ command = blackboard c)
  := by
  by_cases hbuiltin : command ∈ symbolCommands
  · rcases symbolCommand_cases hbuiltin with ⟨name, rfl, hname, htext⟩ | hother
    · exact Or.inl ⟨name, rfl, isSymbolName_builtin hbuiltin hname htext⟩
    · exact Or.inr ⟨hbuiltin, hother⟩
  · obtain ⟨hcommand, hown⟩ := SymbolTable.IsExtension.own command h hbuiltin
    obtain ⟨name, rfl, hname⟩ := exists_of_isCommand hcommand
    exact Or.inl ⟨name, rfl, isSymbolName_own hname hown⟩

/-- A symbol with a command name is found as a whole. -/
theorem longest?_symbol_name (hmem : '\\' :: name ∈ t.commands)
    (hname : Text.isLetters name = true) (hrest : Text.startsWithLetter rest = false)
    (hends : t.EndsBefore rest) :
  t.spellings.longest? ('\\' :: (name ++ rest)) = some ('\\' :: name, rest)
  := by
  rw [SymbolTable.spellings_eq_commands]
  apply Spellings.longest?_eq_some_iff.2
  refine ⟨List.cons_ne_nil _ _, hmem, ⟨rfl, by simp [Spellings.boundary, hrest]⟩, ?_⟩
  intro sp hsp rest' hstands
  have hnameOf : sp ≠ [] → sp ≠ ['\\'] → Text.nameOf? sp = some name := fun hne hbare =>
    Spellings.nameOf?_of_stands hname hrest hne hbare hstands
  rcases command_cases hsp with ⟨name', rfl, hname'⟩ | ⟨-, rfl | ⟨d, hd, rfl⟩⟩
  · have hletters := isLetters_of_isInertName hname'.inert
    have heq := hnameOf (List.cons_ne_nil _ _) (by
      rintro heq
      rw [(List.cons.inj heq).2] at hletters
      contradiction)
    rw [nameOf?_command hletters] at heq
    rw [Option.some.inj heq]
  · obtain rfl := Option.some.inj (hnameOf (by simp) (by simp))
    contradiction
  · -- The name is that of blackboard letters, after which no letter in braces stands.
    obtain rfl := Option.some.inj (hnameOf (by simp [blackboard]) (by simp [blackboard]))
    have hbraced : rest = '{' :: d :: '}' :: rest' := by
      have htext : '\\' :: ("mathbb".toList ++ rest)
          = '\\' :: ("mathbb".toList ++ '{' :: d :: '}' :: rest') := hstands.1
      apply List.append_cancel_left (List.cons.inj htext).2
    have hletter := hends hmem
    rw [hbraced, SymbolTable.startsWithBracedLetter, hd] at hletter
    contradiction

/-- A symbol command that is no command name is not the beginning of another one. -/
theorem eq_of_prefix_command {sp : Text}
    (hcommand : command = ['\\', '$']
      ∨ ∃ c, Text.isLetter c = true ∧ command = blackboard c)
    (hsp : sp ∈ t.commands) (h : command <+: sp) :
  sp = command
  := by
  obtain ⟨tail, htail⟩ := h
  rcases command_cases hsp with ⟨name, rfl, hname⟩ | ⟨-, rfl | ⟨d, -, rfl⟩⟩
  · have hplain := letters_plain (isLetters_of_isInertName hname.inert)
    have hletters := isLetters_of_isInertName hname.inert
    simp only [Text.isLetters, Bool.and_eq_true, List.all_eq_true] at hletters
    rcases hcommand with rfl | ⟨c, -, rfl⟩
    · have hmem : '$' ∈ name := by
        rw [← (List.cons.inj htail).2]
        apply List.mem_cons_self
      have := hletters.2 _ hmem
      contradiction
    · have hmem : '{' ∈ name := by
        rw [← (List.cons.inj htail).2]
        simp
      apply absurd rfl (hplain _ hmem).2.1
  · rcases hcommand with rfl | ⟨c, -, rfl⟩
    · rfl
    · simp [blackboard] at htail
  · rcases hcommand with rfl | ⟨c, -, rfl⟩
    · simp [blackboard] at htail
    · simp only [blackboard, List.cons_append, List.nil_append, List.cons.injEq] at htail
      rw [htail.2.2.2.2.2.2.2.2.1]

/-- A symbol command that is no command name is found as a whole. -/
theorem longest?_symbol_other (hmem : command ∈ t.commands)
    (hcommand : command = ['\\', '$']
      ∨ ∃ c, Text.isLetter c = true ∧ command = blackboard c) :
  t.spellings.longest? (command ++ rest) = some (command, rest)
  := by
  rw [SymbolTable.spellings_eq_commands]
  apply Spellings.longest?_append _ hmem
  · have hlast : command.getLast?.any Text.isLetter = false := by
      rcases hcommand with rfl | ⟨c, -, rfl⟩
      · rfl
      · rfl
    rw [Spellings.boundary, hlast]
    rfl
  · intro sp hsp hprefix
    by_contra hlt
    have := List.prefix_of_prefix_length_le (List.prefix_append command rest) hprefix (by omega)
    rw [eq_of_prefix_command hcommand hsp this] at hlt
    apply hlt (Nat.le_refl _)
  · rcases hcommand with rfl | ⟨c, -, rfl⟩ <;> simp [blackboard]

omit [t.IsExtension] in
/-- A symbol that is found is read as its glyph, where no reader before that of symbols takes the
item. -/
theorem gives_symbol {s cs : Text} (hs : s = '\\' :: cs)
    (hfree : ∀ l ∈ heads.take 12, Free l s) (hglyph : t.glyphOf? command = some [c])
    (h : t.spellings.longest? s = some (command, rest)) :
  Gives (item t s) [charNode c] rest
  := by
  have hread : ∀ nested,
      symbol t nested s = some (do return (.nodes [← Build.text [c]], rest)) := by
    intro nested
    simp [symbol, h, hglyph]
  subst hs
  rw [item_cons, step_symbol hfree (hread _)]
  apply gives_char

end Reading

/-- The command of a symbol is read as its glyph. -/
theorem spells_symbol [t.IsExtension] (h : t.commandFor? [c] = some command) :
  Spells t cell command [charNode c]
  := by
  obtain ⟨hmem, hglyph⟩ := SymbolTable.glyphOf?_commandFor? h
  rcases Reading.command_cases hmem with ⟨name, rfl, hname⟩ | ⟨hbuiltin, hother⟩
  · have hletters := Reading.isLetters_of_isInertName hname.inert
    have hrest : ∀ {rest}, Follow ('\\' :: name) rest → Text.startsWithLetter rest = false :=
      fun hfollow => hfollow (endsInName_command hletters)
    have hfree := fun rest hfollow l hl =>
      @Reading.free_of_name l name rest hletters (hrest hfollow) (hname.fresh l hl)
    constructor
    · exact ⟨'\\', name, rfl, by decide, rfl⟩
    · apply Whole.command hletters
    · rw [← List.append_nil name]
      apply Opens.command hletters rfl
      · rintro rfl
        apply (hname.fresh wrapperCommands.commands (by simp [Reading.heads]) "\\text".toList
          (by decide)).2 rfl
      · intro hstyle
        apply (hname.fresh (['{'] :: styleCommands.commands) (by simp [Reading.heads]) _
          (List.mem_cons_of_mem _ hstyle)).2 (nameOf?_command hletters)
    · apply Closed.command _ hname.inert
    · intro rest
      apply SymbolTable.EndsBefore.of_ne (by decide)
    · intro rest hfollow _ hends
      apply Reading.gives_symbol rfl (hfree rest hfollow) hglyph
      apply Reading.longest?_symbol_name hmem hletters (hrest hfollow) hends
  · have hlongest := fun rest => @Reading.longest?_symbol_other t rest _ _ hmem hother
    rcases hother with rfl | ⟨d, hd, rfl⟩
    · constructor
      · exact ⟨_, _, rfl, by decide, rfl⟩
      · apply Whole.concat (a := ['\\']) (by decide) (by decide)
      · intro rest _
        constructor
        · apply Reading.free_of_start (p := "\x7b\\$".toList) (by decide)
        · apply Reading.free_of_start (p := "\\$".toList) (by decide)
      · apply Closed.escape (by decide) (by decide)
      · intro rest
        apply SymbolTable.EndsBefore.of_ne (by decide)
      · intro rest _ _ _
        apply Reading.gives_symbol rfl _ hglyph (hlongest rest)
        apply Reading.free_escaped_dollar
    · constructor
      · exact ⟨_, _, rfl, by decide, rfl⟩
      · apply Whole.concat (a := ['\\', 'm', 'a', 't', 'h', 'b', 'b', '{', d]) (by decide) (by decide)
      · apply @Opens.command "mathbb".toList ['{', d, '}'] rfl rfl (by decide) (by decide)
      · apply Closed.append (a := '\\' :: "mathbb".toList) (b := ['{', d, '}'])
        · apply Closed.command _ (by decide)
        · apply Closed.braced (m := [d])
          apply Closed.plain _ (by simp)
          apply letters_plain
          simp [Text.isLetters, hd]
        · apply Follow.cons rfl
      · intro rest
        apply SymbolTable.EndsBefore.of_ne (by decide)
      · intro rest _ _ _
        apply Reading.gives_symbol rfl _ hglyph (hlongest rest)
        apply @Reading.free_of_nameOf? _ "mathbb".toList ('{' :: d :: '}' :: rest) _ _ rfl
          (by decide) rfl hbuiltin rfl rfl

end Formula
