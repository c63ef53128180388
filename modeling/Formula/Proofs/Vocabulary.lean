import Formula.Proofs.Characters
import Formula.Proofs.Distinct
import Formula.Proofs.Matching
import Formula.Reading.Sequence

/-!
# The vocabulary of markup

The readers are tried in a fixed order, and each of them has its spellings.  `Reading.heads`
lists the spellings reader by reader, and `Reading.knownSpellings` those that end a part of an
item besides.  No two readers have a command in common, apart from the one that escapes share
with wrappers.
-/

namespace Formula

/-- A number for a text, by which texts are quickly told apart. -/
def Text.code (s : Text) : Nat := s.foldl (fun n c => n * 256 + c.toNat) 0

/-- Whether the text is a backslash and a run of letters. -/
def isCommand : Text → Bool
  | '\\' :: name => Text.isLetters name
  | _ => false

/-- The command, without the backslash. -/
theorem exists_of_isCommand {command : Text} (h : isCommand command = true) :
  ∃ name, command = '\\' :: name ∧ Text.isLetters name = true
  := by
  unfold isCommand at h
  split at h
  · exact ⟨_, rfl, h⟩
  · contradiction

theorem nameOf?_command {name : Text} (hname : Text.isLetters name = true) :
  Text.nameOf? ('\\' :: name) = some name
  := by
  have := @Text.takeWhile_isLetter_append _ [] hname rfl
  rw [List.append_nil] at this
  rw [Text.nameOf?, this]

/-! ### The built-in symbols -/

/-- The built-in symbols, as they are declared. -/
def builtinSymbols : List SymbolInfo := builtinGroups.flatMap SymbolGroup.symbols

namespace SymbolTable

/-- A new command is declared at the end. -/
theorem declare_eq_append {symbols : List SymbolInfo} {info : SymbolInfo}
    (h : info.command ∉ symbols.map (·.command)) :
  declare symbols info = symbols ++ [info]
  := by
  induction symbols with
  | nil => rfl
  | cons known rest ih =>
    simp only [List.map_cons, List.mem_cons, not_or] at h
    rw [declare, if_neg (Ne.symm h.1), ih h.2]
    rfl

/-- Declarations of different commands are kept as they are. -/
theorem foldl_declare {symbols declarations : List SymbolInfo}
    (h : ((symbols ++ declarations).map (·.command)).Nodup) :
  declarations.foldl declare symbols = symbols ++ declarations
  := by
  induction declarations generalizing symbols with
  | nil => simp
  | cons info rest ih =>
    have hnew : info.command ∉ symbols.map (·.command) := by
      rw [List.map_append, List.map_cons] at h
      intro hmem
      apply (List.nodup_append.1 h).2.2 _ hmem _ List.mem_cons_self rfl
    rw [List.foldl_cons, declare_eq_append hnew, ih]
    · simp
    · simpa using h

theorem symbols_ofList (declarations : List SymbolInfo) :
  (ofList declarations).symbols = declarations.foldl declare []
  := rfl

/-- Further symbols with commands of their own come after the built-in ones. -/
theorem symbols_withExtra {extra : List SymbolInfo}
    (h : ((builtinSymbols ++ extra).map (·.command)).Nodup) :
  (withExtra extra).symbols = builtinSymbols ++ extra
  := by
  rw [withExtra, symbols_ofList, ← builtinSymbols, foldl_declare]
  · apply List.nil_append
  · apply h

end SymbolTable

namespace Reading

/-! ### The spellings of the readers -/

/-- The commands of the built-in symbols. -/
def symbolCommands : List Text := builtinSymbols.map (·.command)

/-- The spacing commands that are dropped. -/
def spacingCommands : List Text :=
  ["\\,", "\\;", "\\:", "\\!", "\\quad", "\\qquad"].map String.toList

/-- The spellings with which the items of every reader begin, in the order of the readers. -/
def heads : List (List Text) :=
  [['{'] :: styleCommands.commands, derivativeCommands.commands, fractionCommands.commands,
    ["\\sqrt".toList], ["\\begin".toList], LargeOperator.table.commands,
    IntegralCommand.table.commands, "\\operatorname".toList :: FunctionInfo.table.commands,
    Escape.table.commands, attributeCommands.commands, wrapperCommands.commands,
    AccentType.table.commands, symbolCommands, [['^'], ['_']], Delimiter.sizes.map (·.1),
    ['\\', ' '] :: spacingCommands, [['{']]]

/-- The spellings that end an environment or a bracket. -/
def closers : List Text := "\\end".toList :: Delimiter.sizes.map (·.2)

/-- The spellings that are known to the readers. -/
def knownSpellings : List (List Text) := heads ++ [closers]

/-- Whether a spelling is a command of a symbol: a command name, the escaped dollar sign, or a
blackboard letter. -/
def isSymbolSpelling : Text → Bool
  | '\\' :: name =>
    (Text.isLetters name && Text.code name != Text.code "mathbb".toList
        && Text.code name != Text.code "text".toList)
      || name == ['$']
      || "RZQNCHP".toList.any fun c => name == "mathbb\x7b".toList ++ [c, '}']
  | _ => false

/-- Whether a spelling is a command, or has no name, or a name that commands have. -/
def hasKnownName (sp : Text) : Bool :=
  isCommand sp
    || [none, some [], some "text".toList, some "textasciitilde".toList].contains sp.nameOf?

/-- The numbers of the command names among spellings. -/
def nameCodes (l : List Text) : List Nat :=
  l.filterMap fun sp => (sp.nameOf?.filter (!·.isEmpty)).map Text.code

/-- The command names among the known spellings with the places of their lists, apart from the
name of the wrapper of text. -/
def nameEntries : List (Nat × Nat) :=
  (knownSpellings.zipIdx.flatMap fun p => (nameCodes p.1).map (·, p.2)).filter
    (·.1 != Text.code "text".toList)

/-- What is computed about the spellings: the symbols have different commands; no name is in
two lists, apart from the one that escapes share with wrappers; every spelling begins with one
of four characters, and none is a lone backslash; before symbols no spelling begins with an
escaped dollar sign, and none has a name that no command has; only the spacing reader takes a
control space; the commands of symbols are of three kinds, and one of them denotes the
backslash; what begins with a brace is an escape, a style or a group; no command is a single
letter; and after styles, derivatives and fractions no command begins like those of display
style. -/
theorem heads_checked :
  isFunctional (symbolCommands.map Text.code).zipIdx = true
    ∧ isFunctional nameEntries = true
    ∧ (∀ l ∈ heads, ∀ sp ∈ l,
        sp ≠ ['\\'] ∧ ∃ c ∈ ['\\', '{', '^', '_'], sp.head? = some c)
    ∧ (∀ l ∈ heads.take 12, ∀ sp ∈ l, sp.take 2 ≠ ['\\', '$'] ∧ hasKnownName sp = true)
    ∧ (∀ l ∈ heads.take 15, ∀ sp ∈ l, sp.take 2 ≠ ['\\', ' '])
    ∧ (∀ sp ∈ symbolCommands, isSymbolSpelling sp = true)
    ∧ builtinSymbols.any (fun info => info.glyph = ['\\'] && !info.largeOperator) = true
    ∧ (∀ l ∈ heads.tail.take 15, ∀ sp ∈ l,
        sp.head? = some '{' → sp ∈ Escape.table.commands)
    ∧ (∀ l ∈ knownSpellings, ∀ sp ∈ l, (sp.length == 2 && isCommand sp) = false)
    ∧ (∀ l ∈ heads.drop 3, ∀ sp ∈ l,
        ¬ "\\displaystyle".toList <+: sp ∧ ¬ "\\dfrac".toList <+: sp)
  := by
  decide +kernel

variable {l l' : List Text} {sp sp' name : Text} {j k : Nat}

theorem nodup_symbolCommands : symbolCommands.Nodup
  := List.Nodup.of_map Text.code (nodup_of_isFunctional heads_checked.1)

theorem mem_nameCodes (hname : Text.isLetters name = true) (hmem : sp ∈ l)
    (h : Text.nameOf? sp = some name) :
  name.code ∈ nameCodes l
  := by
  apply List.mem_filterMap.2
  refine ⟨sp, hmem, ?_⟩
  simp only [Text.isLetters, Bool.and_eq_true] at hname
  rw [h, Option.filter_some, if_pos hname.1, Option.map_some]

/-- No known command is a single letter. -/
theorem letter_not_mem_knownSpellings {c : Char} (h : Text.isLetter c = true) :
  ['\\', c] ∉ knownSpellings.flatten
  := by
  intro hmem
  obtain ⟨l, hl, hsp⟩ := List.mem_flatten.1 hmem
  have := heads_checked.2.2.2.2.2.2.2.2.1 l hl _ hsp
  simp [isCommand, Text.isLetters, h] at this

/-- A command name is in one list only, apart from the name of the wrapper of text. -/
theorem eq_of_nameOf?_eq (hname : Text.isLetters name = true)
    (htext : name.code ≠ Text.code "text".toList) (hj : knownSpellings[j]? = some l)
    (hk : knownSpellings[k]? = some l') (hsp : sp ∈ l) (hsp' : sp' ∈ l')
    (h : Text.nameOf? sp = some name) (h' : Text.nameOf? sp' = some name) :
  j = k
  := by
  have hentry : ∀ {i l sp}, knownSpellings[i]? = some l → sp ∈ l →
      Text.nameOf? sp = some name → (name.code, i) ∈ nameEntries := by
    intro i l sp hi hsp h
    apply List.mem_filter.2
    refine ⟨List.mem_flatMap.2 ⟨(l, i), ?_, ?_⟩, bne_iff_ne.2 htext⟩
    · rw [List.mem_zipIdx_iff_getElem?, hi]
    · apply List.mem_map_of_mem (mem_nameCodes hname hsp h)
  apply eq_of_isFunctional heads_checked.2.1 (hentry hj hsp h) (hentry hk hsp' h')

theorem getElem?_knownSpellings (h : heads[k]? = some l) :
  knownSpellings[k]? = some l
  := by
  rw [knownSpellings, List.getElem?_append_left (List.getElem?_eq_some_iff.1 h).1, h]

/-- A command of a reader is not one of an earlier reader. -/
theorem nameOf?_ne (hname : Text.isLetters name = true)
    (htext : name.code ≠ Text.code "text".toList) (hk : heads[k]? = some l) (hmem : sp' ∈ l)
    (hsp' : Text.nameOf? sp' = some name) (hl' : l' ∈ heads.take k) (hsp : sp ∈ l') :
  sp ≠ ['\\'] ∧ Text.nameOf? sp ≠ some name
  := by
  constructor
  · apply (heads_checked.2.2.1 l' (List.mem_of_mem_take hl') sp hsp).1
  · intro h
    obtain ⟨j, hj, rfl⟩ := List.mem_take_iff_getElem.1 hl'
    have hjk := eq_of_nameOf?_eq hname htext
      (getElem?_knownSpellings (List.getElem?_eq_getElem (by omega)))
      (getElem?_knownSpellings hk) hsp hmem h hsp'
    omega

/-- A name that a spelling has is that of a command, unless only symbols have it. -/
theorem mem_knownSpellings_of_nameOf? (hname : Text.isLetters name = true)
    (hl : l ∈ heads.take 12) (hsp : sp ∈ l) (h : Text.nameOf? sp = some name) :
  '\\' :: name ∈ knownSpellings.flatten
  := by
  have hknown := (heads_checked.2.2.2.1 l hl sp hsp).2
  rw [hasKnownName, Bool.or_eq_true] at hknown
  rcases hknown with hcommand | hother
  · obtain ⟨name', rfl, hname'⟩ := exists_of_isCommand hcommand
    rw [nameOf?_command hname'] at h
    obtain rfl := Option.some.inj h
    apply List.mem_flatten_of_mem _ hsp
    apply List.mem_append_left _ (List.mem_of_mem_take hl)
  · simp only [h, List.contains_eq_mem, List.mem_cons, List.not_mem_nil, or_false, reduceCtorEq,
      Option.some.injEq, false_or, decide_eq_true_eq] at hother
    rcases hother with hnil | htext | htilde
    · rw [hnil] at hname
      contradiction
    · have hmem : '\\' :: "text".toList ∈ wrapperCommands.commands := by decide
      rw [htext]
      apply List.mem_flatten_of_mem _ hmem
      simp [knownSpellings, heads]
    · have hmem : '\\' :: "textasciitilde".toList ∈ Escape.table.commands := by decide
      rw [htilde]
      apply List.mem_flatten_of_mem _ hmem
      simp [knownSpellings, heads]

end Reading

namespace SymbolTable

theorem symbols_builtin :
  builtin.symbols = builtinSymbols
  := by
  rw [builtin, symbols_withExtra, List.append_nil]
  rw [List.append_nil]
  apply Reading.nodup_symbolCommands

theorem spellings_builtin :
  builtin.spellings = .ofList (builtinSymbols.map (·.command))
  := by
  rw [builtin.spellings_eq, symbols_builtin]

end SymbolTable

end Formula
