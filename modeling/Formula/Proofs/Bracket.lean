import Formula.Proofs.Construct

/-!
# Written brackets

A delimiter is written with the spelling of its glyph or, if it has none, as itself.  The
content of a sized bracket ends at the size command that belongs to it.
-/

namespace Formula

open Build Markup Writing

variable {cell : Bool} {m rest glyph : Text} {n : Nat} {ns : List Node}

/-! ### Delimiters -/

namespace Delimiter

/-- The glyphs that have a spelling. -/
def glyphs : List Text := (leftSpellings ++ rightSpellings).map (·.1)

/-- A glyph that is read as it is written: one that has a spelling, or a single character that
does not run into a size command. -/
inductive Legible : Text → Prop
  | known {glyph : Text} : glyph ∈ glyphs → Legible glyph
  | char {c : Char} : Text.isBlank c = false → Text.isLetter c = false → c ≠ '\\' → Legible [c]

/-- Whether a text is the spelling of a delimiter: a command, an escaped character, or a
character. -/
def isSpelling : Text → Bool
  | '\\' :: name => isInertName name || ['{', '}', '|'].any fun c => name == [c]
  | s => ['(', ')', '[', ']', '|', '.'].any fun c => s == [c]

/-- What is computed about the spellings of glyphs: each is read as its glyph, and is no
beginning of another one unless it is a command. -/
theorem spellings_checked : ∀ glyph ∈ glyphs, ∀ left,
    table.lookup (spelling glyph left) = some glyph ∧ isSpelling (spelling glyph left) = true
      ∧ (isCommand (spelling glyph left) = true
        ∨ ∀ sp ∈ table.commands, spelling glyph left <+: sp → sp = spelling glyph left)
  := by
  decide

theorem commands_checked : ∀ sp ∈ table.commands,
    isCommand sp = true ∨ Text.nameOf? sp = none ∨ Text.nameOf? sp = some []
  := by
  decide

/-- A character without a spelling is written as itself. -/
theorem spelling_of_not_mem (h : glyph ∉ glyphs) (left : Bool) :
  spelling glyph left = glyph
  := by
  have hnone : ∀ l : List (Text × Text), glyph ∉ l.map (·.1) → l.lookup glyph = none := by
    intro l hl
    rw [List.lookup_eq_none_iff]
    rintro ⟨glyph', sp⟩ hmem
    rw [bne_iff_ne]
    rintro rfl
    apply hl (List.mem_map.2 ⟨_, hmem, rfl⟩)
  rw [glyphs, List.map_append, List.mem_append, not_or] at h
  rw [spelling]
  cases left <;> simp [hnone _ h.1, hnone _ h.2]

/-- A spelling that is no command ends with something other than a letter. -/
theorem getLast?_of_isSpelling {sp : Text} (h : isSpelling sp = true) (hnot : isCommand sp = false) :
  sp.getLast?.any Text.isLetter = false
  := by
  unfold isSpelling at h
  split at h
  · rename_i name
    rw [Bool.or_eq_true] at h
    rcases h with h | h
    · simp only [isInertName, Bool.and_eq_true] at h
      rw [isCommand, h.1.1.1.1] at hnot
      contradiction
    · simp only [List.any_cons, List.any_nil, Bool.or_false, Bool.or_eq_true, beq_iff_eq] at h
      rcases h with rfl | rfl | rfl <;> rfl
  · simp only [List.any_cons, List.any_nil, Bool.or_false, Bool.or_eq_true, beq_iff_eq] at h
    rcases h with rfl | rfl | rfl | rfl | rfl | rfl <;> rfl

/-- The spelling of a glyph is found as a whole. -/
theorem longest?_spelling (h : glyph ∈ glyphs) (left : Bool)
    (hrest : Follow (spelling glyph left) rest) :
  table.longest? (spelling glyph left ++ rest) = some (spelling glyph left, glyph, rest)
  := by
  obtain ⟨hlookup, hspelling, hstart⟩ := spellings_checked glyph h left
  have hmem := CommandTable.mem_commands_of_lookup hlookup
  apply CommandTable.longest?_of_spellings _ hlookup
  rw [CommandTable.spellings_eq_ofList]
  cases hcommand : isCommand (spelling glyph left) with
  | true =>
    obtain ⟨name, hname, hletters⟩ := exists_of_isCommand hcommand
    rw [hname] at hmem hrest ⊢
    apply Spellings.longest?_name hletters (hrest (endsInName_command hletters)) hmem
    intro sp hsp hsame
    rcases commands_checked sp hsp with h | h | h
    · obtain ⟨name', rfl, hname'⟩ := exists_of_isCommand h
      rw [nameOf?_command hname'] at hsame
      rw [Option.some.inj hsame]
    · rw [h] at hsame
      cases hsame
    · rw [h] at hsame
      obtain rfl := Option.some.inj hsame
      contradiction
  | false =>
    have hlast := getLast?_of_isSpelling hspelling hcommand
    have hmax := hstart.resolve_left (by simp [hcommand])
    apply Spellings.longest?_append _ hmem
    · rw [Spellings.boundary, hlast]
      rfl
    · intro sp hsp hprefix
      by_contra hlt
      have := List.prefix_of_prefix_length_le (List.prefix_append _ rest) hprefix (by omega)
      rw [hmax sp hsp this] at hlt
      apply hlt (Nat.le_refl _)
    · intro hnil
      rw [hnil] at hspelling
      contradiction

theorem head_of_isSpelling {sp : Text} (h : isSpelling sp = true) :
  ∃ c cs, sp = c :: cs ∧ Text.isBlank c = false ∧ Text.isLetter c = false
  := by
  unfold isSpelling at h
  split at h
  · exact ⟨_, _, rfl, rfl, rfl⟩
  · simp only [List.any_cons, List.any_nil, Bool.or_false, Bool.or_eq_true, beq_iff_eq] at h
    rcases h with rfl | rfl | rfl | rfl | rfl | rfl <;> exact ⟨_, _, rfl, by decide, rfl⟩

/-- A character without a spelling begins no spelling. -/
theorem free_of_not_mem {c : Char} (h : [c] ∉ glyphs) (hback : c ≠ '\\') :
  Reading.Free table.commands ([c] ++ rest)
  := by
  have hheads : ∀ sp ∈ table.commands,
      sp.head? = some '\\' ∨ sp ≠ [] ∧ sp.take 1 ∈ glyphs := by
    decide
  apply Reading.free_of_start
  intro sp hsp
  cases sp with
  | nil => simpa using hheads [] hsp
  | cons d ds =>
    have hdc : d ≠ c := by
      rintro rfl
      rcases hheads _ hsp with hhead | ⟨-, hmem⟩
      · apply hback (Option.some.inj hhead)
      · exact h hmem
    constructor
    · intro hprefix
      apply hdc (List.cons_prefix_cons.1 hprefix).1
    · intro hprefix
      apply hdc (List.cons_prefix_cons.1 hprefix).1.symm

/-- A glyph is read as it is written. -/
theorem delimiter_eq (h : Legible glyph) (left : Bool)
    (hrest : Follow (spelling glyph left) rest) :
  delimiter (spelling glyph left ++ rest) = (glyph, rest)
  := by
  by_cases hmem : glyph ∈ glyphs
  · have hlongest := longest?_spelling hmem left hrest
    obtain ⟨c, cs, hcons, hblank, -⟩ := head_of_isSpelling (spellings_checked glyph hmem left).2.1
    rw [hcons, List.cons_append] at hlongest ⊢
    rw [delimiter, Text.skipBlanks, List.dropWhile_cons_of_neg (by simp [hblank])]
    simp only [hlongest]
  · cases h with
    | known h => contradiction
    | @char c hblank _ hback =>
      have hlongest := (@free_of_not_mem rest _ hmem hback).table_eq_none
      have hbraces : c ∉ ['\\', '{', '}'] := by
        have hknown : ['{'] ∈ glyphs ∧ ['}'] ∈ glyphs := by decide
        simp only [List.mem_cons, List.not_mem_nil, or_false, not_or]
        refine ⟨hback, ?_, ?_⟩
        · rintro rfl
          apply hmem hknown.1
        · rintro rfl
          apply hmem hknown.2
      rw [spelling_of_not_mem hmem, List.singleton_append, delimiter, Text.skipBlanks,
        List.dropWhile_cons_of_neg (by simp [hblank])]
      rw [List.singleton_append] at hlongest
      simp only [hlongest, hbraces, if_false]

/-! ### Spellings in markup -/

/-- A spelling is a closed fragment that neither begins with a letter nor loses anything to
trimming; only the ampersand may not stand in a cell outside of groups. -/
structure Plain (cell : Bool) (sp : Text) : Prop where
  head : ∃ c cs, sp = c :: cs ∧ Text.isBlank c = false ∧ Text.isLetter c = false
  whole : Whole sp
  closed : Closed cell sp

theorem plain_of_isSpelling {sp : Text} (h : isSpelling sp = true) :
  Plain cell sp
  := by
  have hhead := head_of_isSpelling h
  unfold isSpelling at h
  split at h
  · rename_i name
    rw [Bool.or_eq_true] at h
    rcases h with h | h
    · apply Plain.mk hhead (Whole.command (Reading.isLetters_of_isInertName h))
        (Closed.command _ h)
    · simp only [List.any_cons, List.any_nil, Bool.or_false, Bool.or_eq_true, beq_iff_eq] at h
      rcases h with rfl | rfl | rfl <;>
      · apply Plain.mk hhead
        · apply Whole.concat (a := ['\\']) (by decide) (by decide)
        · apply Closed.escape (by decide) (by decide)
  · simp only [List.any_cons, List.any_nil, Bool.or_false, Bool.or_eq_true, beq_iff_eq] at h
    rcases h with rfl | rfl | rfl | rfl | rfl | rfl <;>
    · apply Plain.mk hhead
      · apply Whole.concat (a := []) (by decide) (by decide)
      · apply Closed.plain (by decide) (by simp)

theorem Legible.plain (h : Legible glyph) (hcell : cell = true → glyph ≠ ['&']) (left : Bool) :
  Plain cell (spelling glyph left)
  := by
  by_cases hmem : glyph ∈ glyphs
  · apply plain_of_isSpelling (spellings_checked glyph hmem left).2.1
  · rw [spelling_of_not_mem hmem]
    cases h with
    | known h => contradiction
    | @char c hblank hletter hback =>
      have hknown : ['{'] ∈ glyphs ∧ ['}'] ∈ glyphs := by decide
      constructor
      · exact ⟨c, [], rfl, hblank, hletter⟩
      · apply Whole.concat (a := []) hback
        rintro rfl
        contradiction
      · apply Closed.plain
        · intro d hd
          obtain rfl := List.mem_singleton.1 hd
          refine ⟨hback, ?_, ?_⟩
          · rintro rfl
            apply hmem hknown.1
          · rintro rfl
            apply hmem hknown.2
        · intro htrue hand
          apply hcell htrue
          rw [List.mem_singleton.1 hand]

end Delimiter

/-! ### Brackets -/

/-- A pair of size commands. -/
def Delimiter.IsSize (size : Text × Text) : Prop :=
  ∃ names ∈ sizeNames, size = ('\\' :: names.1, '\\' :: names.2)

theorem sizeNames_checked : ∀ names ∈ Delimiter.sizeNames,
    Text.isLetters names.1 = true ∧ Text.isLetters names.2 = true
      ∧ Delimiter.sizeNames.any (·.1 = names.1) = true
      ∧ Delimiter.sizeNames.any (·.1 = names.2) = false
      ∧ Delimiter.sizeNames.any (·.2 = names.2) = true
      ∧ "begin".toList ≠ names.1 ∧ "end".toList ≠ names.1
      ∧ "begin".toList ≠ names.2 ∧ "end".toList ≠ names.2
      ∧ Text.code names.1 ≠ Text.code "text".toList
      ∧ '\\' :: names.1 ∈ Delimiter.sizes.map (·.1)
      ∧ '\\' :: names.1 ∉ styleCommands.commands
  := by
  decide

/-- An opening size command is found as a whole. -/
theorem Delimiter.longest?_leftSizes {names : Text × Text} (hnames : names ∈ sizeNames)
    (hrest : Text.startsWithLetter rest = false) :
  leftSizes.longest? ('\\' :: (names.1 ++ rest)) = some ('\\' :: names.1, rest)
  := by
  obtain ⟨hletters, -, -, -, -, -, -, -, -, -, hmem, -⟩ := sizeNames_checked names hnames
  have hsizes : ∀ sp ∈ sizes.map (·.1), isCommand sp = true := by decide
  apply Spellings.longest?_name hletters hrest hmem
  intro sp hsp hsame
  obtain ⟨name, rfl, hname⟩ := exists_of_isCommand (hsizes sp hsp)
  rw [nameOf?_command hname] at hsame
  rw [Option.some.inj hsame]

/-- What stands between two size commands that belong together is closed with them. -/
theorem Closed.sizes {names : Text × Text} (hnames : names ∈ Delimiter.sizeNames)
    (h : Closed cell m) (hstart : ∀ rest, Text.startsWithLetter (m ++ '\\' :: rest) = false)
    (hfollow : ∀ rest, Follow m ('\\' :: rest)) :
  Closed cell ('\\' :: names.1 ++ (m ++ '\\' :: names.2))
  := by
  obtain ⟨hleft, hright, hopens, hcloses, hcloses', hbegin, hend, hbegin', hend', -⟩ :=
    sizeNames_checked names hnames
  have hinner : Follow ('\\' :: names.1) (m ++ '\\' :: names.2) := fun _ => hstart names.2
  constructor
  · apply (balanced_command hleft).append
    apply h.balanced.append (balanced_command hright)
  · intro d rest hrest
    have hletter : Text.startsWithLetter rest = false :=
      hrest.right.right (endsInName_command hright)
    have hsplit : '\\' :: names.1 ++ (m ++ '\\' :: names.2) ++ rest
        = '\\' :: (names.1 ++ (m ++ '\\' :: (names.2 ++ rest))) := by simp
    rw [hsplit, untilClosing_left hleft (hstart _) hopens, h.sized (d + 1) _ (hfollow _),
      untilClosing_right hright hletter hcloses hcloses', Option.map_map, Option.map_map,
      prepend_comp_prepend, prepend_comp_prepend]
    simp
  · apply (Ended.command hleft hbegin hend).append _ hinner
    apply h.ended.append (Ended.command hright hbegin' hend') (hfollow _)
  · apply (Rowed.command hleft hbegin hend).append _ hinner
    apply h.rowed.append (Rowed.command hright hbegin' hend') (hfollow _)

/-- A bracket as it is written. -/
def bracketText (size : Text × Text) (left right content : Text)
    (subscript superscript : Option Text) : Text :=
  size.1 ++ (Delimiter.spelling left true ++ (padded content ++ (size.2
    ++ (Delimiter.spelling right false
      ++ (scriptText .subscript subscript ++ scriptText .superscript superscript)))))

section Brackets

variable {size : Text × Text} {left right : Text} {p q : Option Text}
  {ps qs : Option (List Node)}

/-- A bracket is closed when its content and its scripts are. -/
theorem closed_bracketText (hsize : Delimiter.IsSize size)
    (hleft : Delimiter.Plain cell (Delimiter.spelling left true))
    (hright : Delimiter.Plain cell (Delimiter.spelling right false)) (hm : Closed cell (padded m))
    (hp : ∀ m ∈ p, Closed false m) (hq : ∀ m ∈ q, Closed false m) :
  Closed cell (bracketText size left right m q p)
  := by
  obtain ⟨names, hnames, rfl⟩ := hsize
  obtain ⟨c, cs, hcons, -, hletter⟩ := hleft.head
  have hinner : Closed cell (Delimiter.spelling left true ++ padded m) :=
    hleft.closed.append hm (Follow.cons rfl)
  have hbefore := Closed.sizes hnames hinner (by simp [hcons, Text.startsWithLetter, hletter])
    (fun _ => Follow.cons rfl)
  have hafter : Closed cell (Delimiter.spelling right false
      ++ (scriptText .subscript q ++ scriptText .superscript p)) :=
    hright.closed.append (closed_scripts hq hp) follow_scripts
  have hboth := hbefore.append hafter (by
    obtain ⟨d, ds, hd, -, hd'⟩ := hright.head
    rw [hd]
    apply Follow.cons hd')
  simpa [bracketText] using hboth

/-- Nothing of a bracket is trimmed. -/
theorem whole_bracketText (hright : Whole (Delimiter.spelling right false)) :
  Whole (bracketText size left right m q p)
  := by
  apply Whole.append
  apply Whole.append
  apply Whole.append
  apply Whole.append
  rw [← List.append_assoc]
  apply whole_scriptText (whole_scriptText hright)

/-- A bracket with its content and its scripts. -/
theorem spells_bracket (hsize : Delimiter.IsSize size) (hleft : Delimiter.Legible left)
    (hright : Delimiter.Legible right)
    (hcell : cell = true → left ≠ ['&'] ∧ right ≠ ['&']) (hm : Spelled .builtin false cell m ns)
    (hp : SlotSpelled p ps) (hq : SlotSpelled q qs) :
  Spells .builtin cell (bracketText size left right m q p)
    [.plain 0 (.bracket left right ns 0 none ps qs)]
  := by
  have hsize' := hsize
  obtain ⟨names, hnames, rfl⟩ := hsize
  have hchecked := sizeNames_checked names hnames
  obtain ⟨hletters, hletters', -, hcloses, hcloses', -, -, -, -, htext, hmem, hstyle⟩ := hchecked
  have hopen := hleft.plain (fun h => (hcell h).1) true
  have hclose := hright.plain (fun h => (hcell h).2) false
  obtain ⟨c, cs, hcons, -, hletter⟩ := hopen.head
  have hwhole : Whole (bracketText ('\\' :: names.1, '\\' :: names.2) left right m q p) :=
    whole_bracketText hclose.whole
  apply Spells.command (k := 14) (r := Reading.bracket) rfl rfl hmem
    hletters htext hstyle
  · rw [hcons]
    apply hletter
  · apply hwhole
  · apply closed_bracketText hsize' hopen hclose hm.padded.closed hp.closed hq.closed
  intro n rest hn hargs hfollow hrest
  have hopened : ∀ tail, delimiter (Delimiter.spelling left true ++ (padded m ++ tail))
      = (left, padded m ++ tail) :=
    fun tail => Delimiter.delimiter_eq hleft true (Follow.cons rfl)
  have hspelled : ∃ c cs, Delimiter.spelling right false = c :: cs ∧ Text.isLetter c = false := by
    obtain ⟨d, ds, hd, -, hd'⟩ := hclose.head
    exact ⟨d, ds, hd, hd'⟩
  have hclosing : ∀ tail, untilClosing 0 (padded m
        ++ ('\\' :: (names.2 ++ (Delimiter.spelling right false ++ tail))))
      = some (padded m, Delimiter.spelling right false ++ tail) := by
    intro tail
    obtain ⟨d, ds, hd, hd'⟩ := hspelled
    rw [hm.padded.closed.sized 0 _ (Follow.cons rfl), untilClosing_right_zero hletters' _ hcloses
      hcloses']
    · simp [prepend]
    · rw [hd]
      apply hd'
  have hclosed : delimiter (Delimiter.spelling right false
        ++ (scriptText .subscript q ++ scriptText .superscript p ++ rest))
      = (right, scriptText .subscript q ++ scriptText .superscript p ++ rest) := by
    apply Delimiter.delimiter_eq hright false
    apply Follow.left _ follow_scripts
    apply hfollow.right.right.right.right
  have hsplit : Delimiter.spelling left true ++ (padded m ++ ('\\' :: names.2
        ++ (Delimiter.spelling right false
          ++ (scriptText .subscript q ++ scriptText .superscript p)))) ++ rest
      = Delimiter.spelling left true ++ (padded m ++ ('\\' :: (names.2
        ++ (Delimiter.spelling right false
          ++ (scriptText .subscript q ++ scriptText .superscript p ++ rest))))) := by simp
  simp only [List.length_append, List.length_cons] at hn
  rw [hsplit] at hargs ⊢
  refine ⟨_, congrArg (Option.map _) (Delimiter.longest?_leftSizes hnames hargs), ?_⟩
  simp only [hopened, hclosing, hclosed]
  apply Returns.bind (Returns.pure rfl)
  rintro _ rfl
  apply Returns.bind (meets_fresh fun _ => trivial)
  intro i _
  apply Returns.bind (hm.padded.makes_sequence (by omega))
  intro content hcontent
  rw [List.append_assoc]
  apply Returns.bind (returns_read hq hp (by decide) (by omega) hrest)
  rintro ⟨bounds, _⟩ ⟨hsub, hsup, rfl⟩
  apply Gives.node
  rw [← hcontent, ← hsub, ← hsup]
  rfl

end Brackets

/-! ### Sizes -/

section Sizes

variable (settings : Settings)

theorem isSize_bracketSizes (depth : Int) :
  Delimiter.IsSize (bracketSizes settings depth)
  := by
  have hat : ∀ i, Delimiter.IsSize (Delimiter.sizeAt i) := by
    intro i
    have hlength : min i (Delimiter.sizes.length - 1) < Delimiter.sizes.length := by
      have : 0 < Delimiter.sizes.length := by decide
      omega
    rw [Delimiter.sizeAt, List.getElem?_eq_getElem hlength, Option.getD_some]
    obtain ⟨names, hnames, heq⟩ := List.mem_map.1 (List.getElem_mem hlength)
    exact ⟨names, hnames, heq.symm⟩
  rw [bracketSizes]
  split <;> apply hat

theorem bracketSizes_auto (hauto : settings.sizing = .auto) (depth : Int) :
  bracketSizes settings depth = Delimiter.sizeAt 0
  := by simp [bracketSizes, hauto]

/-- Unless brackets are sized by their depths, a construct is written without regard to the
greatest one. -/
theorem writeShape_maxDepth (hauto : settings.sizing = .auto) {tm : Bool} (depth : Int)
    (s : Shape Piece) :
  writeShape { settings with maxDepth := depth } tm s = writeShape settings tm s
  := by
  cases s with
  | bracket l r c d scale p q =>
    have hsizes : bracketSizes { settings with maxDepth := depth } d = Delimiter.sizeAt 0 := by
      apply bracketSizes_auto
      apply hauto
    rw [writeShape, writeShape, hsizes, bracketSizes_auto settings hauto]
    rfl
  | _ => rfl

end Sizes

end Formula
