import Formula.Proofs.Assembly
import Formula.Proofs.CommandNames

/-!
# Markers

Most commands of a markup say little: they are those of symbols, accents, wrappers and the like,
with which any equation may be written.  The others mark the construct that they are written for.
What marks a markup that is put together is what marks its parts, and the text of an equation,
its escapes and its wrappers mark nothing.
-/

namespace Formula

open Markup Writing

/-- A text that does not end with a letter does not end with a command name. -/
theorem Markup.endsInName_of_getLast? {s : Text} (h : s.getLast?.any Text.isLetter = false) :
  endsInName s = false
  := by
  by_contra hends
  rw [getLast?_of_endsInName (by simpa using hends)] at h
  contradiction

/-! ### Markers -/

/-- Whether a command of that name marks a construct: it begins a derivative, or it begins with a
text that calls for markup that stands apart. -/
def isMarker (name : Text) : Bool :=
  derivativeCommands.commands.any (· == '\\' :: name)
    || Layout.displayMarkers.any (·.isPrefixOf ('\\' :: name))

/-- The texts with commands that constructs are written with, and that mark none of them. -/
def fixedTexts : List Text :=
  ["\\ ", "\\frac", "\\textstyle", "\\sqrt", "\\partial ", "\\grande", "\\begin", "\\end",
    "\\text", " \\\\ ", "\\operatorname"].map String.toList

/-- Further texts with commands that mark nothing. -/
def commonTexts : List (List Text) :=
  [fixedTexts, writtenEscapes, LimitMode.table.commands,
    FunctionInfo.members.filterMap (·.command), Delimiter.table.commands,
    Delimiter.sizes.map (·.1), Delimiter.sizes.map (·.2)]

/-- Whether a text neither ends with a backslash nor has a command that marks something. -/
def isUnmarked (s : Text) : Bool :=
  s.getLast? != some '\\' && (Text.commandNames s).all (!isMarker ·)

theorem isUnmarked_commonTexts : ∀ l ∈ commonTexts, ∀ s ∈ l, isUnmarked s = true
  := by decide +kernel

/-- The markers among the commands of a markup are those among the given names, and the markup
does not end with a backslash. -/
structure Marks (m : Text) (names : List Text) : Prop where
  last : m.getLast? ≠ some '\\'
  mem_iff : ∀ name, isMarker name = true → (name ∈ Text.commandNames m ↔ name ∈ names)

namespace Marks

variable {a b m : Text} {as bs names names' : List Text}

theorem congr (h : Marks m names) (hnames : ∀ name, name ∈ names ↔ name ∈ names') :
  Marks m names'
  where
  last := h.last
  mem_iff name hname := (h.mem_iff name hname).trans (hnames name)

/-- Names that are no markers need not be listed. -/
theorem unmarked (h : Marks m names) (hnames : ∀ name ∈ names, isMarker name = false) :
  Marks m []
  where
  last := h.last
  mem_iff name hname := by
    simp only [h.mem_iff name hname, List.not_mem_nil, iff_false]
    intro hmem
    rw [hnames name hmem] at hname
    contradiction

/-- A text without backslashes marks nothing. -/
theorem plain (h : '\\' ∉ m) :
  Marks m []
  where
  last hlast := h (List.mem_of_getLast? hlast)
  mem_iff name _ := by rw [Text.commandNames_plain h]

theorem nil : Marks [] [] := plain List.not_mem_nil

theorem of_isUnmarked (h : isUnmarked m = true) :
  Marks m []
  := by
  simp only [isUnmarked, Bool.and_eq_true, bne_iff_ne, List.all_eq_true, Bool.not_eq_true'] at h
  exact @unmarked _ (Text.commandNames m) ⟨h.1, fun _ _ => Iff.rfl⟩ h.2

/-- What is written with common commands marks nothing. -/
theorem common {l : List Text} (hl : l ∈ commonTexts) (h : m ∈ l) :
  Marks m []
  := of_isUnmarked (isUnmarked_commonTexts l hl m h)

theorem fixed (h : m ∈ fixedTexts) :
  Marks m []
  := common (by simp [commonTexts]) h

/-- A command marks itself. -/
theorem command {name : Text} (h : Text.isLetters name = true) :
  Marks ('\\' :: name) [name]
  where
  last hlast := by
    have hletter := getLast?_of_endsInName (endsInName_command h)
    rw [hlast] at hletter
    contradiction
  mem_iff other _ := by
    have hletters : ∀ c ∈ name, Text.isLetter c = true := by
      simp only [Text.isLetters, Bool.and_eq_true, List.all_eq_true] at h
      apply h.2
    rw [Text.commandNames, if_pos rfl, List.takeWhile_eq_self_iff.2 hletters,
      Text.commandNames_plain (backslash_not_mem_letters h)]

/-- Only commands of styles, derivatives and fractions are markers. -/
theorem known {k : Nat} {l : List Text} {name : Text} (hname : Text.isLetters name = true)
    (htext : name.code ≠ Text.code "text".toList) (hk : Reading.heads[k]? = some l) (h : 3 ≤ k)
    (hmem : '\\' :: name ∈ l) :
  Marks ('\\' :: name) []
  := by
  apply (command hname).unmarked
  intro name' hname'
  rw [List.mem_singleton.1 hname', isMarker, Bool.or_eq_false_iff, List.any_eq_false,
    List.any_eq_false]
  constructor
  · intro sp hsp heq
    rw [eq_of_beq heq] at hsp
    have hderivative : Reading.heads[1]? = some derivativeCommands.commands := rfl
    have := Reading.eq_of_nameOf?_eq hname htext (Reading.getElem?_knownSpellings hderivative)
      (Reading.getElem?_knownSpellings hk) hsp hmem (nameOf?_command hname)
      (nameOf?_command hname)
    omega
  · intro marker hmarker hprefix
    have hdrop : l ∈ Reading.heads.drop 3 := by
      apply List.mem_of_getElem? (i := k - 3)
      rw [List.getElem?_drop, Nat.add_sub_cancel' h, hk]
    obtain ⟨hstyle, hfrac⟩ := Reading.heads_checked.2.2.2.2.2.2.2.2.2 l hdrop _ hmem
    rw [List.isPrefixOf_iff_prefix] at hprefix
    simp only [Layout.displayMarkers, List.mem_cons, List.not_mem_nil, or_false] at hmarker
    rcases hmarker with rfl | rfl
    · apply hstyle hprefix
    · apply hfrac hprefix

/-- A plain command that is no style, derivative or fraction marks nothing. -/
theorem plainCommand {k : Nat} {l : List Text} (hk : Reading.heads[k]? = some l) (h : 3 ≤ k)
    (hmem : m ∈ l) (hplain : isPlainCommand m = true) :
  Marks m []
  := by
  unfold isPlainCommand at hplain
  split at hplain
  · simp only [isInertName, Bool.and_eq_true, bne_iff_ne] at hplain
    apply known hplain.1.1.1.1.1.1 hplain.1.2 hk h hmem
  · contradiction

/-- Parts of which the second does not continue a command of the first mark what each of them
marks. -/
theorem append_of_follow (ha : Marks a as) (hb : Marks b bs) (h : Follow a b) :
  Marks (a ++ b) (as ++ bs)
  where
  last := by
    rw [List.getLast?_append]
    cases hlast : b.getLast? with
    | none => apply ha.last
    | some c =>
      intro hc
      apply hb.last
      rw [hlast]
      apply hc
  mem_iff name hname := by
    rw [Text.commandNames_append h ha.last, List.mem_append, List.mem_append,
      ha.mem_iff name hname, hb.mem_iff name hname]

theorem append (ha : Marks a as) (hb : Marks b bs) (h : Text.startsWithLetter b = false) :
  Marks (a ++ b) (as ++ bs)
  := ha.append_of_follow hb fun _ => h

/-- A text without backslashes and without a letter at its beginning may stand behind. -/
theorem append_plain (ha : Marks a as) (hback : '\\' ∉ b) (h : Text.startsWithLetter b = false) :
  Marks (a ++ b) as
  := (ha.append (plain hback) h).congr fun name => by rw [List.append_nil]

/-- A text without backslashes may stand in front. -/
theorem plain_append (hback : '\\' ∉ a) (hb : Marks b bs) :
  Marks (a ++ b) bs
  := by
  apply (plain hback).append_of_follow hb
  intro h
  have hends := getLast?_of_endsInName h
  exfalso
  apply hback
  simp only [endsInName, endsInCommandReversed, Bool.and_eq_true, beq_iff_eq] at h
  apply List.mem_reverse.1
  apply (List.dropWhile_sublist _).subset (List.mem_of_head? h.2)

/-! ### Groups and trimming -/

theorem braced (h : Marks m names) :
  Marks (Writing.braced m) names
  := (plain_append (a := ['{']) (by decide) h).append_plain (by decide) rfl

theorem append_braced (ha : Marks a as) (hb : Marks b bs) :
  Marks (a ++ Writing.braced b) (as ++ bs)
  := ha.append hb.braced rfl

theorem bracketed (h : Marks m names) :
  Marks (['['] ++ m ++ [']']) names
  := (plain_append (by decide) h).append_plain (by decide) rfl

/-- A text with the commands of another marks what the other one marks. -/
theorem of_commandNames (h : Marks a names) (hlast : b.getLast? ≠ some '\\')
    (hnames : Text.commandNames b = Text.commandNames a) :
  Marks b names
  where
  last := hlast
  mem_iff name hname := by rw [hnames, h.mem_iff name hname]

/-- The content of a group marks what its body marks. -/
theorem group (h : Marks m names) :
  ∃ content, Writing.group m = Writing.braced content ∧ Marks content names
  := by
  cases hblank : Text.isAllBlank m with
  | true =>
    refine ⟨[' '], by rw [Writing.group, hblank]; rfl, h.of_commandNames (by decide) ?_⟩
    rw [Text.commandNames_plain (s := m)]
    · rfl
    · intro hback
      have := List.all_eq_true.1 hblank _ hback
      contradiction
  | false => exact ⟨m, by rw [Writing.group, hblank]; rfl, h⟩

/-- Trimming keeps what is marked. -/
theorem trimMarkup (h : Marks m names) :
  Marks (Writing.trimMarkup m) names
  := by
  apply h.of_commandNames _ Text.commandNames_trimMarkup
  intro hlast
  have hback : ∀ r : Text, (trimEndReversed r).head? = some '\\' → r.head? = some '\\' := by
    intro r
    fun_induction trimEndReversed r with
    | case1 cs => exact id
    | case2 cs hcs ih =>
      intro hhead
      cases cs with
      | nil => cases hhead
      | cons c cs =>
        obtain rfl := Option.some.inj (ih hhead)
        cases hcs cs rfl
    | case3 => exact id
  rw [Writing.trimMarkup, List.getLast?_reverse] at hlast
  have hdrop := hback _ hlast
  rw [List.head?_reverse] at hdrop
  apply h.last
  obtain ⟨front, hfront⟩ := List.dropWhile_suffix (fun c : Char => decide (c = ' ')) (l := m)
  rw [← hfront, List.getLast?_append, hdrop]
  rfl

theorem optional (h : Marks m names) :
  Marks (Writing.optional m) names
  := by
  rw [Writing.optional]
  split
  · rename_i hempty
    apply h.of_commandNames (by decide)
    rw [List.isEmpty_iff.1 hempty]
    rfl
  · split
    · apply h.braced
    · apply h

theorem orSpace (h : Marks m names) :
  Marks (Writing.orSpace m) names
  := by
  rw [Writing.orSpace]
  split
  · rename_i hempty
    apply h.of_commandNames (by decide)
    rw [List.isEmpty_iff.1 hempty]
    rfl
  · apply h

/-! ### Joining -/

/-- Joined parts mark what each of them marks. -/
theorem join {tm : Bool} {parts : List Text} {namess : List (List Text)}
    (h : List.Forall₂ Marks parts namess) :
  Marks (Writing.join (separator tm) parts) namess.flatten
  := by
  apply rel_join nil append_of_follow _ h
  intro a b as bs ha hb
  have hsep : Marks (a ++ separator tm) as := by
    cases tm <;> exact ha.append_plain (by decide) rfl
  apply hsep.append_of_follow hb
  intro hends
  rw [endsInName_separator] at hends
  contradiction

/-- Parts that are joined with something common in between mark what each of them marks. -/
theorem joinWith {sep : Text} (hsep : Marks sep []) (hstart : Text.startsWithLetter sep = false)
    (hends : ∀ a, endsInName (a ++ sep) = false) {parts : List Text} {namess : List (List Text)}
    (h : List.Forall₂ Marks parts namess) :
  Marks (Text.joinWith sep parts) namess.flatten
  := by
  induction h with
  | nil => apply nil
  | @cons part ps parts namess hpart hparts ih =>
    cases hparts with
    | nil => simpa [Text.joinWith] using hpart
    | cons hnext hrest =>
      rw [Text.joinWith, List.flatten_cons]
      apply ((hpart.append hsep hstart).append_of_follow ih _).congr
      · intro name
        rw [List.append_nil]
      · intro h
        rw [hends] at h
        contradiction

end Marks

/-! ### Text -/

section Text

variable {settings : Settings} {tm : Bool} {c : Char} {value color : Text}

theorem marks_symbol {command : Text}
    (h : SymbolTable.builtin.commandFor? [c] = some command) :
  Marks command []
  := by
  have hmem := (SymbolTable.glyphOf?_commandFor? h).1
  rw [SymbolTable.commands_builtin] at hmem
  rcases Reading.symbolCommand_cases hmem with ⟨name, rfl, hname, htext⟩ | rfl | ⟨d, hd, rfl⟩
  · exact Marks.known (k := 12) hname htext rfl (by decide) hmem
  · apply Marks.of_isUnmarked (by decide)
  · have hname : Marks "\\mathbb".toList [] := .of_isUnmarked (by decide)
    have hback : '\\' ≠ d := by
      rintro rfl
      contradiction
    apply hname.append_plain (b := ['{', d, '}']) (by simp [hback]) rfl

/-- A character marks nothing, and its markup does not end with a command name. -/
theorem marks_escapeChar :
  Marks (escapeChar .builtin tm c) [] ∧ endsInName (escapeChar .builtin tm c) = false
  := by
  have hpadded : ∀ {s : Text}, Marks s [] →
      Marks (padded s) [] ∧ endsInName (padded s) = false := fun h =>
    ⟨(Marks.plain_append (by decide) h).append_plain (by decide) rfl, endsInName_concat rfl⟩
  have hplain : Escape.spelling? c = none → SymbolTable.builtin.commandFor? [c] = none →
      Marks [c] [] := by
    intro hescape hcommand
    apply Marks.plain
    have := ne_of_unescaped hescape hcommand '\\' (by simp)
    simpa using Ne.symm this
  apply escapeChar_cases (P := fun s => Marks s [] ∧ endsInName s = false)
  case space =>
    intro _
    exact ⟨.fixed (by decide), by decide⟩
  case escape =>
    intro spelling hspelling
    have hmem := mem_writtenEscapes hspelling
    exact ⟨.common (by simp [commonTexts]) hmem, (writtenEscapes_tight _ hmem).2⟩
  case separated =>
    intro command hcommand
    refine ⟨?_, endsInName_separator⟩
    cases tm <;> exact (marks_symbol hcommand).append_plain (by decide) rfl
  case bare =>
    intro command hcommand hlast
    exact ⟨marks_symbol hcommand, endsInName_of_getLast? hlast⟩
  case operator =>
    intro command hcommand _
    apply hpadded (marks_symbol hcommand)
  case plain =>
    intro _ hescape hcommand
    exact ⟨hplain hescape hcommand, endsInName_singleton⟩
  case plainOperator =>
    intro _ hescape hcommand _
    apply hpadded (hplain hescape hcommand)

theorem getLast?_collapseSpaces {s : Text} :
  (collapseSpaces s).getLast? = s.getLast?
  := by
  fun_induction collapseSpaces s with
  | case1 cs ih => rw [ih, List.getLast?_cons_cons]
  | case2 c cs _ ih => rw [List.getLast?_cons, List.getLast?_cons, ih]
  | case3 => rfl

/-- The characters of a text mark nothing. -/
theorem marks_escapeText :
  Marks (escapeText .builtin tm value) []
  := by
  have hchars : Marks (value.flatMap (escapeChar .builtin tm)) [] := by
    induction value with
    | nil => apply Marks.nil
    | cons c cs ih =>
      obtain ⟨hmarks, hends⟩ := marks_escapeChar
      rw [List.flatMap_cons]
      apply hmarks.append_of_follow ih
      intro h
      rw [hends] at h
      contradiction
  apply hchars.of_commandNames _ Text.commandNames_collapseSpaces
  rw [getLast?_collapseSpaces]
  apply hchars.last

/-- The attributes of a run of text mark what the text marks. -/
theorem Marks.emphasized {m : Text} {names : List Text} (h : Marks m names) (format : TextFormat)
    (value : Text) :
  Marks (emphasized format value m) names
  := by
  have hattribute : ∀ {name : String} {m : Text} {names : List Text},
      name.toList ∈ attributeCommands.commands → Marks m names →
      Marks (Writing.command name m) names := by
    intro name m names hname h
    have hmarks : Marks name.toList [] :=
      .plainCommand (k := 9) rfl (by decide) hname (isPlainCommand_attribute _ hname)
    apply hmarks.append_braced h
  rw [Writing.emphasized]
  split
  · split
    · apply hattribute (by decide) (hattribute (by decide) h)
    · apply hattribute (by decide) h
  · apply hattribute (by decide) (hattribute (by decide) h)
  · apply hattribute (by decide) h
  · apply hattribute (by decide) h
  · apply hattribute (by decide) h
  · apply h

/-- A wrapper marks what is wrapped, unless it is a color with a backslash. -/
theorem Marks.wrap {m : Text} {names : List Text} {w : Wrapper} (h : Marks m names)
    (hcolor : ∀ c, w = (.color, .text c) → '\\' ∉ c) :
  Marks (Writing.wrap m w) names
  := by
  have hwrapper : ∀ {command : Text}, command ∈ wrapperCommands.commands →
      command ≠ "\\text".toList → Marks command [] := fun hmem hne =>
    .plainCommand (k := 10) rfl (by decide) hmem (isPlainCommand_wrapper _ hmem hne)
  have hbody := h.trimMarkup
  obtain ⟨kind, param⟩ := w
  cases kind with
  | underline =>
    have hunderline : ∀ {m : Text}, Marks m names → Marks (Writing.command "\\underline" m) names :=
      fun h => (hwrapper (by decide) (by decide)).append_braced h
    rcases param with _ | (_ | _) | _
    · apply hunderline hbody
    · apply hunderline hbody
    · apply hunderline (hunderline hbody)
    · apply hunderline hbody
  | cancel => exact (@hwrapper "\\cancel".toList (by decide) (by decide)).append_braced hbody
  | color =>
    have hplain : '\\' ∉ colorText param := by
      rcases param with _ | (_ | _) | c
      · decide
      · decide
      · decide
      · apply hcolor c rfl
    have hname : Marks "\\textcolor".toList [] := hwrapper (by decide) (by decide)
    apply (hname.append_braced (.plain hplain)).append_braced hbody
  | textMode =>
    have hname : Marks "\\text".toList [] := .fixed (by simp [fixedTexts])
    apply hname.append_braced hbody

/-- Wrappers mark what is wrapped, unless one of them is a color with a backslash. -/
theorem Marks.foldl_wrap {ws : List Wrapper} {m : Text} {names : List Text} (h : Marks m names)
    (hcolor : ∀ w ∈ ws, ∀ c, w = (.color, .text c) → '\\' ∉ c) :
  Marks (ws.foldl Writing.wrap m) names
  := by
  induction ws generalizing m with
  | nil => apply h
  | cons w ws ih =>
    apply ih (h.wrap (hcolor w List.mem_cons_self))
    intro w hw
    apply hcolor w (List.mem_cons_of_mem _ hw)

/-- A run of text marks nothing, unless it has a color with a backslash. -/
theorem marks_textRun {format : TextFormat} (hcolor : ∀ c ∈ format.color, '\\' ∉ c) :
  Marks (textRun .builtin tm format value) []
  := by
  rw [textRun]
  split
  · apply Marks.nil
  apply (marks_escapeText.emphasized format value).foldl_wrap
  intro w hw c hc
  apply hcolor c (color_of_mem_attributeCommandsOf (hc ▸ hw))

end Text

end Formula
