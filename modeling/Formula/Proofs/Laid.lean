import Formula.Proofs.Decoration

/-!
# Markup laid out as items

What the writer puts between delimiters is a row of closed items with spaces between them.
Such a row stays one when it is trimmed, joined to others, or when its spaces are collapsed;
so what stands in a group, in an optional argument or in a cell is closed.
-/

namespace Formula

open Markup Writing

/-- An item of markup that may stand anywhere: a closed fragment from which trimming takes nothing
off. -/
structure Solid (m : Text) : Prop where
  head : ∃ c cs, m = c :: cs ∧ c ≠ ' '
  whole : Whole m
  closed : Closed true m

/-- A row of solid items with spaces between them. -/
inductive Laid : Text → Prop
  | nil : Laid []
  | blank {m : Text} : Laid m → Laid (' ' :: m)
  | item {core m : Text} : Solid core → Follow core m → Laid m → Laid (core ++ m)

variable {tm : Bool} {c : Char} {a b m core value : Text}

/-- A text without backslashes and braces. -/
def Text.Inert (s : Text) : Prop := ∀ c ∈ s, c ≠ '\\' ∧ c ≠ '{' ∧ c ≠ '}'

instance (s : Text) : Decidable s.Inert := inferInstanceAs (Decidable (∀ c ∈ s, _))

/-- Whether the text is a command that neither sizes a bracket nor begins or ends an
environment. -/
def isInertCommand : Text → Bool
  | '\\' :: name => isInertName name
  | _ => false

theorem isInertCommand_of_isPlainCommand (h : isPlainCommand m = true) :
  isInertCommand m = true
  := by
  unfold isPlainCommand at h
  split at h
  · simp only [Bool.and_eq_true] at h
    apply h.1.1
  · contradiction

/-- A command with arguments is solid. -/
theorem Solid.command {command args : Text} (hcommand : isInertCommand command = true)
    (hclosed : Closed true args) (hwhole : Whole args)
    (hstart : Text.startsWithLetter args = false) :
  Solid (command ++ args)
  := by
  unfold isInertCommand at hcommand
  split at hcommand
  · rename_i name
    constructor
    · exact ⟨_, _, rfl, by decide⟩
    · apply hwhole.append
    · apply (Closed.command name hcommand).append hclosed fun _ => hstart
  · contradiction

theorem Solid.laid (h : Solid core) :
  Laid core
  := by
  have := Laid.item h Follow.nil_right .nil
  rwa [List.append_nil] at this

/-- What is spelled is solid. -/
theorem Spells.solid {t : SymbolTable} {ns : List Node} (h : Spells t true core ns) :
  Solid core
  where
  head := by
    obtain ⟨c, cs, rfl, hblank, -⟩ := h.head
    refine ⟨c, cs, rfl, ?_⟩
    rintro rfl
    contradiction
  whole := h.whole
  closed := h.closed

/-- The content of an optional argument is closed. -/
theorem Markup.Closed.optional (h : Closed true m) :
  Closed true (Writing.optional m)
  := by
  rw [Writing.optional]
  split
  · apply Closed.plain (by simp) (by simp)
  split
  · apply (h.mono (by simp)).braced
  · apply h

namespace Laid

theorem append (ha : Laid a) (hb : Laid b) (hab : Follow a b) :
  Laid (a ++ b)
  := by
  induction ha with
  | nil => apply hb
  | blank _ ih =>
    apply Laid.blank
    apply ih (Follow.right (a := [' ']) hab)
  | item hcore hfollow _ ih =>
    rw [List.append_assoc]
    apply Laid.item hcore
    · apply Follow.left hab hfollow
    · apply ih hab.right

theorem closed (h : Laid m) :
  Closed true m
  := by
  induction h with
  | nil => apply Closed.nil
  | blank _ ih =>
    apply (Closed.plain (a := [' ']) (by simp) (by simp)).append ih
    apply Follow.concat (s := []) rfl
  | item hcore hfollow _ ih => apply hcore.closed.append ih hfollow

/-- Inside of a group a row is closed, too. -/
theorem closed_inside (h : Laid m) : Closed false m := h.closed.mono (by simp)

/-! ### Trimming -/

theorem dropSpaces (h : Laid m) :
  Laid (m.dropWhile (· = ' '))
  := by
  induction h with
  | nil => apply Laid.nil
  | blank _ ih => apply ih
  | item hcore hfollow hm _ =>
    obtain ⟨c, cs, rfl, hc⟩ := hcore.head
    rw [List.cons_append, List.dropWhile_cons_of_neg (by simp [hc])]
    apply Laid.item hcore hfollow hm

theorem trimEnd (h : Laid m) :
  Laid (trimEndSpaces m)
  := by
  induction h with
  | nil => apply Laid.nil
  | blank _ ih =>
    rw [trimEndSpaces_space]
    split
    · apply Laid.nil
    · apply Laid.blank ih
  | item hcore hfollow _ ih =>
    rw [hcore.whole.trimEndSpaces_append]
    apply Laid.item hcore (hfollow.of_prefix (isPrefix_trimEndSpaces _)) ih

/-- A row that is trimmed is a row. -/
theorem trimMarkup (h : Laid m) :
  Laid (Writing.trimMarkup m)
  := by
  rw [trimMarkup_eq]
  apply h.dropSpaces.trimEnd

/-! ### Groups and joining -/

/-- The content of a group is closed. -/
theorem group (h : Laid m) :
  ∃ content, Writing.group m = braced content ∧ Closed false content
  := by
  cases hblank : Text.isAllBlank m with
  | true => exact ⟨[' '], by rw [Writing.group, hblank]; rfl, .plain (by simp) (by simp)⟩
  | false => exact ⟨m, by rw [Writing.group, hblank]; rfl, h.closed_inside⟩

theorem padded (h : Laid m) :
  Laid (Writing.padded m)
  := (Laid.blank h).append (Laid.blank .nil) (Follow.cons rfl)

theorem orSpace (h : Laid m) :
  Closed true (Writing.orSpace m)
  := by
  rw [Writing.orSpace]
  split
  · apply Closed.plain (by simp) (by simp)
  · apply h.closed

/-- What separates a command name from a letter is laid out. -/
theorem separator : Laid (Writing.separator tm)
  := by
  cases tm with
  | true => exact (spells_empty_group (t := .builtin)).solid.laid
  | false => apply Laid.blank .nil

/-- Joined rows are a row. -/
theorem join {parts : List Text} {nss : List (List Node)}
    (h : List.Forall₂ (fun m _ => Laid m) parts nss) :
  Laid (Writing.join (Writing.separator tm) parts)
  := by
  apply rel_join (R := fun m (_ : List Node) => Laid m) Laid.nil Laid.append _ h
  intro a b _ _ ha hb
  have hfollow : Follow a (Writing.separator tm) := by
    cases tm <;> apply Follow.cons rfl
  apply (ha.append separator hfollow).append hb
  intro hends
  rw [endsInName_separator] at hends
  contradiction

end Laid

/-! ### Text -/

/-- A row of solid items without spaces inside an item, apart from a control space. -/
inductive Packed : Text → Prop
  | nil : Packed []
  | blank {m : Text} : Packed m → Packed (' ' :: m)
  | item {core m : Text} : Solid core → ' ' ∉ core → Follow core m → Packed m → Packed (core ++ m)
  | controlSpace {m : Text} : Packed m → Packed ('\\' :: ' ' :: m)

namespace Packed

/-- Collapsing spaces leaves a row, also after the spaces in front are dropped. -/
theorem collapse (h : Packed m) :
  Laid (collapseSpaces m) ∧ Laid (collapseSpaces (m.dropWhile (· = ' ')))
  := by
  induction h with
  | nil =>
    constructor
    · apply Laid.nil
    · apply Laid.nil
  | blank _ ih =>
    rw [collapseSpaces_space, List.dropWhile_cons_of_pos (by simp)]
    constructor
    · apply Laid.blank ih.2
    · apply ih.2
  | item hcore hspace hfollow _ ih =>
    obtain ⟨c, cs, rfl, hc⟩ := hcore.head
    have hdrop : ∀ m : Text, (c :: cs ++ m).dropWhile (· = ' ') = c :: cs ++ m :=
      fun m => List.dropWhile_cons_of_neg (by simp [hc])
    rw [hdrop, and_self, collapseSpaces_append hspace]
    apply Laid.item hcore _ ih.1
    intro hends
    rw [startsWithLetter_collapseSpaces]
    apply hfollow hends
  | controlSpace _ ih =>
    rw [List.dropWhile_cons_of_neg (by decide), and_self, collapseSpaces_cons (by decide),
      collapseSpaces_space]
    apply Laid.item (spells_control_space (t := .builtin)).solid _ ih.2
    apply Follow.concat (s := ['\\']) rfl

/-- The command of a symbol in front of more, which no letter begins if the command ends with
one. -/
theorem symbol {command : Text} (hcommand : SymbolTable.builtin.commandFor? [c] = some command)
    (hm : command.getLast?.any Text.isLetter = true → Text.startsWithLetter m = false)
    (h : Packed m) :
  Packed (command ++ m)
  := by
  apply Packed.item (spells_symbol hcommand).solid _ _ h
  · apply space_not_mem_command (SymbolTable.glyphOf?_commandFor? hcommand).1
  · intro hends
    apply hm (getLast?_of_endsInName hends)

/-- A character other than a space that has neither an escape nor a command is solid. -/
theorem solid_unescaped (hspace : c ≠ ' ') (hescape : Escape.spelling? c = none)
    (hcommand : SymbolTable.builtin.commandFor? [c] = none) :
  Solid [c]
  := by
  have hne := ne_of_unescaped hescape hcommand
  have hback := hne '\\' (by simp)
  constructor
  · exact ⟨c, [], rfl, hspace⟩
  · apply Whole.concat (a := []) hback hspace
  · apply Closed.plain
    · intro d hd
      obtain rfl := List.mem_singleton.1 hd
      exact ⟨hback, hne '{' (by simp), hne '}' (by simp)⟩
    · intro _ hmem
      apply hne '&' (by simp) (List.mem_singleton.1 hmem).symm

/-- The markup of a character in front of more. -/
theorem escapeChar (h : Packed m) :
  Packed (Writing.escapeChar .builtin tm c ++ m)
  := by
  have hplain : c ≠ ' ' → Escape.spelling? c = none →
      SymbolTable.builtin.commandFor? [c] = none → ∀ {m}, Packed m → Packed ([c] ++ m) := by
    intro hspace hescape hcommand m h
    apply Packed.item (solid_unescaped hspace hescape hcommand) (by simpa using Ne.symm hspace) _ h
    intro hends
    rw [endsInName_singleton] at hends
    cases hends
  have hpadded : ∀ {s : Text}, Packed (s ++ ' ' :: m) → Packed (padded s ++ m) := by
    intro s hs
    rw [padded, List.append_assoc, List.append_assoc]
    apply Packed.blank hs
  apply escapeChar_cases (P := fun s => Packed (s ++ m))
  case space => exact fun _ => Packed.controlSpace h
  case escape =>
    intro spelling hspelling
    obtain ⟨htight, hends⟩ := writtenEscapes_tight _ (mem_writtenEscapes hspelling)
    apply Packed.item (spells_escape (t := .builtin) hspelling).solid htight _ h
    intro hends'
    rw [hends] at hends'
    cases hends'
  case separated =>
    intro command hcommand
    rw [List.append_assoc]
    apply Packed.symbol hcommand (fun _ => startsWithLetter_separator)
    cases tm with
    | true =>
      apply Packed.item (spells_empty_group (t := .builtin)).solid (by decide) _ h
      apply Follow.concat (s := ['{']) rfl
    | false => apply Packed.blank h
  case bare =>
    intro command hcommand hlast
    apply Packed.symbol hcommand _ h
    rw [hlast]
    intro hletter
    cases hletter
  case operator =>
    intro command hcommand _
    apply hpadded (Packed.symbol hcommand (fun _ => rfl) (Packed.blank h))
  case plain => exact fun hspace hescape hcommand => hplain hspace hescape hcommand h
  case plainOperator =>
    intro hspace hescape hcommand _
    apply hpadded (hplain hspace hescape hcommand (Packed.blank h))

end Packed

namespace Laid

/-- A text is a row, whatever its characters are. -/
theorem escapeText : Laid (Writing.escapeText .builtin tm value)
  := by
  apply (Packed.collapse _).1
  induction value with
  | nil => apply Packed.nil
  | cons c cs ih =>
    rw [List.flatMap_cons]
    apply Packed.escapeChar ih

/-- The commands for weight and slant stand around a row. -/
theorem emphasized (h : Laid m) (format : TextFormat) (value : Text) :
  Laid (Writing.emphasized format value m)
  := by
  have hcommand : ∀ {name : String} {m : Text}, isInertCommand name.toList = true → Laid m →
      Laid (Writing.command name m) := fun hname h =>
    (Solid.command hname h.closed_inside.braced (whole_braced _) rfl).laid
  rw [Writing.emphasized]
  split
  · split
    · apply hcommand (by decide) (hcommand (by decide) h)
    · apply hcommand (by decide) h
  · apply hcommand (by decide) (hcommand (by decide) h)
  · apply hcommand (by decide) h
  · apply hcommand (by decide) h
  · apply hcommand (by decide) h
  · apply h

/-- What is wrapped is solid, unless it has a color with a backslash or a brace. -/
theorem wrap {w : Wrapper} (h : Laid m) (hcolor : ∀ c, w = (.color, .text c) → Text.Inert c) :
  Solid (Writing.wrap m w)
  := by
  have hcommand : ∀ {name : String} {m : Text}, isInertCommand name.toList = true →
      Closed false m → Solid (Writing.command name m) := fun hname h =>
    Solid.command hname h.braced (whole_braced _) rfl
  have hbody := h.trimMarkup.closed_inside
  obtain ⟨kind, param⟩ := w
  cases kind with
  | underline =>
    rcases param with _ | (_ | _) | _
    · apply hcommand (by decide) hbody
    · apply hcommand (by decide) hbody
    · apply hcommand (by decide) (hcommand (by decide) hbody).laid.closed_inside
    · apply hcommand (by decide) hbody
  | cancel => apply hcommand (by decide) hbody
  | color =>
    have hinert : Text.Inert (colorText param) := by
      rcases param with _ | (_ | _) | c
      · decide
      · decide
      · decide
      · apply hcolor c rfl
    have hplain : Closed false (colorText param) := Closed.plain hinert (by simp)
    have htextcolor : isInertCommand "\\textcolor".toList = true := rfl
    have hsolid := Solid.command htextcolor (hplain.braced_append hbody.braced)
      (whole_braced _).append rfl
    rwa [← List.append_assoc] at hsolid
  | textMode => apply hcommand (by decide) hbody

/-- A row stays one inside of wrappers, unless one of them is a color with a backslash or a
brace. -/
theorem foldl_wrap {ws : List Wrapper} (h : Laid m)
    (hcolor : ∀ w ∈ ws, ∀ c, w = (.color, .text c) → Text.Inert c) :
  Laid (ws.foldl Writing.wrap m)
  := by
  induction ws generalizing m with
  | nil => apply h
  | cons w ws ih =>
    apply ih (h.wrap (hcolor w List.mem_cons_self)).laid
    intro w hw
    apply hcolor w (List.mem_cons_of_mem _ hw)

/-- A run of text is a row, unless it has a color with a backslash or a brace. -/
theorem textRun {format : TextFormat} (hcolor : ∀ c ∈ format.color, Text.Inert c) :
  Laid (Writing.textRun .builtin tm format value)
  := by
  rw [Writing.textRun]
  split
  · apply Laid.nil
  apply (escapeText.emphasized format value).foldl_wrap
  intro w hw c hc
  apply hcolor c (color_of_mem_attributeCommandsOf (hc ▸ hw))

end Laid

end Formula
