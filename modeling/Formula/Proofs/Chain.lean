import Formula.Proofs.Appearance
import Formula.Proofs.RoundTrip
import Mathlib.Data.List.Infix

/-!
# Chains of wrapper commands

Wrapper commands around each other, with a letter innermost, are read as that letter alone.
The letter is wrapped in every kind of the chain once.  Its color is the outermost one; its
underline depends on the first command around the innermost underline that brings in a kind
which is not there yet.
-/

namespace Formula

open Build Markup Writing

/-- A wrapper command, a color command with its color. -/
inductive WrapperCommand
  | underline
  | cancel
  | color (value : Text)
  | text

namespace WrapperCommand

/-- The kind of wrapper that a command applies. -/
def kind : WrapperCommand → WrapperKind
  | .underline => .underline
  | .cancel => .cancel
  | .color _ => .color
  | .text => .textMode

/-- The parameter that a command gives. -/
def param : WrapperCommand → WrapperParam
  | .color value => .text value
  | _ => .none

/-- The command with a markup for its argument. -/
def around (m : Text) : WrapperCommand → Text
  | .underline => command "\\underline" m
  | .cancel => command "\\cancel" m
  | .color value => "\\textcolor".toList ++ braced value ++ braced m
  | .text => command "\\text" m

/-- A markup with the commands of a chain around it, the first of them innermost. -/
def chained (chain : List WrapperCommand) (m : Text) : Text := chain.foldl around m

/-- The wrapping that a chain gives to a node without wrappers. -/
def wrapping (chain : List WrapperCommand) : Wrapping :=
  chain.foldl (fun w command => w.wrap command.kind command.param) {}

variable {chain : List WrapperCommand} {c : Char} {w : Wrapping}

theorem chained_concat (command : WrapperCommand) (m : Text) :
  chained (chain ++ [command]) m = command.around (chained chain m)
  := List.foldl_concat ..

theorem wrapping_concat (command : WrapperCommand) :
  wrapping (chain ++ [command]) = (wrapping chain).wrap command.kind command.param
  := List.foldl_concat ..

end WrapperCommand

/-! ### One wrapper more -/

namespace Wrapping

variable {w : Wrapping} {kind other : WrapperKind} {p : WrapperParam}

/-- A kind that is read around the wrappers is put there, or it is there already and nothing
changes. -/
theorem wrap_cases (w : Wrapping) (kind : WrapperKind) (p : WrapperParam) :
  (∃ q, w.wrap kind p = w.put kind q)
    ∨ (w.params.get? kind).isSome ∧ w.wrap kind p = w
  := by
  rw [wrap]
  split
  · rename_i hkind
    subst hkind
    split
    · exact .inl ⟨_, rfl⟩
    · rename_i current hcurrent
      split
      · exact .inl ⟨_, rfl⟩
      · exact .inr ⟨by rw [WrapperParams.get?, hcurrent, Option.isSome_some], rfl⟩
  · exact .inl ⟨_, rfl⟩

/-- A kind that is read around the wrappers goes behind them, unless it is one of them. -/
theorem order_wrap :
  (w.wrap kind p).order = if (w.params.get? kind).isSome then w.order else w.order ++ [kind]
  := by
  obtain ⟨q, hput⟩ | ⟨hpresent, hkept⟩ := wrap_cases w kind p
  · rw [hput, put]
  · rw [hkept, if_pos hpresent]

/-- A new kind is the last one that came in. -/
theorem getLast?_order_wrap :
  (w.wrap kind p).order.getLast?
    = if (w.params.get? kind).isSome then w.order.getLast? else some kind
  := by
  rw [order_wrap]
  split
  · rfl
  · apply List.getLast?_concat

/-- The other kinds keep their parameters. -/
theorem get?_wrap_of_ne (h : other ≠ kind) :
  (w.wrap kind p).params.get? other = w.params.get? other
  := by
  obtain ⟨q, hput⟩ | ⟨-, hkept⟩ := wrap_cases w kind p
  · rw [hput, get?_put, if_neg h]
  · rw [hkept]

/-- The kinds that are present are those that were, and the new one. -/
theorem isSome_get?_wrap :
  ((w.wrap kind p).params.get? other).isSome ↔ (w.params.get? other).isSome ∨ other = kind
  := by
  obtain ⟨q, hput⟩ | ⟨hpresent, hkept⟩ := wrap_cases w kind p
  · rw [hput, get?_put]
    by_cases hother : other = kind <;> simp [hother]
  · rw [hkept]
    constructor
    · apply Or.inl
    · rintro (h | rfl)
      · apply h
      · apply hpresent

/-- A kind other than the underline has the parameter that it is read with last. -/
theorem get?_wrap_self (h : kind ≠ .underline) :
  (w.wrap kind p).params.get? kind = some p
  := by
  rw [wrap, if_neg h, get?_put, if_pos rfl]

/-- The other kinds do not change the underline. -/
theorem underline_wrap_of_ne (h : kind ≠ .underline) :
  (w.wrap kind p).params.underline = w.params.underline
  := @get?_wrap_of_ne w kind .underline p (Ne.symm h)

/-- An underline around no underline is single. -/
theorem underline_wrap_of_none (h : w.params.underline = none) :
  (w.wrap .underline p).params.underline = some (.style .single)
  := by
  rw [wrap, if_pos rfl, h]
  rfl

/-- An underline around a single one makes it double if no further kind came in between. -/
theorem underline_wrap_of_last (h : w.params.underline = some (.style .single))
    (hlast : w.order.getLast? = some .underline) :
  (w.wrap .underline p).params.underline = some (.style .double)
  := by
  rw [wrap, if_pos rfl, h]
  simp only [hlast, decide_true, Bool.and_self, if_true]
  rfl

/-- An underline is not changed by a further one that does not make it double. -/
theorem underline_wrap_of_kept {style : UnderlineStyle}
    (h : w.params.underline = some (.style style))
    (hkept : style = .double ∨ w.order.getLast? ≠ some .underline) :
  (w.wrap kind p).params.underline = some (.style style)
  := by
  by_cases hkind : kind = .underline
  · rw [wrap, if_pos hkind, h]
    have hno : (decide ((WrapperParam.style style) = .style .single)
        && decide (w.order.getLast? = some .underline)) = false := by
      rcases hkept with rfl | hlast
      · rfl
      · simp [hlast]
    simp only [hno, Bool.false_eq_true, if_false]
    apply h
  · rw [underline_wrap_of_ne hkind, h]

/-- How the underline stands, when the first new kind around it is this one: nothing is new and
the underline came in last, or it became double, or it stays single. -/
inductive UnderlineStage (w : Wrapping) : Option WrapperKind → Prop
  | last : w.params.underline = some (.style .single) → w.order.getLast? = some .underline →
    UnderlineStage w none
  | doubled : w.params.underline = some (.style .double) → UnderlineStage w (some .underline)
  | settled {new : WrapperKind} : new ≠ .underline → w.params.underline = some (.style .single) →
    w.order.getLast? ≠ some .underline → UnderlineStage w (some new)

namespace UnderlineStage

/-- The innermost underline comes in last. -/
theorem start (h : w.params.underline = none) :
  UnderlineStage (w.wrap .underline p) none
  := by
  apply last (underline_wrap_of_none h)
  rw [getLast?_order_wrap, WrapperParams.get?, h]
  rfl

/-- After the first new kind nothing changes the underline. -/
theorem wrap_some {new : WrapperKind} (h : UnderlineStage w (some new)) :
  UnderlineStage (w.wrap kind p) (some new)
  := by
  cases h with
  | doubled hdouble => apply doubled (underline_wrap_of_kept hdouble (.inl rfl))
  | settled hnew hsingle hlast =>
    apply settled hnew (underline_wrap_of_kept hsingle (.inr hlast))
    rw [getLast?_order_wrap]
    split
    · apply hlast
    · rename_i habsent
      intro hkind
      rw [Option.some.inj hkind, WrapperParams.get?, hsingle] at habsent
      contradiction

/-- A kind that was there before the underline does not matter. -/
theorem wrap_old (h : UnderlineStage w none) (hkind : kind ≠ .underline)
    (hold : (w.params.get? kind).isSome) :
  UnderlineStage (w.wrap kind p) none
  := by
  obtain ⟨hsingle, hlast⟩ := h
  apply last
  · rw [underline_wrap_of_ne hkind, hsingle]
  · rw [getLast?_order_wrap, if_pos hold, hlast]

/-- The first new kind, or the underline again, decides. -/
theorem wrap_new (h : UnderlineStage w none)
    (hnew : kind = .underline ∨ (w.params.get? kind).isSome = false) :
  UnderlineStage (w.wrap kind p) (some kind)
  := by
  obtain ⟨hsingle, hlast⟩ := h
  by_cases hkind : kind = .underline
  · subst hkind
    apply doubled (underline_wrap_of_last hsingle hlast)
  · apply settled hkind
    · rw [underline_wrap_of_ne hkind, hsingle]
    · rw [getLast?_order_wrap, if_neg (by simp [hnew.resolve_left hkind])]
      simpa using hkind

/-- The style of the underline. -/
theorem underline {new : Option WrapperKind} (h : UnderlineStage w new) :
  w.params.underline
    = some (.style (if new = some .underline then .double else .single))
  := by
  cases h with
  | last hsingle => apply hsingle
  | doubled hdouble => apply hdouble
  | settled hnew hsingle => rw [hsingle, if_neg (by simpa using hnew)]

end UnderlineStage

end Wrapping

namespace WrapperCommand

/-! ### The wrapping of a chain -/

/-- The kinds of a chain, the first of them innermost. -/
def kinds (chain : List WrapperCommand) : List WrapperKind := chain.map kind

theorem kinds_concat (command : WrapperCommand) :
  kinds (chain ++ [command]) = kinds chain ++ [command.kind]
  := List.map_append

theorem isSome_get?_wrapping {k : WrapperKind} :
  ((wrapping chain).params.get? k).isSome ↔ k ∈ kinds chain
  := by
  induction chain using List.reverseRecOn with
  | nil => cases k <;> simp [wrapping, kinds, WrapperParams.get?]
  | append_singleton chain command ih =>
    rw [wrapping_concat, Wrapping.isSome_get?_wrap, ih, kinds_concat, List.mem_append,
      List.mem_singleton]

/-- The wrapping lists each kind once, in the order of the innermost occurrences. -/
theorem order_wrapping :
  (wrapping chain).order = (kinds chain).eraseDups
  := by
  induction chain using List.reverseRecOn with
  | nil => rfl
  | append_singleton chain command ih =>
    rw [wrapping_concat, Wrapping.order_wrap, kinds_concat, eraseDups_concat, ih]
    simp only [isSome_get?_wrapping]

/-- A kind other than the underline has the parameter of the outermost command of that kind. -/
theorem get?_wrapping {k : WrapperKind} (h : k ≠ .underline) :
  (wrapping chain).params.get? k = (chain.filter (·.kind = k)).getLast?.map param
  := by
  induction chain using List.reverseRecOn with
  | nil => cases k <;> rfl
  | append_singleton chain command ih =>
    rw [wrapping_concat, List.filter_append, List.filter_singleton]
    by_cases hkind : k = command.kind
    · subst hkind
      simp [Wrapping.get?_wrap_self h]
    · rw [Wrapping.get?_wrap_of_ne hkind, ih]
      simp [Ne.symm hkind]

/-- The innermost of some kinds that is not among those further inside. -/
def firstNew? (inner outer : List WrapperKind) : Option WrapperKind :=
  outer.find? (· ∉ inner)

theorem firstNew?_concat (inner outer : List WrapperKind) (k : WrapperKind) :
  firstNew? inner (outer ++ [k])
    = (firstNew? inner outer).or (if k ∈ inner then none else some k)
  := by
  rw [firstNew?, List.find?_append, firstNew?]
  by_cases hk : k ∈ inner <;> simp [hk]

theorem firstNew?_eq_none_iff {inner outer : List WrapperKind} :
  firstNew? inner outer = none ↔ ∀ k ∈ outer, k ∈ inner
  := by
  simp [firstNew?]

/-- How the underline of a chain stands.  The induction is on the commands around the innermost
underline. -/
theorem underlineStage_wrapping {inner outer : List WrapperCommand}
    (h : .underline ∉ kinds inner) :
  (wrapping (inner ++ .underline :: outer)).UnderlineStage
    (firstNew? (kinds inner) (kinds outer))
  := by
  induction outer using List.reverseRecOn with
  | nil =>
    rw [wrapping_concat]
    apply Wrapping.UnderlineStage.start
    rw [← isSome_get?_wrapping, Option.not_isSome_iff_eq_none] at h
    apply h
  | append_singleton outer command ih =>
    have hchain : inner ++ .underline :: (outer ++ [command])
        = (inner ++ .underline :: outer) ++ [command] := by simp
    rw [hchain, wrapping_concat, kinds_concat, firstNew?_concat]
    cases hnew : firstNew? (kinds inner) (kinds outer) with
    | some k =>
      rw [hnew] at ih
      rw [Option.some_or]
      apply ih.wrap_some
    | none =>
      rw [hnew] at ih
      rw [Option.none_or]
      have hpresent : command.kind ∈ kinds (inner ++ .underline :: outer)
          ↔ command.kind ∈ kinds inner ∨ command.kind = .underline := by
        have houter := firstNew?_eq_none_iff.1 hnew command.kind
        simp only [kinds, List.map_append, List.map_cons, List.mem_append, List.mem_cons]
          at houter ⊢
        grind [kind]
      rw [← isSome_get?_wrapping] at hpresent
      split
      · rename_i hinner
        apply ih.wrap_old _ (hpresent.2 (.inl hinner))
        rintro hkind
        apply h (hkind ▸ hinner)
      · rename_i hinner
        apply ih.wrap_new
        grind

/-- The first new kind around an underline that stands together with all others. -/
theorem firstNew?_together {inner outer : List WrapperKind} {n : Nat} (hinner : .underline ∉ inner)
    (houter : .underline ∉ outer) :
  firstNew? inner (List.replicate n .underline ++ outer) = some .underline
    ↔ [.underline, .underline] <:+: inner ++ List.replicate (n + 1) .underline ++ outer
  := by
  cases n with
  | zero =>
    constructor
    · intro hnew
      have := List.mem_of_find?_eq_some hnew
      contradiction
    · intro htouching
      have hcount := htouching.sublist.count_le .underline
      simp [List.count_eq_zero.2 hinner, List.count_eq_zero.2 houter] at hcount
  | succ n =>
    constructor
    · intro _
      refine ⟨inner, List.replicate n .underline ++ outer, ?_⟩
      simp [List.replicate_succ]
    · intro _
      simp [firstNew?, List.replicate_succ, hinner]

/-- The wrapping is what a chain gives.  It lists each kind once, in the order of the innermost
occurrences, and a kind has the parameter of its outermost command.  An underline is double if
of the commands around the innermost underline, the first whose kind does not stand inside of
that underline is an underline again.  Where all underlines stand together, that is the case if
two of them are directly nested. -/
structure Wraps (chain : List WrapperCommand) (w : Wrapping) : Prop where
  order : w.order = (kinds chain).eraseDups
  param : ∀ k ≠ .underline, w.params.get? k = (chain.filter (·.kind = k)).getLast?.map param
  absent : .underline ∉ kinds chain → w.params.underline = none
  underline : ∀ inner outer, kinds chain = inner ++ .underline :: outer → .underline ∉ inner →
    w.params.underline = some (.style
      (if firstNew? inner outer = some .underline then .double else .single))
  together : ∀ inner n outer, kinds chain = inner ++ List.replicate (n + 1) .underline ++ outer →
    .underline ∉ inner → .underline ∉ outer → w.params.underline = some (.style
      (if [.underline, .underline] <:+: kinds chain then .double else .single))

theorem wraps_wrapping (chain : List WrapperCommand) :
  Wraps chain (wrapping chain)
  := by
  have hunderline : ∀ inner outer, kinds chain = inner ++ .underline :: outer →
      .underline ∉ inner → (wrapping chain).params.underline = some (.style
        (if firstNew? inner outer = some .underline then .double else .single)) := by
    intro inner outer hkinds hinner
    obtain ⟨inside, around, rfl, rfl, haround⟩ := List.map_eq_append_iff.1 hkinds
    obtain ⟨command, outside, rfl, hkind, rfl⟩ := List.map_eq_cons_iff.1 haround
    cases command with
    | underline => apply (underlineStage_wrapping hinner).underline
    | _ => contradiction
  constructor
  · apply order_wrapping
  · intro k hk
    apply get?_wrapping hk
  · intro habsent
    rw [← isSome_get?_wrapping, Option.not_isSome_iff_eq_none] at habsent
    apply habsent
  · apply hunderline
  · intro inner n outer hkinds hinner houter
    rw [hunderline inner (List.replicate n .underline ++ outer) _ hinner]
    · simp only [firstNew?_together hinner houter, hkinds]
    · simpa [List.replicate_succ] using hkinds

/-! ### Reading a chain -/

/-- The colors of a chain are written and read as they are. -/
def HasPlainColors (chain : List WrapperCommand) : Prop :=
  ∀ value, .color value ∈ chain → PlainColor value

/-- A letter with the wrapping of a chain, without identifier. -/
def letterNode (chain : List WrapperCommand) (c : Char) : Node :=
  .mk { id := 0, wrapping := wrapping chain } (.text [c] {} none)

theorem letterNode_concat (command : WrapperCommand) :
  letterNode (chain ++ [command]) c
    = (letterNode chain c).rewrap fun w => w.wrap command.kind command.param
  := by
  rw [letterNode, wrapping_concat]
  rfl

/-- A chain around a letter spells the letter with the wrapping of the chain. -/
theorem spelled_chained (hc : Text.isLetter c = true) (h : HasPlainColors chain) :
  Spelled .builtin true true (chained chain [c]) [letterNode chain c]
  := by
  induction chain using List.reverseRecOn with
  | nil =>
    apply Spells.spelled
    apply spells_plain (Text.isBlank_of_isLetter hc)
    · intro hmem
      simp only [List.mem_cons, List.not_mem_nil, or_false] at hmem
      rcases hmem with rfl | rfl | rfl | rfl | rfl <;> contradiction
    · rintro - rfl
      contradiction
  | append_singleton chain command ih =>
    have hchain := ih fun value hvalue => h value (List.mem_append_left _ hvalue)
    rw [chained_concat, letterNode_concat]
    cases command with
    | underline =>
      apply Spells.spelled
      have hlookup : wrapperCommands.lookup "\\underline".toList = some .underline := by decide
      apply spells_wrapper hlookup (by decide) (by decide) (by decide) hchain
    | cancel =>
      apply Spells.spelled
      have hlookup : wrapperCommands.lookup "\\cancel".toList = some .cancel := by decide
      apply spells_wrapper hlookup (by decide) (by decide) (by decide) hchain
    | color value =>
      apply Spells.spelled
      apply spells_color (h value (by simp)).clean hchain
    | text =>
      apply Spells.spelled
      apply spells_text hchain (hchain.ne_ampersand _)
      intro hampersand
      have hshape : Tree.shape (letterNode chain c) = Tree.shape (charNode '＆') :=
        congrArg Tree.shape (List.head_eq_of_cons_eq hampersand)
      obtain rfl : c = '＆' := by simpa [letterNode, charNode, Node.plain, Tree.shape] using hshape
      contradiction

/-- A node that is a text when identifiers are left out is that text. -/
theorem eq_of_bare {n : Node} {w : Wrapping} {v : Text} {f : TextFormat} {scale : Option Scale}
    (h : n.bare = .mk { id := 0, wrapping := w } (.text v f scale)) :
  ∃ i, n = .mk { id := i, wrapping := w } (.text v f scale)
  := by
  obtain ⟨l, s⟩ := n
  rw [Node.bare_mk] at h
  obtain ⟨hl, hs⟩ := Tree.mk.inj h
  cases s with
  | text v' f' scale' =>
    refine ⟨l.id, ?_⟩
    obtain rfl : l.wrapping = w := congrArg Label.wrapping hl
    exact congrArg (Tree.mk l) hs
  | _ => contradiction

/-- A chain around a letter is read as the letter alone, with the wrapping that the chain
gives. -/
theorem reads_chained (config : Config) (supply : Supply) (hc : Text.isLetter c = true)
    (h : HasPlainColors chain) :
  ∃ i w, ((ofMarkup .builtin config (chained chain [c])).runOn supply).1
      = .ok [.mk { id := i, wrapping := w } (.text [c] {} none)]
    ∧ Wraps chain w
  := by
  obtain ⟨made, hmade, hbare⟩ :=
    ((spelled_chained hc h).mono (by simp) (by simp)).exists_ofMarkup config supply
  have hstore : (config.store made).map Node.bare = [letterNode chain c] := by
    rw [map_bare_store, hbare, Config.store]
    split <;> rfl
  obtain ⟨n, hn, hletter⟩ := List.map_eq_singleton_iff.1 hstore
  obtain ⟨i, rfl⟩ := eq_of_bare hletter
  refine ⟨i, wrapping chain, ?_, wraps_wrapping chain⟩
  rw [hmade, hn]

/-- A blue letter underlined, colored red and underlined again. -/
theorem reads_chained_recolored :
  (Text.isLetter 'x' = true
      ∧ HasPlainColors [.color "blue".toList, .underline, .color "red".toList, .underline])
    ∧ ∃ i w, ((ofMarkup .builtin {}
        ("\\underline\x7b\\textcolor\x7bred\x7d\x7b\\underline\x7b".toList
          ++ "\\textcolor\x7bblue\x7d\x7bx\x7d\x7d\x7d\x7d".toList)).runOn {}).1
          = .ok [.mk { id := i, wrapping := w } (.text ['x'] {} none)]
      ∧ Wraps [.color "blue".toList, .underline, .color "red".toList, .underline] w
  := by
  have hcolors : HasPlainColors
      [.color "blue".toList, .underline, .color "red".toList, .underline] := by
    intro value hvalue
    simp only [List.mem_cons, reduceCtorEq, color.injEq, List.not_mem_nil, or_false, false_or]
      at hvalue
    rcases hvalue with rfl | rfl <;> constructor <;> decide
  exact ⟨⟨by decide, hcolors⟩, reads_chained {} {} (by decide) hcolors⟩

end WrapperCommand

end Formula
