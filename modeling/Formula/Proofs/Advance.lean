import Formula.Proofs.Endings
import Formula.Proofs.Spelled

/-!
# What the readers take

An item takes at least one character and leaves an ending of the text, and whatever stands
inside of it is read from texts that are shorter.  Both are shown together, reader by reader:
given readers of the insides that agree on shorter texts, a reader gives one and the same
computation, which leaves an ending of what follows the first character.
-/

namespace Formula

open Markup

variable {t : SymbolTable} {nested nested' : Nested} {s s' rest cs : Text}

/-! ### Agreement -/

namespace Build

variable {α β : Type}

/-- What follows a computation matters only where the computation leads. -/
theorem Meets.bind_congr {b : Build α} {P : α → Prop} {E : Fault → Prop}
    {c c' : α → Build β} (h : Meets b P E) (hc : ∀ a, P a → c a = c' a) :
  b >>= c = b >>= c'
  := by
  funext supply
  have hs := h supply
  change (b >>= c).runOn supply = (b >>= c').runOn supply
  rw [runOn_bind, runOn_bind]
  rcases hr : b.runOn supply with ⟨fault | a, rest⟩
  · rfl
  · rw [hr] at hs
    dsimp only
    rw [hc a hs]

/-- The computations are one and the same, which leaves an ending of the text. -/
structure Same (s : Text) (b b' : Build (α × Text)) : Prop where
  eq : b = b'
  leaves : Meets b (fun read => read.2 <:+ s) fun _ => True

namespace Same

variable {b b' : Build (α × Text)}

theorem pure {a : α} (h : rest <:+ s) :
  Same s (Pure.pure (a, rest)) (Pure.pure (a, rest))
  := ⟨rfl, Meets.pure h⟩

theorem mono (h : Same s b b') (hs : s <:+ s') :
  Same s' b b'
  := ⟨h.eq, h.leaves.mono (fun _ hr => hr.trans hs) fun _ => id⟩

theorem bind {c c' : α × Text → Build (β × Text)} (h : Same s b b')
    (hc : ∀ a rest, rest <:+ s → Same s' (c (a, rest)) (c' (a, rest))) :
  Same s' (b >>= c) (b' >>= c')
  := by
  obtain ⟨rfl, hleaves⟩ := h
  constructor
  · apply hleaves.bind_congr
    rintro ⟨a, rest⟩ hrest
    apply (hc a rest hrest).eq
  · apply hleaves.bind
    rintro ⟨a, rest⟩ hrest
    apply (hc a rest hrest).leaves

/-- A computation that leaves no text of its own. -/
theorem bind_left (b : Build β) {c c' : β → Build (α × Text)}
    (hc : ∀ a, Same s (c a) (c' a)) :
  Same s (b >>= c) (b >>= c')
  := by
  constructor
  · exact congrArg (b >>= ·) (funext fun a => (hc a).eq)
  · have hb : Meets b (fun _ => True) fun _ => True := by
      intro supply
      split <;> trivial
    apply hb.bind
    intro a _
    apply (hc a).leaves

end Same

end Build

open Build

/-- The readers of the insides of an item are the same on texts shorter than `n`. -/
structure Nested.EqBelow (nested nested' : Nested) (n : Nat) : Prop where
  sequence : ∀ u : Text, u.length < n → nested.sequence u = nested'.sequence u
  spaced : ∀ u : Text, u.length < n → nested.spaced u = nested'.spaced u
  item : ∀ u : Text, u.length < n → Text.skipBlanks u = u → nested.item u = nested'.item u

/-- The readers of the insides of an item on texts shorter than `n`; on others they fail. -/
def Nested.failFrom (nested : Nested) (n : Nat) (fault : Fault) : Nested where
  sequence u := if u.length < n then nested.sequence u else throw fault
  spaced u := if u.length < n then nested.spaced u else throw fault
  item u := if u.length < n then nested.item u else throw fault

theorem Nested.failFrom_eqBelow (nested : Nested) (n : Nat) (fault : Fault) :
  (nested.failFrom n fault).EqBelow nested n
  := ⟨fun _ hu => if_pos hu, fun _ hu => if_pos hu, fun _ hu _ => if_pos hu⟩

/-- The readers of the insides of an item are the same on texts of at most the length of `cs`, and
leave endings of them. -/
structure Nested.Agree (nested nested' : Nested) (cs : Text) : Prop
    extends nested.EqBelow nested' (cs.length + 1) where
  leaves : ∀ u : Text, u.length < cs.length + 1 → Text.skipBlanks u = u →
    Meets (nested.item u) (fun read => read.2 <:+ u) fun _ => True

/-- A reader that takes a character and looks inside of the item on shorter texts only. -/
def Reader.Advances (reader : Reader) (t : SymbolTable) : Prop :=
  ∀ (nested nested' : Nested) (c : Char) (cs : Text), nested.Agree nested' cs →
    Option.Rel (Same cs) (reader t nested (c :: cs)) (reader t nested' (c :: cs))

/-- A reader for what is found at the beginning of a text. -/
theorem rel_map {α : Type} {o : Option α} {f f' : α → Build (Item × Text)}
    (h : ∀ a ∈ o, Same cs (f a) (f' a)) :
  Option.Rel (Same cs) (o.map f) (o.map f')
  := by
  cases o with
  | none => exact .none
  | some a => exact .some (h a rfl)

/-! ### Arguments and bounds -/

namespace Nested.Agree

variable (h : nested.Agree nested' cs)

include h

theorem bind_sequence {α : Type} {u : Text} {f f' : List Node → Build (α × Text)}
    (hu : u.length ≤ cs.length) (hf : ∀ ns, Same s (f ns) (f' ns)) :
  Same s (nested.sequence u >>= f) (nested'.sequence u >>= f')
  := by
  rw [h.sequence u (Nat.lt_succ_of_le hu)]
  apply Same.bind_left _ hf

theorem argument (hs : s <:+ cs) :
  Same cs (nested.argument s) (nested'.argument s)
  := by
  rw [Nested.argument, Nested.argument]
  rcases hargument : Markup.argument s with ⟨content, rest⟩
  obtain ⟨hrest, hcontent⟩ := argument_cases hs hargument
  apply h.bind_sequence hcontent
  intro ns
  apply Same.pure hrest

theorem group? (hs : s <:+ cs) :
  Same cs (nested.group? s) (nested'.group? s)
  := by
  rw [Nested.group?, Nested.group?]
  split
  · apply Same.pure hs
  · rename_i content rest hgroup
    obtain ⟨hrest, hcontent⟩ := nextGroup?_cases hs hgroup
    apply h.bind_sequence hcontent
    intro ns
    apply Same.pure hrest

theorem readOne (b : Bounds) (hs : s <:+ cs) :
  Same cs (Bounds.readOne nested b s) (Bounds.readOne nested' b s)
  := by
  rw [Bounds.readOne, Bounds.readOne]
  split
  · apply Same.pure hs
  · rename_i side after hmarker
    have hafter := (suffix_of_scriptMarker? hmarker).trans hs
    split
    · apply Same.pure hs
    · rcases hargument : Markup.argument after with ⟨content, rest⟩
      obtain ⟨hrest, hcontent⟩ := argument_cases hafter hargument
      apply h.bind_sequence hcontent
      intro ns
      apply Same.pure hrest

theorem bounds (hs : s <:+ cs) :
  Same cs (Bounds.read nested s) (Bounds.read nested' s)
  := by
  apply Same.bind (h.readOne {} hs)
  intro b rest hrest
  apply h.readOne b hrest

/-- An item in an ending of the text. -/
theorem ending (hs : s <:+ cs) (hblanks : Text.skipBlanks s = s) :
  Same cs (nested.item s) (nested'.item s)
  := by
  have hlength := Nat.lt_succ_of_le hs.length_le
  apply Same.mono ⟨h.item s hlength hblanks, h.leaves s hlength hblanks⟩ hs

theorem order {o : Option Text} (ho : (o.getD []).length ≤ cs.length) :
  Reading.order nested o = Reading.order nested' o
  := by
  unfold Reading.order
  split
  · rfl
  · rename_i expression
    split
    · rw [h.sequence expression (Nat.lt_succ_of_le ho)]
    · rfl

end Nested.Agree

namespace Reading

/-! ### Styles, fractions and roots -/

theorem advances_style : Reader.Advances style t
  := by
  intro nested nested' c cs h
  unfold style
  split
  · rename_i cs heq
    cases heq
    apply rel_map
    rintro ⟨command, mode, -⟩ _
    dsimp only
    rcases hgroup : Markup.group cs with ⟨content, rest⟩
    obtain ⟨hrest, hcontent⟩ := group_cases List.suffix_rfl hgroup
    have hinner : ((Text.skipBlanks content).drop command.length).length ≤ cs.length := by
      have := Text.length_skipBlanks_le content
      rw [List.length_drop]
      omega
    apply h.bind_sequence hinner
    intro ns
    apply Same.bind_left
    intro ns
    apply Same.pure hrest
  · apply rel_map
    rintro ⟨command, mode, rest⟩ hlongest
    have hrest := (Text.skipBlanks_suffix rest).trans (CommandTable.tail_of_longest? hlongest)
    dsimp only
    split
    · rw [pure_bind]
      apply Same.bind_left
      intro ns
      apply Same.pure hrest
    · apply Same.bind (h.ending hrest (skipBlanks_skipBlanks rest))
      intro ns last hlast
      apply Same.bind_left
      intro ns
      apply Same.pure hlast

theorem advances_fraction : Reader.Advances fraction t
  := by
  intro nested nested' c cs h
  apply rel_map
  rintro ⟨command, mode, rest⟩ hlongest
  have hrest := CommandTable.tail_of_longest? hlongest
  dsimp only
  rcases hargument : argument rest with ⟨numerator, rest₁⟩
  obtain ⟨hrest₁, hnumerator⟩ := argument_cases hrest hargument
  dsimp only
  rcases hargument : argument rest₁ with ⟨denominator, rest₂⟩
  obtain ⟨hrest₂, hdenominator⟩ := argument_cases hrest₁ hargument
  apply Same.bind_left
  intro i
  apply h.bind_sequence hnumerator
  intro top
  apply h.bind_sequence hdenominator
  intro bottom
  apply Same.pure hrest₂

theorem advances_root : Reader.Advances root t
  := by
  intro nested nested' c cs h
  apply rel_map
  intro rest hcommand
  have hrest := tail_of_command? (by decide) hcommand
  dsimp only
  rcases hoptional : Markup.optional rest with ⟨index?, rest₁⟩
  obtain ⟨hrest₁, hindex⟩ := optional_cases hrest hoptional
  dsimp only
  rcases hargument : argument rest₁ with ⟨radicand, rest₂⟩
  obtain ⟨hrest₂, hradicand⟩ := argument_cases hrest₁ hargument
  apply Same.bind_left
  intro i
  split
  · apply h.bind_sequence hradicand
    intro ns
    apply Same.pure hrest₂
  · apply h.bind_sequence hindex
    intro top
    apply h.bind_sequence hradicand
    intro ns
    apply Same.pure hrest₂

/-! ### Derivatives -/

/-- A derivative with arguments looks at its parts only. -/
theorem same_structuralDerivative (h : nested.Agree nested' cs) (isPartial : Bool)
    (hs : s <:+ cs) :
  Same cs (structuralDerivative nested isPartial s) (structuralDerivative nested' isPartial s)
  := by
  rw [structuralDerivative, structuralDerivative]
  apply Same.bind_left
  intro i
  rcases hoptional : Markup.optional s with ⟨order?, rest₁⟩
  obtain ⟨hrest₁, horder⟩ := optional_cases hs hoptional
  dsimp only
  rw [h.order horder]
  apply Same.bind_left
  intro o
  rcases hargument : argument rest₁ with ⟨first, rest₂⟩
  obtain ⟨hrest₂, hfirst⟩ := argument_cases hrest₁ hargument
  dsimp only
  split
  · rename_i rest₃ hgrande
    have hrest₃ := ((suffix_of_command? hgrande).trans (Text.skipMargin_suffix _)).trans hrest₂
    rcases hargument : argument rest₃ with ⟨function, rest₄⟩
    obtain ⟨hrest₄, hfunction⟩ := argument_cases hrest₃ hargument
    apply h.bind_sequence hfirst
    intro d
    apply h.bind_sequence hfunction
    intro a
    apply Same.pure hrest₄
  · rename_i second rest₃ _ hgroup
    obtain ⟨hrest₃, hsecond⟩ := nextGroup?_cases hrest₂ hgroup
    apply h.bind_sequence hfirst
    intro a
    apply h.bind_sequence hsecond
    intro d
    apply Same.pure hrest₃
  · apply h.bind_sequence hfirst
    intro d
    apply Same.pure hrest₂

/-- The function of a derivative in long form, and what follows it. -/
theorem function_cases {longForm : Bool} {function : Text} (hs : s <:+ cs)
    (h : (if longForm then argument s else ([], s)) = (function, rest)) :
  rest <:+ cs ∧ function.length ≤ cs.length
  := by
  split at h
  · apply argument_cases hs h
  · cases h
    exact ⟨hs, Nat.zero_le _⟩

/-- A derivative that is written as a fraction looks at its parts only. -/
theorem same_fractionDerivative (h : nested.Agree nested' cs) (command : Text)
    (mode : DisplayMode) (longForm : Bool) (hs : s <:+ cs) :
  Same cs (fractionDerivative nested command mode longForm s)
    (fractionDerivative nested' command mode longForm s)
  := by
  rw [fractionDerivative, fractionDerivative]
  rcases hargument : argument s with ⟨numerator, rest₁⟩
  obtain ⟨hrest₁, hnumerator⟩ := argument_cases hs hargument
  dsimp only
  rcases hargument : argument rest₁ with ⟨denominator, rest₂⟩
  obtain ⟨hrest₂, hdenominator⟩ := argument_cases hrest₁ hargument
  dsimp only
  rcases hlong : (if longForm then argument rest₂ else ([], rest₂)) with ⟨function, rest₃⟩
  obtain ⟨hrest₃, hfunction⟩ := function_cases hrest₂ hlong
  dsimp only
  split
  · rename_i top bottom hpair
    obtain ⟨horder, htop, hbottom⟩ := Differential.lengths_of_pair? hpair
    have hbody : (if longForm then function else top.rest).length ≤ cs.length := by
      split
      · apply hfunction
      · apply Nat.le_trans htop hnumerator
    apply Same.bind_left
    intro i
    rw [h.order (Nat.le_trans horder hnumerator)]
    apply Same.bind_left
    intro o
    apply h.bind_sequence hbody
    intro a
    apply h.bind_sequence (Nat.le_trans hbottom hdenominator)
    intro d
    apply Same.pure hrest₃
  · apply Same.bind_left
    intro _
    apply Same.bind_left
    intro i
    apply h.bind_sequence hnumerator
    intro above
    apply h.bind_sequence hdenominator
    intro below
    split
    · apply h.bind_sequence hfunction
      intro after
      apply Same.pure hrest₃
    · apply Same.bind_left
      intro after
      apply Same.pure hrest₃

theorem advances_derivative : Reader.Advances derivative t
  := by
  intro nested nested' c cs h
  apply rel_map
  rintro ⟨command, meaning, rest⟩ hlongest
  have hrest := CommandTable.tail_of_longest? hlongest
  cases meaning with
  | structural isPartial => exact same_structuralDerivative h isPartial hrest
  | asFraction mode longForm => exact same_fractionDerivative h command mode longForm hrest

/-! ### Grids -/

theorem advances_environment : Reader.Advances environment t
  := by
  intro nested nested' c cs h
  simp only [environment, Option.bind_eq_bind]
  cases hbegin : beginEnvironment? (c :: cs) with
  | none => exact .none
  | some begun =>
    obtain ⟨name, rest⟩ := begun
    have hrest := tail_of_beginEnvironment? hbegin
    simp only [Option.bind_some]
    cases GridKind.ofName? name with
    | none => exact .none
    | some kind =>
      apply Option.Rel.some
      rcases hcolumns : columnSpecification kind rest with ⟨declared, rest₁⟩
      have hrest₁ := (suffix_of_columnSpecification hcolumns).trans hrest
      dsimp only
      rcases hbody : environmentBody name rest₁ with ⟨body, rest₂⟩
      obtain ⟨hrest₂, hlength⟩ := environmentBody_cases hrest₁ hbody
      have hcells : (splitRows 0 body).mapM (List.mapM nested.sequence)
          = (splitRows 0 body).mapM (List.mapM nested'.sequence) := by
        apply mapM_congr
        intro row hrow
        apply mapM_congr
        intro cell hcell
        apply h.sequence cell
        apply Nat.lt_succ_of_le
        apply Nat.le_trans (length_le_of_mem_splitRows hrow hcell) hlength
      apply Same.bind_left
      intro i
      rw [hcells]
      apply Same.bind_left
      intro cells
      apply Same.pure hrest₂

/-! ### Operators -/

theorem advances_largeOperator : Reader.Advances largeOperator t
  := by
  intro nested nested' c cs h
  apply rel_map
  rintro ⟨command, glyph, rest⟩ hlongest
  have hrest := CommandTable.tail_of_longest? hlongest
  apply Same.bind_left
  intro i
  dsimp only
  split
  · rename_i mode rest₁ hmodifier
    have hrest₁ := (CommandTable.suffix_of_longest? hmodifier).trans (Text.skipBlanks_suffix rest)
    apply Same.bind (h.bounds (hrest₁.trans hrest))
    intro bounds rest₂ hrest₂
    apply Same.bind (h.group? hrest₂)
    intro operand rest₃ hrest₃
    apply Same.pure hrest₃
  · apply Same.bind (h.bounds hrest)
    intro bounds rest₁ hrest₁
    apply Same.bind (h.group? hrest₁)
    intro operand rest₂ hrest₂
    apply Same.pure hrest₂

theorem same_bound (h : nested.Agree nested' cs) (present : Bool) (hs : s <:+ cs) :
  Same cs (integral.bound present nested s) (integral.bound present nested' s)
  := by
  unfold integral.bound
  split
  · apply Same.bind (h.argument hs)
    intro content rest hrest
    apply Same.pure hrest
  · apply Same.pure hs

theorem advances_integral : Reader.Advances integral t
  := by
  intro nested nested' c cs h
  apply rel_map
  rintro ⟨name, command, rest⟩ hlongest
  have hrest := CommandTable.tail_of_longest? hlongest
  apply Same.bind_left
  intro i
  apply Same.bind (h.argument hrest)
  intro integrand rest₁ hrest₁
  apply Same.bind (h.argument hrest₁)
  intro differentials rest₂ hrest₂
  apply Same.bind (same_bound h _ hrest₂)
  intro lower rest₃ hrest₃
  apply Same.bind (same_bound h _ hrest₃)
  intro upper rest₄ hrest₄
  apply Same.pure hrest₄

/-- What follows the name of a function is looked at on shorter texts only. -/
theorem same_functionArguments (h : nested.Agree nested' cs) (i : Nat) (type : Text)
    (name : List Node) (hs : s <:+ cs) :
  Same cs (functionArguments nested i type name s)
    (functionArguments nested' i type name s)
  := by
  have hargument : ∀ (base constraint : List Node) (rest : Text), rest <:+ cs →
      Same cs
        (nested.group? rest >>= fun taken =>
          return (Item.node i (.function type name taken.1 base constraint), taken.2))
        (nested'.group? rest >>= fun taken =>
          return (Item.node i (.function type name taken.1 base constraint), taken.2)) := by
    intro base constraint rest hrest
    apply Same.bind (h.group? hrest)
    intro argument last hlast
    apply Same.pure hlast
  rw [functionArguments, functionArguments]
  simp only [pure_bind]
  split
  · rename_i after _ hmarker
    apply Same.bind (h.argument ((suffix_of_scriptMarker? hmarker).trans hs))
    intro base rest hrest
    apply hargument base [] rest hrest
  · rename_i after _ hmarker
    apply Same.bind (h.argument ((suffix_of_scriptMarker? hmarker).trans hs))
    intro constraint rest hrest
    apply hargument [] constraint rest hrest
  · apply hargument [] [] s hs

theorem advances_function : Reader.Advances function t
  := by
  intro nested nested' c cs h
  unfold function
  split
  · rename_i star rest hname
    have hrest := tail_of_operatorName? hname
    apply Option.Rel.some
    rw [namedFunction, namedFunction]
    rcases hargument : argument rest with ⟨name, rest₁⟩
    obtain ⟨hrest₁, hname⟩ := argument_cases hrest hargument
    dsimp only
    rcases namedFunctionType star ("\\operatorname".toList ++ (if star then ['*'] else [])) name
      rest₁ with ⟨type, keepName⟩
    apply Same.bind_left
    intro i
    dsimp only
    split
    · apply h.bind_sequence hname
      intro name
      apply same_functionArguments h i type name hrest₁
    · rw [pure_bind, pure_bind]
      apply same_functionArguments h i type [] hrest₁
  · apply rel_map
    rintro ⟨command, type, rest⟩ hlongest
    apply Same.bind_left
    intro i
    apply same_functionArguments h i _ [] (CommandTable.tail_of_longest? hlongest)

/-! ### Formatting, accents and symbols -/

/-- A new text. -/
theorem same_text (value : Text) (hs : rest <:+ s) :
  Same s (do return (Item.nodes [← Build.text value], rest))
    (do return (Item.nodes [← Build.text value], rest))
  := by
  apply Same.bind_left
  intro n
  apply Same.pure hs

theorem advances_escape : Reader.Advances escape t
  := by
  intro nested nested' c cs h
  apply rel_map
  rintro ⟨command, glyph, rest⟩ hlongest
  apply same_text _ (CommandTable.tail_of_longest? hlongest)

theorem advances_emphasis : Reader.Advances emphasis t
  := by
  intro nested nested' c cs h
  apply rel_map
  rintro ⟨command, change, rest⟩ hlongest
  apply Same.bind (h.argument (CommandTable.tail_of_longest? hlongest))
  intro ns last hlast
  apply Same.pure hlast

theorem advances_wrapper : Reader.Advances wrapper t
  := by
  intro nested nested' c cs h
  apply rel_map
  rintro ⟨command, kind, rest⟩ hlongest
  have hrest := CommandTable.tail_of_longest? hlongest
  dsimp only
  rcases hcolor : colorOf kind rest with ⟨color, rest₁⟩
  have hrest₁ := (suffix_of_colorOf hcolor).trans hrest
  rcases hargument : argument rest₁ with ⟨content, rest₂⟩
  obtain ⟨hrest₂, hcontent⟩ := argument_cases hrest₁ hargument
  have hlength := Nat.lt_succ_of_le hcontent
  dsimp only
  rw [h.spaced content hlength, h.sequence content hlength]
  split
  all_goals
    apply Same.bind_left
    intro ns
    split
    · apply Same.bind_left
      intro _
      apply Same.pure hrest₂
    · apply Same.pure hrest₂

theorem advances_accent : Reader.Advances accent t
  := by
  intro nested nested' c cs h
  apply rel_map
  rintro ⟨command, plain, rest⟩ hlongest
  have hrest := CommandTable.tail_of_longest? hlongest
  dsimp only
  rcases hargument : argument rest with ⟨base, rest₁⟩
  obtain ⟨hrest₁, hbase⟩ := argument_cases hrest hargument
  dsimp only
  apply Same.bind_left
  intro i
  apply h.bind_sequence hbase
  intro ns
  split
  · rename_i side after _ hmarker
    apply Same.bind (h.argument ((suffix_of_scriptMarker? hmarker).trans hrest₁))
    intro label last hlast
    apply Same.pure hlast
  · apply Same.pure hrest₁

theorem advances_symbol : Reader.Advances symbol t
  := by
  intro nested nested' c cs h
  simp only [symbol, Option.bind_eq_bind]
  cases hlongest : t.spellings.longest? (c :: cs) with
  | none => exact .none
  | some found =>
    obtain ⟨command, rest⟩ := found
    have hrest := Spellings.tail_of_longest? hlongest
    simp only [Option.bind_some]
    cases t.glyphOf? command with
    | none => exact .none
    | some glyph => exact .some (same_text glyph hrest)

/-! ### Scripts, brackets, spacing and groups -/

theorem advances_script : Reader.Advances script t
  := by
  intro nested nested' c cs h
  apply rel_map
  intro side _
  apply Same.bind (h.argument List.suffix_rfl)
  intro content rest hrest
  apply Same.pure hrest

/-- The content of a bracket and the bounds after it. -/
theorem same_bracketWith (h : nested.Agree nested' cs) (left right : Text) {content : Text}
    (hcontent : content.length ≤ cs.length) (hs : s <:+ cs) :
  Same cs
    (do
      let i ← Build.fresh
      let content ← nested.sequence content
      let (bounds, rest) ← Bounds.read nested s
      return (Item.node i (.bracket left right content 0 none bounds.superscript
        bounds.subscript), rest))
    (do
      let i ← Build.fresh
      let content ← nested'.sequence content
      let (bounds, rest) ← Bounds.read nested' s
      return (Item.node i (.bracket left right content 0 none bounds.superscript
        bounds.subscript), rest))
  := by
  apply Same.bind_left
  intro i
  apply h.bind_sequence hcontent
  intro ns
  apply Same.bind (h.bounds hs)
  intro bounds rest hrest
  apply Same.pure hrest

theorem advances_bracket : Reader.Advances bracket t
  := by
  intro nested nested' c cs h
  apply rel_map
  rintro ⟨size, rest⟩ hlongest
  have hrest := Spellings.tail_of_longest? hlongest
  dsimp only
  rcases hleft : delimiter rest with ⟨left, rest₁⟩
  have hrest₁ := (suffix_of_delimiter hleft).trans hrest
  dsimp only
  split
  · rename_i content rest₂ hclosing
    obtain ⟨hrest₂, hcontent⟩ := untilClosing_cases hrest₁ hclosing
    rcases hright : delimiter rest₂ with ⟨right, rest₃⟩
    rw [pure_bind, pure_bind]
    apply same_bracketWith h _ _ hcontent ((suffix_of_delimiter hright).trans hrest₂)
  · apply Same.bind_left
    intro _
    rw [pure_bind, pure_bind]
    apply same_bracketWith h _ _ hrest₁.length_le List.nil_suffix

theorem advances_spacing : Reader.Advances spacing t
  := by
  intro nested nested' c cs h
  unfold spacing
  split
  · rename_i rest hafter
    exact .some (same_text _ (Text.tail_of_after? (by decide) hafter))
  · apply rel_map
    rintro ⟨command, rest⟩ hlongest
    apply Same.pure (Spellings.tail_of_longest? hlongest)

theorem advances_group : Reader.Advances group t
  := by
  intro nested nested' c cs h
  unfold group
  split
  · rename_i cs heq
    cases heq
    apply Option.Rel.some
    rcases hgroup : Markup.group cs with ⟨content, rest⟩
    obtain ⟨hrest, hcontent⟩ := group_cases List.suffix_rfl hgroup
    dsimp only
    split
    · apply Same.pure hrest
    · apply h.bind_sequence hcontent
      intro ns
      split
      · apply Same.bind_left
        intro i
        apply Same.bind (h.bounds hrest)
        intro bounds last hlast
        apply Same.pure hlast
      · split
        · rename_i denominator last hsolidus
          obtain ⟨hlast, hdenominator⟩ := afterSolidus?_cases hrest hsolidus
          apply Same.bind_left
          intro i
          apply h.bind_sequence hdenominator
          intro below
          apply Same.pure hlast
        · apply Same.pure hrest
  · exact .none

theorem same_literal (c : Char) (cs : Text) :
  Same cs (literal c cs) (literal c cs)
  := by
  unfold literal
  split
  · split
    · apply Same.bind_left
      intro _
      apply same_text _ List.suffix_rfl
    · apply same_text _ List.suffix_rfl
  · apply same_text _ List.suffix_rfl

theorem advances_readers : ∀ reader ∈ readers, Reader.Advances reader t
  := by
  simp only [readers, List.forall_mem_cons, List.not_mem_nil, IsEmpty.forall_iff, implies_true,
    and_true]
  exact ⟨advances_style, advances_derivative, advances_fraction, advances_root,
    advances_environment, advances_largeOperator, advances_integral, advances_function,
    advances_escape, advances_emphasis, advances_wrapper, advances_accent, advances_symbol,
    advances_script, advances_bracket, advances_spacing, advances_group⟩

/-- A reader that is found gives one computation, or none is found. -/
theorem rel_findSome? {l : List Reader} (hl : ∀ reader ∈ l, Reader.Advances reader t)
    (h : nested.Agree nested' cs) (c : Char) :
  Option.Rel (Same cs) (l.findSome? fun reader => reader t nested (c :: cs))
    (l.findSome? fun reader => reader t nested' (c :: cs))
  := by
  induction l with
  | nil => exact .none
  | cons reader l ih =>
    rw [List.findSome?_cons, List.findSome?_cons]
    rw [List.forall_mem_cons] at hl
    have hreader := hl.1 nested nested' c cs h
    cases hb : reader t nested (c :: cs) <;> cases hb' : reader t nested' (c :: cs) <;>
      rw [hb, hb'] at hreader
    · exact ih hl.2
    · cases hreader
    · cases hreader
    · exact hreader

theorem same_step (h : nested.Agree nested' cs) (c : Char) :
  Same cs (step t nested c cs) (step t nested' c cs)
  := by
  have hfound := rel_findSome? (t := t) advances_readers h c
  rw [step, step]
  cases hb : readers.findSome? fun reader => reader t nested (c :: cs) <;>
    cases hb' : readers.findSome? fun reader => reader t nested' (c :: cs) <;>
    rw [hb, hb'] at hfound
  · apply same_literal
  · cases hfound
  · cases hfound
  · cases hfound with
    | some hb => exact hb

end Reading

end Formula
