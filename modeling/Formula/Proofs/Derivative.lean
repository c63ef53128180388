import Formula.Proofs.Construct
import Formula.Proofs.Numerals

/-!
# Written derivatives

The order of a derivative is read as a number when it is a numeral, and as an expression
otherwise.  Both families of commands give back the order, the function and the variable
that they are written with.
-/

namespace Formula

open Build Markup Writing

variable {cell : Bool} {a b m rest : Text} {n : Nat} {ns as bs : List Node} {o : Order Node}

/-! ### Orders -/

/-- The order without identifiers. -/
def Order.bare (o : Order Node) : Order Node := Shape.mapSlotsOr.order (List.map Node.bare) o

/-- A markup is read as an order: a numeral as a number, and everything else as what it
spells. -/
inductive OrderSpelled (cell : Bool) : Text → Order Node → Prop
  | number {digits : Text} : Numeral.isPlain digits = true → digits.length ≤ Numeral.maxDigits →
    OrderSpelled cell digits (.number (Nat.ofDigitChars 10 digits 0 : Nat))
  | sequence {m : Text} {ns : List Node} : Spelled .builtin false cell m ns →
    Reading.numericOrder? m = none → OrderSpelled cell m (.sequence ns)

theorem numericOrder?_eq (s : Text) :
  Reading.numericOrder? s
    = if Numeral.isPlain (Text.trimBoth Text.isMarginBlank s) then
        some (Text.trimBoth Text.isMarginBlank s)
      else none
  := by
  rw [Reading.numericOrder?]
  cases h : Text.trimBoth Text.isMarginBlank s with
  | nil => rfl
  | cons c cs => rfl

/-- Trimming takes nothing off where nothing is to be trimmed. -/
theorem Text.trimBoth_eq_self {p : Char → Bool} {s : Text} (h : ∀ c ∈ s, p c = false) :
  Text.trimBoth p s = s
  := by
  have hdrop : ∀ {s : Text}, (∀ c ∈ s, p c = false) → s.dropWhile p = s := by
    intro s h
    cases s with
    | nil => rfl
    | cons c cs => rw [List.dropWhile_cons_of_neg (by simp [h c List.mem_cons_self])]
  rw [Text.trimBoth, hdrop h, hdrop fun c hc => h c (List.mem_reverse.1 hc),
    List.reverse_reverse]

theorem trimBoth_braced (m : Text) :
  Text.trimBoth Text.isMarginBlank (braced m) = braced m
  := by
  have hopen : Text.isMarginBlank '{' = false := by decide
  have hclose : Text.isMarginBlank '}' = false := by decide
  simp [Text.trimBoth, braced, hopen, hclose]

/-- A numeral is recognised as one. -/
theorem numericOrder?_of_isPlain (h : Numeral.isPlain m = true) :
  Reading.numericOrder? m = some m
  := by
  have htrim : Text.trimBoth Text.isMarginBlank m = m := by
    apply Text.trimBoth_eq_self
    intro c hc
    apply Text.isMarginBlank_of_not_isBlank
    apply Text.isBlank_of_isDigit ((Numeral.all_isDigit_of_isPlain h).2 c hc)
  rw [numericOrder?_eq, htrim, if_pos h]

/-- A numeral holds nothing that has a meaning in markup. -/
theorem not_mem_of_isPlain (h : Numeral.isPlain m = true) {c : Char} (hc : c.isDigit = false) :
  c ∉ m
  := by
  intro hmem
  rw [(Numeral.all_isDigit_of_isPlain h).2 c hmem] at hc
  contradiction

theorem closed_of_isPlain (h : Numeral.isPlain m = true) :
  Closed cell m
  := by
  have hnot := fun {c : Char} => not_mem_of_isPlain (c := c) h
  apply Closed.plain
  · intro c hc
    refine ⟨?_, ?_, ?_⟩ <;>
    · rintro rfl
      apply hnot rfl hc
  · intro _
    apply hnot rfl

namespace OrderSpelled

theorem closed (h : OrderSpelled cell m o) :
  Closed cell m
  := by
  cases h with
  | number hplain _ => apply closed_of_isPlain hplain
  | sequence hspelled _ => apply hspelled.closed

/-- An order is read as what it is written for. -/
theorem returns_order (h : OrderSpelled cell m o) (hn : m.length < n) :
  Returns (Reading.order (Reading.nestedBelow .builtin n) (some m)) fun made => made.bare = o
  := by
  cases h with
  | number hplain hlength =>
    obtain ⟨hne, hdigits⟩ := Numeral.all_isDigit_of_isPlain hplain
    rw [Reading.order]
    simp only [numericOrder?_of_isPlain hplain, Numeral.read_digits hne hdigits,
      if_neg (Nat.not_lt.2 hlength)]
    apply Returns.pure rfl
  | sequence hspelled hnumeric =>
    rw [Reading.order]
    simp only [hnumeric]
    apply Returns.bind (hspelled.makes_sequence hn)
    intro made hmade
    apply Returns.pure
    rw [← hmade]
    rfl

/-- An order in an optional argument is read as what it is written for. -/
theorem optional (h : OrderSpelled cell m o) :
  (∀ n, (Writing.optional m).length < n →
      Returns (Reading.order (Reading.nestedBelow .builtin n) (some (Writing.optional m)))
        fun made => made.bare = o)
    ∧ Closed cell (Writing.optional m)
  := by
  have hclosed := h.closed
  cases h with
  | number hplain hlength =>
    have hnot := fun {c : Char} => not_mem_of_isPlain (c := c) hplain
    have heq : Writing.optional m = m := by
      rw [Writing.optional, if_neg, if_neg]
      · simp [hnot (c := '[') rfl, hnot (c := ']') rfl]
      · simp [(Numeral.all_isDigit_of_isPlain hplain).1]
    rw [heq]
    exact ⟨fun n hn => (@OrderSpelled.number cell _ hplain hlength).returns_order hn, hclosed⟩
  | sequence hspelled hnumeric =>
    obtain ⟨hmakes, hclosed⟩ := hspelled.optional
    refine ⟨?_, hclosed⟩
    intro n hn
    have hnone : Reading.numericOrder? (Writing.optional m) = none := by
      rw [Writing.optional]
      split
      · rfl
      split
      · rw [numericOrder?_eq, trimBoth_braced, if_neg (by simp [braced, Numeral.isPlain])]
      · apply hnumeric
    rw [Reading.order]
    simp only [hnone, Reading.sequence_nestedBelow hn]
    apply Returns.bind hmakes
    intro made hmade
    apply Returns.pure
    rw [← hmade]
    rfl

end OrderSpelled

/-- The order of a derivative as it is written: that of a first derivative is left out. -/
inductive WrittenOrder (cell : Bool) : Option Text → Order Node → Prop
  | first : WrittenOrder cell none (.number 1)
  | written {m : Text} {o : Order Node} : OrderSpelled cell m o → WrittenOrder cell (some m) o

/-! ### Derivatives with arguments -/

/-- An order as an optional argument. -/
def orderArgument (order : Option Text) : Text :=
  order.elim [] fun m => ['['] ++ Writing.optional m ++ [']']

theorem closed_orderArgument {order : Option Text}
    (h : ∀ m ∈ order, Closed cell (Writing.optional m)) :
  Closed cell (orderArgument order)
  := by
  cases order with
  | none => apply Closed.nil
  | some m => apply (h m rfl).bracketed

/-- The order that is written is closed as an optional argument. -/
theorem WrittenOrder.closed_optional {order : Option Text} (h : WrittenOrder cell order o) :
  ∀ m ∈ order, Closed cell (Writing.optional m)
  := by
  cases h with
  | first => simp
  | written h => simpa using h.optional.2

/-- An order is read from the optional argument in front of a group. -/
theorem returns_orderArgument {order : Option Text} (h : WrittenOrder cell order o)
    (hn : (orderArgument order).length < n) (tail : Text) :
  ∃ order?, Markup.optional (orderArgument order ++ '{' :: tail) = (order?, '{' :: tail)
    ∧ Returns (Reading.order (Reading.nestedBelow .builtin n) order?) fun made => made.bare = o
  := by
  cases h with
  | first => exact ⟨none, rfl, Returns.pure rfl⟩
  | @written m _ h =>
    refine ⟨some (Writing.optional m), ?_, h.optional.1 n ?_⟩
    · have hread := h.closed.balanced.optional ('{' :: tail)
      simpa [orderArgument] using hread
    · simp only [orderArgument, Option.elim, List.length_append, List.length_singleton] at hn
      omega

/-- What is written after the order of a derivative with arguments. -/
def derivativeArguments (longForm : Bool) (function differentials : Text) : Text :=
  if longForm then braced differentials ++ (grandeCommand ++ braced function)
  else braced function ++ braced differentials

theorem closed_derivativeArguments (longForm : Bool) (ha : Closed false a) (hb : Closed false b) :
  Closed cell (derivativeArguments longForm a b)
  := by
  cases longForm
  · apply ha.braced_append hb.braced
  · apply hb.braced_append
    apply (Closed.command "grande".toList (by decide)).append_braced ha

theorem whole_derivativeArguments (longForm : Bool) :
  Whole (derivativeArguments longForm a b)
  := by
  cases longForm
  · apply (whole_braced b).append
  · apply (whole_braced a).append.append

theorem follow_derivativeArguments (longForm : Bool) {s : Text} :
  Follow s (derivativeArguments longForm a b)
  := by
  cases longForm <;> apply Follow.cons rfl

/-- A derivative with its function and its variable as arguments. -/
theorem spells_structuralDerivative {order : Option Text} {longForm isPartial : Bool}
    (ho : WrittenOrder cell order o) (ha : Spelled .builtin false false a as)
    (hb : Spelled .builtin false false b bs) :
  Spells .builtin cell ((if isPartial then "\\pdv".toList else "\\dv".toList)
      ++ (orderArgument order ++ derivativeArguments longForm a b))
    [.plain 0 (.derivative o longForm isPartial .inline as bs)]
  := by
  have hlookup : derivativeCommands.lookup (if isPartial then "\\pdv".toList else "\\dv".toList)
      = some (.structural isPartial) := by
    cases isPartial <;> decide
  have hplain : ∀ sp ∈ derivativeCommands.commands, isPlainCommand sp = true := by decide
  have hmem := CommandTable.mem_commands_of_lookup hlookup
  obtain ⟨tail, htail⟩ : ∃ tail, derivativeArguments longForm a b = '{' :: tail := by
    cases longForm <;> exact ⟨_, rfl⟩
  apply Spells.withArguments (k := 1) (r := Reading.derivative) rfl rfl hmem (hplain _ hmem)
  · cases ho with
    | first => rw [htail]; rfl
    | written _ => rfl
  · apply (whole_derivativeArguments longForm).append
  · apply (closed_orderArgument ho.closed_optional).append
      (closed_derivativeArguments longForm ha.closed hb.closed)
      (follow_derivativeArguments longForm)
  intro n rest hn hargs _ _
  have hlongest := CommandTable.longest?_command
    (fun sp hsp => isCommand_of_isPlainCommand (hplain sp hsp)) hlookup hargs
  refine ⟨_, by rw [Reading.derivative, hlongest, Option.map_some], ?_⟩
  rw [List.length_append] at hn
  obtain ⟨order?, hoptional, horder⟩ :=
    returns_orderArgument ho (n := n) (by omega) (tail ++ rest)
  rw [← List.cons_append, ← htail] at hoptional
  simp only [Reading.structuralDerivative, List.append_assoc, hoptional]
  apply Returns.bind (meets_fresh fun _ => trivial)
  intro i _
  apply Returns.bind horder
  rintro order rfl
  cases longForm with
  | false =>
    simp only [derivativeArguments, Bool.false_eq_true, if_false, List.length_append,
      length_braced] at hn
    have hgrande : command? grandeCommand (Text.skipMargin (braced b ++ rest)) = none := rfl
    simp only [derivativeArguments, Bool.false_eq_true, if_false, List.append_assoc,
      ha.argument_eq, hgrande, hb.nextGroup?_eq]
    apply Returns.bind (ha.makes_sequence (by omega))
    intro function hfunction
    apply Returns.bind (hb.makes_sequence (by omega))
    intro differentials hdifferentials
    apply Gives.node
    rw [← hfunction, ← hdifferentials]
    rfl
  | true =>
    simp only [derivativeArguments, if_true, List.length_append, length_braced] at hn
    have hgrande : command? grandeCommand (Text.skipMargin (grandeCommand ++ (braced a ++ rest)))
        = some (braced a ++ rest) := by
      have := @command?_command (braced a ++ rest) "grande".toList "grande".toList rfl rfl rfl
      rwa [if_pos rfl] at this
    simp only [derivativeArguments, if_true, List.append_assoc, hb.argument_eq, hgrande,
      ha.argument_eq]
    apply Returns.bind (hb.makes_sequence (by omega))
    intro differentials hdifferentials
    apply Returns.bind (ha.makes_sequence (by omega))
    intro function hfunction
    apply Gives.node
    rw [← hfunction, ← hdifferentials]
    rfl

/-! ### Derivatives as fractions of differentials -/

/-- The sign of a differential as it is written. -/
def differentialSign (isPartial : Bool) : Text :=
  if isPartial then "\\partial ".toList else ['d']

/-- An order as a superscript. -/
def orderScript (order : Option Text) : Text := scriptText .superscript order

/-- The order that is written is closed. -/
theorem WrittenOrder.closed {order : Option Text} (h : WrittenOrder cell order o) :
  ∀ m ∈ order, Closed cell m
  := by
  cases h with
  | first => simp
  | written h => simpa using h.closed

/-- The order that is written closes the groups that it opens. -/
theorem WrittenOrder.balanced {order : Option Text} (h : WrittenOrder cell order o) :
  ∀ m ∈ order, Balanced m
  := fun m hm => (h.closed m hm).balanced

/-- No superscript stands first in the text. -/
def Powerless (s : Text) : Prop := (Text.skipBlanks s).head? ≠ some '^'

instance (s : Text) : Decidable (Powerless s) := inferInstanceAs (Decidable (_ ≠ _))

theorem powerless_of_scriptMarker? (h : scriptMarker? m = none) :
  Powerless m
  := by
  intro hhead
  obtain ⟨cs, hcs⟩ := List.head?_eq_some_iff.1 hhead
  rw [scriptMarker?, hcs] at h
  contradiction

namespace Differential

/-- A differential is split at its sign. -/
theorem split?_sign (isPartial : Bool) (s : Text) :
  split? (differentialSign isPartial ++ s) = some (split?.afterSign isPartial s)
  := by
  cases isPartial with
  | false =>
    have hafter : Text.after? ['d'] ('d' :: s) = some s := Text.after?_eq_some_iff.2 rfl
    have hskip : Text.skipMargin (differentialSign false ++ s) = 'd' :: s := rfl
    have hcommand : command? "\\partial".toList ('d' :: s) = none := rfl
    rw [split?, hskip]
    simp only [hcommand, hafter, Option.map_some]
  | true =>
    have hcommand := @command?_command (' ' :: s) "partial".toList "partial".toList rfl rfl rfl
    rw [if_pos rfl] at hcommand
    have hskip : Text.skipMargin (differentialSign true ++ s)
        = '\\' :: ("partial".toList ++ ' ' :: s) := rfl
    have hblank : Text.skipBlanks (' ' :: s) = Text.skipBlanks s := rfl
    change command? "\\partial".toList _ = _ at hcommand
    rw [split?, hskip]
    simp only [hcommand, split?.afterSign, hblank]

/-- The order after the sign of a differential. -/
theorem afterSign_order (isPartial : Bool) (hm : Balanced m) (rest : Text) :
  split?.afterSign isPartial ('^' :: (braced m ++ rest)) = { isPartial, order := some m, rest }
  := by
  have hskip : Text.skipBlanks ('^' :: (braced m ++ rest)) = '^' :: (braced m ++ rest) := rfl
  have hargument := hm.argument rest
  rw [split?.afterSign, hskip]
  simp only [braced, hargument]

theorem afterSign_of_powerless (isPartial : Bool) (h : Powerless rest) :
  split?.afterSign isPartial rest = { isPartial, order := none, rest := Text.skipBlanks rest }
  := by
  rw [split?.afterSign]
  split
  · rename_i heq
    rw [Powerless, heq] at h
    contradiction
  · rfl

theorem afterSign_skipBlanks (isPartial : Bool) (s : Text) :
  split?.afterSign isPartial (Text.skipBlanks s) = split?.afterSign isPartial s
  := by
  rw [split?.afterSign, skipBlanks_skipBlanks, split?.afterSign]

/-- The differential of a numerator: its order, and the function after it. -/
theorem split?_numerator (isPartial : Bool) {order : Option Text}
    (ho : ∀ m ∈ order, Balanced m) (hrest : Powerless rest) :
  ∃ rest', split? (differentialSign isPartial ++ (orderScript order ++ rest))
      = some { isPartial, order, rest := rest' }
    ∧ Text.skipBlanks rest' = Text.skipBlanks rest ∧ rest'.length ≤ rest.length
  := by
  rw [split?_sign]
  cases order with
  | none =>
    refine ⟨Text.skipBlanks rest, ?_, skipBlanks_skipBlanks rest, Text.length_skipBlanks_le rest⟩
    rw [orderScript, scriptText, Option.elim, List.nil_append, afterSign_of_powerless _ hrest]
  | some m =>
    refine ⟨rest, ?_, rfl, Nat.le_refl _⟩
    rw [orderScript, scriptText, Option.elim, List.cons_append]
    apply congrArg some
    apply afterSign_order isPartial (ho m rfl)

/-- The variable of a denominator is what stands before the order of the numerator. -/
theorem split?_denominator (isPartial : Bool) {order : Option Text}
    (ho : ∀ m ∈ order, Balanced m) (hb : Powerless b) (rest : Text) :
  ∃ bottom, split? (differentialSign isPartial ++ (b ++ orderScript order)) = some bottom
    ∧ bottom.isPartial = isPartial
    ∧ differentials { isPartial, order, rest } bottom = Text.skipBlanks b
  := by
  rw [split?_sign]
  refine ⟨_, rfl, ?_⟩
  cases order with
  | none =>
    rw [orderScript, scriptText, Option.elim, List.append_nil, afterSign_of_powerless _ hb]
    exact ⟨rfl, rfl⟩
  | some m =>
    have hskip : Text.skipBlanks (b ++ '^' :: braced m)
        = if (Text.skipBlanks b).isEmpty then '^' :: braced m
          else Text.skipBlanks b ++ '^' :: braced m := List.dropWhile_append
    have hending : ['^', '{'] ++ m ++ ['}'] = '^' :: braced m := by simp [braced]
    change (split?.afterSign isPartial (b ++ '^' :: braced m)).isPartial = isPartial ∧
      differentials { isPartial, order := some m, rest }
        (split?.afterSign isPartial (b ++ '^' :: braced m)) = Text.skipBlanks b
    cases hb' : Text.skipBlanks b with
    | nil =>
      have horder := afterSign_order isPartial (ho m rfl) []
      rw [List.append_nil] at horder
      rw [hb', List.isEmpty_nil, if_pos rfl] at hskip
      rw [← afterSign_skipBlanks, hskip, horder]
      refine ⟨rfl, ?_⟩
      have hnone : Text.beforeEnd? ('^' :: braced m) (Text.trimEnd Text.isBlank []) = none := by
        simp [Text.beforeEnd?, Text.trimEnd, Text.after?, braced]
      rw [differentials]
      simp only [hending, hnone, Option.getD_none]
    | cons c cs =>
      rw [hb', List.isEmpty_cons, if_neg (by simp)] at hskip
      have hpower : Powerless (b ++ '^' :: braced m) := by
        rw [Powerless, hb'] at hb
        rw [Powerless, hskip]
        apply hb
      rw [afterSign_of_powerless _ hpower, hskip]
      refine ⟨rfl, ?_⟩
      have htrim : Text.trimEnd Text.isBlank (c :: cs ++ '^' :: braced m)
          = c :: cs ++ '^' :: braced m := by
        have hclose : Text.isBlank '}' = false := by decide
        simp [Text.trimEnd, braced, hclose]
      have hbefore : Text.beforeEnd? ('^' :: braced m) (c :: cs ++ '^' :: braced m)
          = some (c :: cs) := by
        rw [Text.beforeEnd?, List.reverse_append, Text.after?_eq_some_iff.2 rfl, Option.map_some,
          List.reverse_reverse]
      rw [differentials]
      simp only [hending, htrim, hbefore, Option.getD_some]

end Differential

/-- The command of a derivative written as a fraction. -/
def fractionName (mode : DisplayMode) (longForm : Bool) : Text :=
  match mode, longForm with
  | .inline, false => "\\derivfrac".toList
  | .display, false => "\\derivdfrac".toList
  | .inline, true => "\\derivlfrac".toList
  | .display, true => "\\derivldfrac".toList

/-- What is written after the command of a derivative written as a fraction. -/
def fractionArguments (longForm isPartial : Bool) (order : Option Text)
    (function differentials : Text) : Text :=
  if longForm then
    braced (differentialSign isPartial ++ orderScript order)
      ++ (braced (differentialSign isPartial ++ (differentials ++ orderScript order))
        ++ braced function)
  else
    braced (differentialSign isPartial ++ (orderScript order ++ function))
      ++ braced (differentialSign isPartial ++ (differentials ++ orderScript order))

theorem closed_differentialSign (isPartial : Bool) :
  Closed cell (differentialSign isPartial)
  := by
  cases isPartial with
  | false => apply Closed.plain (by decide) (by simp [differentialSign])
  | true =>
    apply (Closed.command "partial".toList (by decide)).append (b := [' ']) _
      (Follow.cons rfl)
    apply Closed.plain (by simp) (by simp)

theorem follow_differentialSign (isPartial : Bool) (rest : Text) :
  Follow (differentialSign isPartial) rest
  := by
  intro h
  cases isPartial <;> cases h

theorem closed_differential (isPartial : Bool) (h : Closed cell m) :
  Closed cell (differentialSign isPartial ++ m)
  := (closed_differentialSign isPartial).append h (follow_differentialSign isPartial m)

theorem closed_orderScript_append {order : Option Text} (ho : ∀ m ∈ order, Closed false m)
    (h : Closed cell m) :
  Closed cell (orderScript order ++ m)
  := by
  apply (closed_scriptText ho).append h
  cases order with
  | none => apply Follow.nil_left
  | some m => apply Follow.concat (s := '^' :: '{' :: m) rfl

theorem closed_append_orderScript {order : Option Text} (ho : ∀ m ∈ order, Closed false m)
    (h : Closed cell m) :
  Closed cell (m ++ orderScript order)
  := h.append (closed_scriptText ho) follow_scriptText

/-- The arguments of a derivative written as a fraction are closed when the differentials are. -/
theorem closed_fractionArguments (longForm isPartial : Bool) {order : Option Text}
    (ho : ∀ m ∈ order, Closed false m) (ha : Closed false a) (hb : Closed false b) :
  Closed cell (fractionArguments longForm isPartial order a b)
  := by
  have hbelow := closed_differential isPartial (closed_append_orderScript ho hb)
  cases longForm
  · have habove := closed_differential isPartial (closed_orderScript_append ho ha)
    apply habove.braced_append hbelow.braced
  · have habove : Closed false (differentialSign isPartial ++ orderScript order) :=
      closed_differential isPartial (closed_scriptText ho)
    apply habove.braced_append (hbelow.braced_append ha.braced)

theorem whole_fractionArguments (longForm isPartial : Bool) {order : Option Text} :
  Whole (fractionArguments longForm isPartial order a b)
  := by
  cases longForm
  · apply (whole_braced _).append
  · apply (whole_braced a).append.append

/-- A derivative as a fraction of two differentials. -/
theorem spells_fractionDerivative {order : Option Text} {longForm isPartial : Bool}
    {mode : DisplayMode} (ho : WrittenOrder false order o) (ha : Spelled .builtin false false a as)
    (hb : Spelled .builtin false false b bs) :
  Spells .builtin cell (fractionName mode longForm ++ fractionArguments longForm isPartial order a b)
    [.plain 0 (.derivative o longForm isPartial mode as bs)]
  := by
  have hlookup : derivativeCommands.lookup (fractionName mode longForm)
      = some (.asFraction mode longForm) := by
    cases mode <;> cases longForm <;> decide
  have hplain : ∀ sp ∈ derivativeCommands.commands, isPlainCommand sp = true := by decide
  have hmem := CommandTable.mem_commands_of_lookup hlookup
  have hbelow := closed_differential isPartial (closed_append_orderScript ho.closed hb.closed)
  have hsign : Closed false (differentialSign isPartial ++ orderScript order) :=
    closed_differential isPartial (closed_scriptText ho.closed)
  have habove := closed_differential isPartial (closed_orderScript_append ho.closed ha.closed)
  apply Spells.withArguments (k := 1) (r := Reading.derivative) rfl rfl hmem (hplain _ hmem)
  · cases longForm <;> rfl
  · apply whole_fractionArguments
  · apply closed_fractionArguments longForm isPartial ho.closed ha.closed hb.closed
  intro n rest hn hargs _ _
  have hlongest := CommandTable.longest?_command
    (fun sp hsp => isCommand_of_isPlainCommand (hplain sp hsp)) hlookup hargs
  refine ⟨_, by rw [Reading.derivative, hlongest, Option.map_some], ?_⟩
  have hargument : ∀ {m : Text}, Balanced m → ∀ rest, Markup.argument (braced m ++ rest) = (m, rest) :=
    fun hm rest => hm.argument rest
  have hblanks : ∀ {m s : Text} {ns : List Node}, Spelled .builtin false false m ns →
      Text.skipBlanks s = Text.skipBlanks m → s.length < n →
      Makes ((Reading.nestedBelow .builtin n).sequence s) ns := by
    intro m s ns hm hs hn
    rw [Reading.sequence_nestedBelow hn, ← Reading.items_skipBlanks, hs, Reading.items_skipBlanks]
    apply hm.makes
  have horder : ∀ order : Option Text, WrittenOrder false order o → (orderScript order).length < n →
      Returns (Reading.order (Reading.nestedBelow .builtin n) order) fun made => made.bare = o := by
    intro order ho hn
    cases ho with
    | first => apply Returns.pure rfl
    | written h =>
      apply h.returns_order
      simp only [orderScript, scriptText, Option.elim, List.length_cons, length_braced] at hn
      omega
  have hskipped := Text.length_skipBlanks_le b
  cases longForm with
  | false =>
    obtain ⟨body, htop, hbody, hlength⟩ :=
      Differential.split?_numerator isPartial ho.balanced
        (powerless_of_scriptMarker? ha.scriptMarker?_eq_none)
    obtain ⟨bottom, hbottom, hpartial, hdifferentials⟩ :=
      Differential.split?_denominator isPartial ho.balanced
        (powerless_of_scriptMarker? hb.scriptMarker?_eq_none) body
    have hpair : Differential.pair? (differentialSign isPartial ++ (orderScript order ++ a))
        (differentialSign isPartial ++ (b ++ orderScript order)) false
        = some ({ isPartial, order, rest := body }, bottom) := by
      simp [Differential.pair?, htop, hbottom, hpartial]
    simp only [fractionArguments, Bool.false_eq_true, if_false, List.length_append,
      length_braced] at hn
    simp only [Reading.fractionDerivative, fractionArguments, Bool.false_eq_true, if_false,
      List.append_assoc, hargument habove.balanced, hargument hbelow.balanced, hpair,
      hdifferentials]
    apply Returns.bind (meets_fresh fun _ => trivial)
    intro i _
    apply Returns.bind (horder order ho (by omega))
    rintro made rfl
    apply Returns.bind (hblanks ha hbody (by omega))
    intro function hfunction
    apply Returns.bind (hblanks hb (skipBlanks_skipBlanks b) (by omega))
    intro differentials hdifferentials
    apply Gives.node
    rw [← hfunction, ← hdifferentials]
    rfl
  | true =>
    obtain ⟨body, htop, -, hlength⟩ :=
      @Differential.split?_numerator [] isPartial _ ho.balanced (by decide)
    obtain ⟨bottom, hbottom, hpartial, hdifferentials⟩ :=
      Differential.split?_denominator isPartial ho.balanced
        (powerless_of_scriptMarker? hb.scriptMarker?_eq_none) body
    obtain rfl := List.eq_nil_of_length_eq_zero (Nat.le_zero.1 hlength)
    rw [List.append_nil] at htop
    have hpair : Differential.pair? (differentialSign isPartial ++ orderScript order)
        (differentialSign isPartial ++ (b ++ orderScript order)) true
        = some ({ isPartial, order, rest := [] }, bottom) := by
      simp [Differential.pair?, htop, hbottom, hpartial, Text.isAllBlank]
    simp only [fractionArguments, if_true, List.length_append, length_braced] at hn
    simp only [Reading.fractionDerivative, fractionArguments, if_true, List.append_assoc,
      hargument hsign.balanced, hargument hbelow.balanced, hargument ha.closed.balanced, hpair,
      hdifferentials]
    apply Returns.bind (meets_fresh fun _ => trivial)
    intro i _
    apply Returns.bind (horder order ho (by omega))
    rintro made rfl
    apply Returns.bind (ha.makes_sequence (by omega))
    intro function hfunction
    apply Returns.bind (hblanks hb (skipBlanks_skipBlanks b) (by omega))
    intro differentials hdifferentials
    apply Gives.node
    rw [← hfunction, ← hdifferentials]
    rfl

end Formula
