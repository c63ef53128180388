import Formula.Proofs.Balance

/-!
# The grammar of groups

`Markup.Grouped` generates the texts that can be the content of a group.  They are exactly the
balanced texts, so the reader of groups takes the generated text in front of a closing brace
if there is one, and the whole text otherwise; there is at most one.  An optional argument is
read as it was written for any generated text, whatever square brackets that has.
-/

namespace Formula.Markup

/-- The texts that can be the content of a group: plain characters, a backslash with any
character after it, groups, and such texts one after the other. -/
inductive Grouped : Text → Prop
  | nil : Grouped []
  | plain {c : Char} : c ≠ '\\' → c ≠ '{' → c ≠ '}' → Grouped [c]
  | escape (c : Char) : Grouped ['\\', c]
  | braced {b : Text} : Grouped b → Grouped (['{'] ++ b ++ ['}'])
  | append {a b : Text} : Grouped a → Grouped b → Grouped (a ++ b)

/-- A generated text, and `depth` times a closing brace with another one behind it. -/
inductive Closes : (depth : Nat) → Text → Prop
  | last {s : Text} : Grouped s → Closes 0 s
  | close {depth : Nat} {b r : Text} : Grouped b → Closes depth r →
    Closes (depth + 1) (b ++ '}' :: r)

variable {a b r s : Text} {d : Nat}

/-! ### The grammar and the counting of braces -/

theorem Grouped.balanced (h : Grouped s) :
  Balanced s
  := by
  induction h with
  | nil => apply Balanced.nil
  | plain hback hopen hclose =>
    rw [Balanced, braceDepth?_cons hback hopen hclose, braceDepth?_nil]
  | escape c => rw [Balanced, braceDepth?_escape, braceDepth?_nil]
  | braced _ ih => apply ih.braced
  | append _ _ iha ihb => apply iha.append ihb

/-- A generated text in front belongs to the first of the generated texts. -/
theorem Closes.prepend (ha : Grouped a) (h : Closes d s) :
  Closes d (a ++ s)
  := by
  cases h with
  | last hs => apply Closes.last (ha.append hs)
  | close hb hr =>
    rw [← List.append_assoc]
    apply Closes.close (ha.append hb) hr

/-- A text after which no group is open, where `d` were open before it, closes these `d`
groups. -/
theorem closes_of_braceDepth? (h : braceDepth? d s = some 0) :
  Closes d s
  := by
  fun_induction braceDepth? d s
  case case1 =>
    obtain rfl := Option.some.inj h
    apply Closes.last Grouped.nil
  case case2 => contradiction
  case case3 d c cs ih => apply Closes.prepend (Grouped.escape c) (ih h)
  case case4 d cs _ ih =>
    -- the group that is opened is closed first
    obtain _ | ⟨hb, hr⟩ := ih h
    have hgroup := Closes.prepend hb.braced hr
    simpa using hgroup
  case case5 => contradiction
  case case6 d cs _ _ ih => apply Closes.close Grouped.nil (ih h)
  case case7 d c cs hback hopen hclose ih =>
    apply Closes.prepend (Grouped.plain hback hopen hclose) (ih h)

/-- The generated texts are the balanced ones. -/
theorem grouped_iff_balanced :
  Grouped s ↔ Balanced s
  := by
  constructor
  · apply Grouped.balanced
  · intro h
    obtain ⟨hs⟩ := closes_of_braceDepth? h
    apply hs

instance (s : Text) : Decidable (Grouped s) := decidable_of_iff _ grouped_iff_balanced.symm

/-! ### Reading groups -/

/-- What is read up to a closing brace closes what was open before it. -/
theorem of_untilBrace (h : untilBrace d s = some (b, r)) :
  braceDepth? d b = some 0 ∧ s = b ++ '}' :: r
  := by
  fun_induction untilBrace d s generalizing b r <;>
    simp only [map_prepend_eq_some_iff, Option.some.injEq, Prod.mk.injEq, reduceCtorEq] at h
  case case5 =>
    obtain ⟨rfl, rfl⟩ := h
    exact ⟨rfl, rfl⟩
  case case7 depth c cs hend hescape hopen hzero hclose ih =>
    obtain ⟨b, hb, rfl⟩ := h
    have hbrace : c ≠ '}' := by
      cases depth with
      | zero => apply hzero rfl
      | succ => apply hclose _ rfl
    obtain ⟨hdepth, rfl⟩ := ih hb
    rw [List.singleton_append, braceDepth?_cons (ne_backslash hend hescape) hopen hbrace]
    exact ⟨hdepth, rfl⟩
  all_goals
    rename_i ih
    obtain ⟨b, hb, rfl⟩ := h
    obtain ⟨hdepth, rfl⟩ := ih hb
    simpa using hdepth

/-- A closing brace is found exactly behind a generated text. -/
theorem untilBrace_eq_some_iff :
  untilBrace 0 s = some (b, r) ↔ Grouped b ∧ s = b ++ '}' :: r
  := by
  rw [grouped_iff_balanced]
  constructor
  · apply of_untilBrace
  · rintro ⟨hb, rfl⟩
    rw [untilBrace_append hb, untilBrace]
    simp [Markup.prepend]

/-- Without a generated text in front of a closing brace the group takes the whole text. -/
theorem group_unclosed (h : ∀ b r, Grouped b → s ≠ b ++ '}' :: r) :
  group s = (s, [])
  := by
  rw [group]
  cases hs : untilBrace 0 s with
  | none => rfl
  | some p =>
    obtain ⟨hb, heq⟩ := untilBrace_eq_some_iff.1 hs
    apply absurd heq (h _ _ hb)

/-! ### What the readers take -/

/-- A group takes the generated text in front of a closing brace, of which there is at most one,
and otherwise the whole text.  What is written into an optional argument from a generated
text is read from it again. -/
theorem Grouped.group_optional_eq :
  (∀ s b r, Grouped b → s = b ++ '}' :: r →
      group s = (b, r) ∧ ∀ b' r', Grouped b' → s = b' ++ '}' :: r' → b' = b)
    ∧ (∀ s, (∀ b r, Grouped b → s ≠ b ++ '}' :: r) → group s = (s, []))
    ∧ ∀ b r, Grouped b →
      optional ('[' :: (Writing.optional b ++ ']' :: r)) = (some (Writing.optional b), r)
  := by
  refine ⟨?_, fun s => group_unclosed, fun b r hb => hb.balanced.optional r⟩
  rintro s b r hb rfl
  refine ⟨hb.balanced.group r, ?_⟩
  intro b' r' hb' heq
  have hsome : untilBrace 0 (b ++ '}' :: r) = some (b, r) := untilBrace_eq_some_iff.2 ⟨hb, rfl⟩
  rw [untilBrace_eq_some_iff.2 ⟨hb', heq⟩] at hsome
  exact (Prod.mk.inj (Option.some.inj hsome)).1

/-- A content with an escaped brace, square brackets and an escaped square bracket, in a group and
in an optional argument; and a group that ends in a backslash. -/
theorem Grouped.group_optional_eq_escaped :
  Grouped "a\\x7d\x7b]\x7d\\[".toList
    ∧ group ("a\\x7d\x7b]\x7d\\[".toList ++ '}' :: "\x7dx".toList)
      = ("a\\x7d\x7b]\x7d\\[".toList, "\x7dx".toList)
    ∧ optional ('[' :: (Writing.optional "a\\x7d\x7b]\x7d\\[".toList ++ ']' :: "]x".toList))
      = (some (Writing.optional "a\\x7d\x7b]\x7d\\[".toList), "]x".toList)
    ∧ (∀ b r, Grouped b → "\x7ba\x7d\\".toList ≠ b ++ '}' :: r)
    ∧ group "\x7ba\x7d\\".toList = ("\x7ba\x7d\\".toList, [])
  := by
  have hgrouped : Grouped "a\\x7d\x7b]\x7d\\[".toList := by decide +kernel
  have hunclosed : ∀ b r, Grouped b → "\x7ba\x7d\\".toList ≠ b ++ '}' :: r := by
    intro b r hb heq
    have hnone : untilBrace 0 "\x7ba\x7d\\".toList = none := by decide
    have hsome := untilBrace_eq_some_iff.2 ⟨hb, heq⟩
    rw [hnone] at hsome
    cases hsome
  obtain ⟨hgroup, hwhole, hoptional⟩ := Grouped.group_optional_eq
  exact ⟨hgrouped, (hgroup _ _ _ hgrouped rfl).1, hoptional _ _ hgrouped, hunclosed,
    hwhole _ hunclosed⟩

end Formula.Markup
