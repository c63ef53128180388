import Formula.Markup.Group
import Formula.Writing.Fragment

/-!
# Balanced braces

`Markup.braceDepth?` counts the groups that are open after a text.  A balanced text closes
exactly the groups that it opens; the readers of groups and optional arguments go through
it to the delimiter that they look for.
-/

namespace Formula.Markup

/-- The number of groups that are open after a text, where `depth` are open before it.  There is
none if the text closes one more, or ends with a backslash that nothing follows. -/
def braceDepth? : (depth : Nat) → Text → Option Nat
  | depth, [] => some depth
  | depth, c :: cs =>
    if c = '\\' then
      match cs with
      | [] => none
      | _ :: cs => braceDepth? depth cs
    else if c = '{' then braceDepth? (depth + 1) cs
    else if c = '}' then
      match depth with
      | 0 => none
      | depth + 1 => braceDepth? depth cs
    else braceDepth? depth cs

/-- A text that closes exactly the groups that it opens. -/
def Balanced (s : Text) : Prop := braceDepth? 0 s = some 0

instance (s : Text) : Decidable (Balanced s) := inferInstanceAs (Decidable (_ = _))

variable {a b s r : Text} {d e k : Nat}

/-- A character that neither ends the text as a backslash nor escapes another one is no
backslash. -/
theorem ne_backslash {c : Char} {cs : Text} (hend : c = '\\' → cs = [] → False)
    (hescape : ∀ c' cs', c = '\\' → cs = c' :: cs' → False) :
  c ≠ '\\'
  := by
  intro hc
  cases cs with
  | nil => apply hend hc rfl
  | cons c' cs' => apply hescape c' cs' hc rfl

@[simp]
theorem prepend_comp_prepend (front back : Text) :
  prepend front ∘ prepend back = prepend (front ++ back)
  := by
  funext p
  simp [prepend]

@[simp]
theorem map_prepend_nil (o : Option (Text × Text)) :
  o.map (prepend []) = o
  := by
  cases o <;> rfl

section Characters

attribute [local simp] braceDepth?

@[simp]
theorem braceDepth?_nil :
  braceDepth? d [] = some d
  := rfl

@[simp]
theorem braceDepth?_escape (c : Char) :
  braceDepth? d ('\\' :: c :: s) = braceDepth? d s
  := rfl

@[simp]
theorem braceDepth?_open :
  braceDepth? d ('{' :: s) = braceDepth? (d + 1) s
  := by
  cases d <;> cases s <;> simp

@[simp]
theorem braceDepth?_close :
  braceDepth? (d + 1) ('}' :: s) = braceDepth? d s
  := by
  cases s <;> simp

theorem braceDepth?_cons {c : Char} (h : c ≠ '\\') (hopen : c ≠ '{') (hclose : c ≠ '}') :
  braceDepth? d (c :: s) = braceDepth? d s
  := by
  cases d <;> cases s <;> simp [h, hopen, hclose]

end Characters

theorem braceDepth?_append (h : braceDepth? d a = some e) :
  braceDepth? d (a ++ b) = braceDepth? e b
  := by
  fun_induction braceDepth? d a <;> simp_all [braceDepth?_cons]

theorem braceDepth?_add (h : braceDepth? d a = some e) :
  braceDepth? (d + k) a = some (e + k)
  := by
  fun_induction braceDepth? d a <;> simp_all [braceDepth?_cons, Nat.add_right_comm]

/-- A text without backslashes and braces changes nothing. -/
theorem braceDepth?_plain (h : ∀ c ∈ a, c ≠ '\\' ∧ c ≠ '{' ∧ c ≠ '}') :
  braceDepth? d a = some d
  := by
  induction a with
  | nil => rfl
  | cons c cs ih =>
    obtain ⟨h₁, h₂, h₃⟩ := h c List.mem_cons_self
    rw [braceDepth?_cons h₁ h₂ h₃]
    apply ih fun c hc => h c (List.mem_cons_of_mem _ hc)

theorem untilSquare_inside_cons {c : Char} (h : c ≠ '\\') (hopen : c ≠ '{')
    (hclose : c ≠ '}') :
  untilSquare k (d + 1) (c :: s) = (untilSquare k (d + 1) s).map (prepend [c])
  := by
  rw [untilSquare.eq_def]
  split <;> simp_all

theorem untilSquare_cons {c : Char} (h : c ≠ '\\') (hbrace : c ≠ '{' ∧ c ≠ '}')
    (hsquare : c ≠ '[' ∧ c ≠ ']') :
  untilSquare k d (c :: s) = (untilSquare k d s).map (prepend [c])
  := by
  rw [untilSquare.eq_def]
  split <;> simp_all

/-- The end of a group is looked for behind a text. -/
theorem untilBrace_append (h : braceDepth? d a = some e) :
  untilBrace d (a ++ r) = (untilBrace e r).map (prepend a)
  := by
  fun_induction braceDepth? d a <;> simp_all [untilBrace]

/-- Inside a group the end of an optional argument is looked for behind a text, whatever square
brackets the text has. -/
theorem untilSquare_append_of_inside (h : braceDepth? d a = some e) :
  untilSquare k (d + 1) (a ++ r) = (untilSquare k (e + 1) r).map (prepend a)
  := by
  fun_induction braceDepth? d a
  case case7 => simp_all [untilSquare_inside_cons]
  all_goals simp_all [untilSquare]

/-- The end of an optional argument is looked for behind a text without square brackets. -/
theorem untilSquare_append (h : braceDepth? d a = some e) (hopen : '[' ∉ a) (hclose : ']' ∉ a) :
  untilSquare k d (a ++ r) = (untilSquare k e r).map (prepend a)
  := by
  fun_induction braceDepth? d a
  case case7 d c cs h₁ h₂ h₃ ih =>
    simp only [List.mem_cons, not_or] at hopen hclose
    rw [List.cons_append, untilSquare_cons h₁ ⟨h₂, h₃⟩ ⟨Ne.symm hopen.1, Ne.symm hclose.1⟩,
      ih h hopen.2 hclose.2, Option.map_map, prepend_comp_prepend, List.singleton_append]
  all_goals simp_all [untilSquare]

namespace Balanced

theorem nil : Balanced [] := rfl

theorem braceDepth? (h : Balanced a) (d : Nat) :
  Markup.braceDepth? d a = some d
  := by
  have := braceDepth?_add (k := d) h
  rwa [Nat.zero_add] at this

theorem append (ha : Balanced a) (hb : Balanced b) :
  Balanced (a ++ b)
  := by
  rw [Balanced, braceDepth?_append ha]
  apply hb

theorem braced (h : Balanced a) :
  Balanced (['{'] ++ a ++ ['}'])
  := by
  rw [Balanced, List.append_assoc]
  rw [List.cons_append, braceDepth?_open, List.nil_append,
    braceDepth?_append (h.braceDepth? _), braceDepth?_close, braceDepth?_nil]

/-- A group with a balanced content is read as a whole. -/
theorem group (h : Balanced a) (r : Text) :
  Markup.group (a ++ '}' :: r) = (a, r)
  := by
  rw [Markup.group, untilBrace_append h, untilBrace]
  simp [prepend]

/-- An argument that is a group with a balanced content is read as a whole. -/
theorem argument (h : Balanced a) (r : Text) :
  Markup.argument (['{'] ++ a ++ ['}'] ++ r) = (a, r)
  := by
  simp only [List.cons_append, List.nil_append, List.append_assoc, Markup.argument,
    Text.skipBlanks]
  rw [List.dropWhile_cons_of_neg (by decide)]
  apply h.group

theorem nextGroup? (h : Balanced a) (r : Text) :
  Markup.nextGroup? (['{'] ++ a ++ ['}'] ++ r) = some (a, r)
  := by
  simp only [List.cons_append, List.nil_append, List.append_assoc, Markup.nextGroup?,
    Text.skipBlanks]
  rw [List.dropWhile_cons_of_neg (by decide)]
  simp only [h.group]

/-- The end of an optional argument is found behind what was written into it. -/
theorem untilSquare_optional (h : Balanced a) (r : Text) :
  untilSquare 0 0 (Writing.optional a ++ ']' :: r) = some (Writing.optional a, r)
  := by
  have hend : ∀ s, untilSquare 0 0 (s ++ ']' :: r)
      = (untilSquare 0 0 (']' :: r)).map (prepend s) →
      untilSquare 0 0 (s ++ ']' :: r) = some (s, r) := by
    intro s hs
    rw [hs, untilSquare]
    simp [prepend]
  apply hend
  rw [Writing.optional]
  split
  · apply untilSquare_append rfl (by decide) (by decide)
  split
  · -- inside the braces square brackets do not count
    have hclose : untilSquare 0 1 ('}' :: ']' :: r)
        = (untilSquare 0 0 (']' :: r)).map (prepend ['}']) := by
      rw [untilSquare]
    rw [Writing.braced, List.append_assoc, List.append_assoc, List.singleton_append,
      List.singleton_append, untilSquare, untilSquare_append_of_inside h, hclose]
    simp only [Option.map_map, prepend_comp_prepend]
    rfl
  · rename_i hsquare
    simp only [Bool.or_eq_true, List.contains_iff_mem, not_or] at hsquare
    apply untilSquare_append h hsquare.1 hsquare.2

/-- What is written into an optional argument is read from it. -/
theorem optional (h : Balanced a) (r : Text) :
  Markup.optional ('[' :: (Writing.optional a ++ ']' :: r)) = (some (Writing.optional a), r)
  := by
  rw [Markup.optional, Text.skipBlanks, List.dropWhile_cons_of_neg (by decide)]
  simp only [h.untilSquare_optional, Option.getD_some]

end Balanced

end Formula.Markup
