import Formula.Text.Basic

/-!
# Tries

A trie holds a finite set of spellings.  `Trie.beginnings` lists the spellings that a text
begins with, the shorter before the longer, each with the text after it.
-/

namespace Formula

/-- A set of spellings: whether the empty one is in it, and the continuations after each
first character. -/
inductive Trie where
  | node (ends : Bool) (next : List (Char × Trie))

namespace Trie

/-- The set without any spelling. -/
def empty : Trie := .node false []

/-- Whether the empty spelling is in the set. -/
def ends : Trie → Bool
  | .node e _ => e

/-- The continuations after each first character. -/
def next : Trie → List (Char × Trie)
  | .node _ n => n

/-- The continuations after a character, if some spelling begins with it. -/
def child? (t : Trie) (c : Char) : Option Trie := t.next.lookup c

/-- Replaces the entry of a character, or adds one at the end. -/
def putChild (c : Char) (t : Trie) : List (Char × Trie) → List (Char × Trie)
  | [] => [(c, t)]
  | (d, u) :: rest => if c = d then (d, t) :: rest else (d, u) :: putChild c t rest

/-- The set with a spelling added. -/
def insert : Trie → Text → Trie
  | .node _ next, [] => .node true next
  | .node e next, c :: cs =>
    .node e (putChild c (insert ((next.lookup c).getD .empty) cs) next)

/-- The set of the given spellings. -/
def ofList (spellings : List Text) : Trie := spellings.foldl insert empty

/-- Whether the set holds a spelling. -/
def contains : Trie → Text → Bool
  | t, [] => t.ends
  | t, c :: cs =>
    match t.child? c with
    | none => false
    | some u => u.contains cs

/-- The nonempty spellings of the set that the text begins with, the shorter first, each with
the text after it. -/
def beginnings : Trie → Text → List (Text × Text)
  | _, [] => []
  | t, c :: cs =>
    match t.child? c with
    | none => []
    | some u =>
      (if u.ends then [([c], cs)] else []) ++ (u.beginnings cs).map fun (s, r) => (c :: s, r)

theorem lookup_putChild (c d : Char) (t : Trie) (next : List (Char × Trie)) :
  (putChild c t next).lookup d = if d = c then some t else next.lookup d
  := by
  induction next with
  | nil => grind [putChild]
  | cons entry rest ih =>
    obtain ⟨e, u⟩ := entry
    grind [putChild]

/-- The empty set holds nothing. -/
@[simp]
theorem contains_empty (w : Text) :
  empty.contains w = false
  := by
  cases w <;> rfl

/-- After an insertion the set holds the new spelling and what it held before. -/
theorem contains_insert (t : Trie) (s w : Text) :
  (t.insert s).contains w = (decide (w = s) || t.contains w)
  := by
  induction s generalizing t w with
  | nil =>
    obtain ⟨e, next⟩ := t
    cases w <;> simp [insert, contains, ends, child?, Trie.next]
  | cons c cs ih =>
    obtain ⟨e, next⟩ := t
    cases w with
    | nil => simp [insert, contains, ends]
    | cons d ds =>
      by_cases h : d = c
      · subst h
        cases hl : next.lookup d with
        | none => simp [insert, contains, child?, Trie.next, lookup_putChild, ih, hl]
        | some u => simp [insert, contains, child?, Trie.next, lookup_putChild, ih, hl]
      · simp [insert, contains, child?, Trie.next, lookup_putChild, h]

/-- The set of a list holds exactly the spellings of the list. -/
theorem contains_ofList (spellings : List Text) (w : Text) :
  (ofList spellings).contains w = true ↔ w ∈ spellings
  := by
  suffices h : ∀ t : Trie,
      (spellings.foldl insert t).contains w = true ↔ t.contains w = true ∨ w ∈ spellings by
    simpa [ofList] using h empty
  induction spellings with
  | nil => simp
  | cons s rest ih =>
    intro t
    simp only [List.foldl_cons, ih, contains_insert, Bool.or_eq_true, decide_eq_true_eq,
      List.mem_cons]
    grind

/-- The beginnings are the nonempty spellings of the set with which the text begins. -/
theorem mem_beginnings_iff (t : Trie) (s rest text : Text) :
  (s, rest) ∈ t.beginnings text ↔ s ≠ [] ∧ t.contains s = true ∧ text = s ++ rest
  := by
  induction text generalizing t s with
  | nil =>
    constructor
    · intro h
      simp [beginnings] at h
    · rintro ⟨hs, -, h⟩
      exact absurd (List.append_eq_nil_iff.1 h.symm).1 hs
  | cons c cs ih =>
    cases s with
    | nil =>
      simp only [beginnings]
      cases t.child? c with
      | none => simp
      | some u => by_cases he : u.ends <;> simp [he]
    | cons d ds =>
      by_cases hdc : d = c
      · subst hdc
        simp only [beginnings, contains]
        cases t.child? d with
        | none => simp
        | some u =>
          cases ds with
          | nil =>
            have hnil : ([], rest) ∉ u.beginnings cs := fun h => ((ih u []).1 h).1 rfl
            by_cases he : u.ends <;> simp [he, contains, hnil, eq_comm]
          | cons e es =>
            have := ih u (e :: es)
            by_cases he : u.ends <;> simp_all
      · have hcd : ¬ c = d := fun h => hdc h.symm
        simp only [beginnings]
        cases t.child? c with
        | none => simp [hcd]
        | some u => by_cases he : u.ends <;> simp [he, hdc, hcd]

end Trie

end Formula
