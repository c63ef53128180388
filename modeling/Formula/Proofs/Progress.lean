import Formula.Proofs.Advance
import Formula.Proofs.Character

/-!
# Progress

Reading is a recursion that needs no guards, and that goes down no more levels than the text has
characters: at every place at least one character is taken, and what stands inside of the
item there is read from shorter texts.
-/

namespace Formula.Reading

open Build Markup

variable {t : SymbolTable} {nested nested' : Nested} {s u rest cs : Text} {n : Nat}

/-! ### Places -/

/-- Reads at one place, given how the insides of an item are read: a blank is passed over, and an
item is added to the siblings read before.  The siblings are given and returned with the last
one first. -/
def place (t : SymbolTable) (nested : Nested) (before : List Node) (s : Text) :
    Build (List Node × Text) :=
  match s with
  | [] => return (before, [])
  | c :: cs =>
    if Text.isBlank c then return (before, cs)
    else do
      let (i, rest) ← step t nested c cs
      return (← i.addTo before, rest)

/-- What is read at a place takes at least one character, and looks inside of the item on shorter
texts only. -/
theorem same_place (h : nested.Agree nested' cs) (before : List Node) (c : Char) :
  Same cs (place t nested before (c :: cs)) (place t nested' before (c :: cs))
  := by
  rw [place, place]
  split
  · apply Same.pure List.suffix_rfl
  · apply Same.bind (same_step h c)
    intro i rest hrest
    apply Same.bind_left
    intro siblings
    apply Same.pure hrest

/-! ### The recursion without guards -/

/-- The functions that call each other while a text is read: over its items, after the siblings
read before, and at its beginning. -/
structure Recursion where
  items : (keepSpaces : Bool) → (before : List Node) → Text → Build (List Node)
  item : Text → Build (List Node × Text)

namespace Recursion

/-- The insides of an item are read by the same functions. -/
def insides (r : Recursion) : Nested where
  sequence := r.items false []
  spaced := r.items true []
  item := r.item

/-- What the functions do, given what they do when they are called: whole texts are read place
after place. -/
def level (t : SymbolTable) (r : Recursion) : Recursion where
  items keepSpaces before s :=
    match s with
    | [] => return before.reverse
    | c :: cs =>
      if keepSpaces && Text.isBlank c then do
        r.items keepSpaces ((← Build.text [' ']) :: before) cs
      else do
        let (siblings, rest) ← place t r.insides before (c :: cs)
        r.items keepSpaces siblings rest
  item s := do
    let (siblings, rest) ← place t r.insides [] s
    return (siblings.reverse, rest)

/-- The functions as far as `depth` calls within each other; calls below that are answered by
`bottom`. -/
def upTo (t : SymbolTable) (bottom : Recursion) : (depth : Nat) → Recursion
  | 0 => bottom
  | depth + 1 => (upTo t bottom depth).level t

/-- The functions that read a text. -/
def whole (t : SymbolTable) : Recursion where
  items := Reading.items t
  item s := do
    let (siblings, rest) ← place t (nestedBelow t s.length) [] s
    return (siblings.reverse, rest)

end Recursion

open Recursion

theorem item_nestedBelow_eq_whole {u : Text} (hu : u.length < n)
    (hblanks : Text.skipBlanks u = u) :
  (nestedBelow t n).item u = (whole t).item u
  := by
  rw [item_nestedBelow hu, whole]
  cases u with
  | nil => rw [item.eq_def]; rfl
  | cons d ds =>
    have hd : Text.isBlank d = false := by
      simpa using List.dropWhile_eq_self_iff.1 hblanks (Nat.zero_lt_succ _)
    simp [place, hd, item_cons]

/-- Items are read alike with and without a guard: by induction over the length of the text. -/
theorem agree_nestedBelow (t : SymbolTable) (cs : Text) :
  (nestedBelow t (cs.length + 1)).Agree (whole t).insides cs
  := by
  induction hn : cs.length using Nat.strongRecOn generalizing cs with
  | ind n ih =>
    subst hn
    refine ⟨⟨fun u hu => sequence_nestedBelow hu, fun u hu => spaced_nestedBelow hu,
      fun u hu hblanks => item_nestedBelow_eq_whole hu hblanks⟩, ?_⟩
    intro u hu hblanks
    rw [item_nestedBelow_eq_whole hu hblanks]
    cases u with
    | nil => exact Meets.pure List.suffix_rfl
    | cons d ds =>
      have hplace := same_place (t := t) (ih ds.length (Nat.lt_of_succ_lt_succ hu) ds rfl) [] d
      apply hplace.leaves.bind
      rintro ⟨siblings, rest⟩ hrest
      apply Meets.pure
      apply List.IsSuffix.trans hrest (List.suffix_cons d ds)

theorem agree_whole (t : SymbolTable) (cs : Text) :
  (whole t).insides.Agree (whole t).insides cs
  := by
  have h := agree_nestedBelow t cs
  refine ⟨⟨fun _ _ => rfl, fun _ _ => rfl, fun _ _ _ => rfl⟩, ?_⟩
  intro u hu hblanks
  rw [← h.item u hu hblanks]
  apply h.leaves u hu hblanks

theorem place_nestedBelow (before : List Node) (s : Text) :
  place t (nestedBelow t s.length) before s = place t (whole t).insides before s
  := by
  cases s with
  | nil => rfl
  | cons c cs => exact (same_place (agree_nestedBelow t cs) before c).eq

/-- Items are read one after the other without a look at how much of the text is left. -/
theorem items_eq_place {keepSpaces : Bool} {before : List Node} {c : Char}
    (hc : (keepSpaces && Text.isBlank c) = false) :
  items t keepSpaces before (c :: cs) = (do
    let (siblings, rest) ← place t (whole t).insides before (c :: cs)
    items t keepSpaces siblings rest)
  := by
  cases hblank : Text.isBlank c with
  | true =>
    obtain rfl : keepSpaces = false := by simpa [hblank] using hc
    rw [items_blank hblank]
    simp [place, hblank]
  | false =>
    have hguarded : items t keepSpaces before (c :: cs) = do
        let (siblings, rest) ← place t (whole t).insides before (c :: cs)
        if rest.length < (c :: cs).length then items t keepSpaces siblings rest
        else return siblings.reverse := by
      rw [items_cons hblank, item_cons, ← place_nestedBelow]
      simp [place, hblank]
    rw [hguarded]
    apply (same_place (agree_whole t cs) before c).leaves.bind_congr
    rintro ⟨siblings, rest⟩ hrest
    apply if_pos (Nat.lt_succ_of_le hrest.length_le)

/-- The functions do what they do given that they are called: no guard is ever needed. -/
theorem level_whole (t : SymbolTable) :
  (whole t).level t = whole t
  := by
  have hitems : ((whole t).level t).items = (whole t).items := by
    funext keepSpaces before s
    cases s with
    | nil => exact items_nil.symm
    | cons c cs =>
      simp only [level, whole]
      split
      · rename_i hc
        obtain ⟨rfl, hblank⟩ := Bool.and_eq_true_iff.1 hc
        rw [items.eq_def t true before (c :: cs)]
        simp [hblank]
      · rename_i hc
        exact (items_eq_place (by simpa using hc)).symm
  have hitem : ((whole t).level t).item = (whole t).item := by
    funext s
    rw [level, whole]
    dsimp only
    rw [place_nestedBelow]
    rfl
  exact congrArg₂ Recursion.mk hitems hitem

/-- Where the functions are the same on texts shorter than `n`, what they do is the same on texts
that are not longer than `n`. -/
theorem level_congr {r : Recursion}
    (hitems : ∀ keepSpaces before u, u.length < n →
      r.items keepSpaces before u = items t keepSpaces before u)
    (hitem : ∀ u, u.length < n → r.item u = (whole t).item u) :
  (∀ keepSpaces before u, u.length < n + 1 →
      (r.level t).items keepSpaces before u = items t keepSpaces before u)
    ∧ ∀ u, u.length < n + 1 → (r.level t).item u = (whole t).item u
  := by
  have hplace : ∀ before c cs, cs.length < n →
      Same cs (place t (whole t).insides before (c :: cs))
        (place t r.insides before (c :: cs)) := by
    intro before c cs hcs
    have hsame : (whole t).insides.Agree r.insides cs := by
      refine ⟨⟨?_, ?_, ?_⟩, (agree_whole t cs).leaves⟩
      · intro u hu
        exact (hitems false [] u (by omega)).symm
      · intro u hu
        exact (hitems true [] u (by omega)).symm
      · intro u hu _
        exact (hitem u (by omega)).symm
    apply same_place hsame
  constructor
  · intro keepSpaces before u hu
    change _ = (whole t).items keepSpaces before u
    rw [← level_whole]
    cases u with
    | nil => rfl
    | cons c cs =>
      have hcs : cs.length < n := Nat.lt_of_succ_lt_succ hu
      have h := hplace before c cs hcs
      simp only [level]
      split
      · apply bind_congr
        intro space
        apply hitems keepSpaces _ cs hcs
      · rw [← h.eq]
        apply h.leaves.bind_congr
        rintro ⟨siblings, rest⟩ hrest
        apply hitems
        apply Nat.lt_of_le_of_lt hrest.length_le hcs
  · intro u hu
    rw [← level_whole]
    cases u with
    | nil => rfl
    | cons c cs =>
      simp only [level]
      rw [(hplace [] c cs (Nat.lt_of_succ_lt_succ hu)).eq]

/-- On texts shorter than `n` nothing is called below `n` levels. -/
theorem upTo_eq (t : SymbolTable) (bottom : Recursion) (n : Nat) :
  (∀ keepSpaces before u, u.length < n →
      (upTo t bottom n).items keepSpaces before u = items t keepSpaces before u)
    ∧ ∀ u, u.length < n → (upTo t bottom n).item u = (whole t).item u
  := by
  induction n with
  | zero => simp
  | succ n ih => exact level_congr ih.1 ih.2

/-- Reading makes progress, whatever the table of symbols.

What is read at a position of a text, after any siblings, ends at a later position that is not
past the end of the text.
It looks inside of the item on texts only that are shorter than what is left of the text at the
position: readers of the insides that do anything else on other texts, such as to fail, make no
difference.
So the functions that call each other while a text is read need no guards, and the calls that
stand within the first one go down at most as many levels as the text has characters: whatever
would be answered further down, the text is read the same. -/
theorem place_progress (t : SymbolTable) :
  (∀ (text : Text) (pos : Nat) (before : List Node) (supply : Supply) (siblings : List Node)
      (rest : Text), pos < text.length →
      ((place t (whole t).insides before (text.drop pos)).runOn supply).1 = .ok (siblings, rest) →
      ∃ p, pos < p ∧ p ≤ text.length ∧ rest = text.drop p)
    ∧ (∀ (before : List Node) (s : Text) (nested : Nested),
      nested.EqBelow (whole t).insides s.length →
      place t nested before s = place t (whole t).insides before s)
    ∧ (whole t).level t = whole t
    ∧ ∀ (bottom : Recursion) (s : Text),
      (upTo t bottom (s.length + 1)).items false [] s = sequence t s
  := by
  refine ⟨?_, ?_, level_whole t, ?_⟩
  · intro text pos before supply siblings rest hpos hread
    rw [List.drop_eq_getElem_cons hpos] at hread
    have hrest := (same_place (t := t) (agree_whole t _) before _).leaves.of_ok hread
    refine ⟨text.length - rest.length, ?_, Nat.sub_le _ _, ?_⟩
    · have := hrest.length_le
      simp only [List.length_drop] at this
      omega
    · have hsuffix : rest <:+ text := hrest.trans (List.drop_suffix _ _)
      exact List.suffix_iff_eq_drop.1 hsuffix
  · intro before s nested h
    cases s with
    | nil => rfl
    | cons c cs =>
      have hagree : (whole t).insides.Agree nested cs :=
        ⟨⟨fun u hu => (h.sequence u hu).symm, fun u hu => (h.spaced u hu).symm,
          fun u hu hblanks => (h.item u hu hblanks).symm⟩, (agree_whole t cs).leaves⟩
      exact (same_place hagree before c).eq.symm
  · intro bottom s
    apply (upTo_eq t bottom _).1 _ _ _ (Nat.lt_succ_self _)

/-- Behind a character stands a group that is not closed and ends with a backslash. -/
theorem place_progress_unclosed :
  ((place (.ofList []) (whole (.ofList [])).insides [charNode 'x']
      ("x\x7ba\\".toList.drop 1)).runOn {}).1
      = .ok ([.plain 2 (.text ['\\'] {} none), .plain 1 (.text ['a'] {} none), charNode 'x'],
        [])
    ∧ (∃ p, 1 < p ∧ p ≤ "x\x7ba\\".toList.length ∧ [] = "x\x7ba\\".toList.drop p)
    ∧ place (.ofList []) ((whole (.ofList [])).insides.failFrom 3 .scriptWithoutSlot)
        [charNode 'x'] ['{', 'a', '\\']
      = place (.ofList []) (whole (.ofList [])).insides [charNode 'x'] ['{', 'a', '\\']
  := by
  have hread : ((place (.ofList []) (whole (.ofList [])).insides [charNode 'x']
      ("x\x7ba\\".toList.drop 1)).runOn {}).1
      = .ok ([.plain 2 (.text ['\\'] {} none), .plain 1 (.text ['a'] {} none), charNode 'x'],
        []) := by
    decide +kernel
  obtain ⟨hposition, hinsides, -, -⟩ := place_progress (.ofList [])
  exact ⟨hread, hposition _ 1 _ _ _ _ (by decide) hread,
    hinsides _ _ _ (Nested.failFrom_eqBelow _ _ _)⟩

end Formula.Reading
