import Formula.Proofs.Extension
import Formula.Proofs.Outcome
import Mathlib.Data.List.DropRight

/-!
# Spelled nodes

A markup spells nodes when it is a row of items with blanks between them, each of which is
read as its share of the nodes.  Nodes are compared without their identifiers.
-/

namespace Formula

/-- The node without identifiers. -/
def Node.bare : Node → Node :=
  Tree.mapBottomUp fun n => n.withLabel { n.label with id := 0 }

theorem Node.bare_mk (l : Label) (s : Shape Node) :
  Node.bare (.mk l s) = .mk { l with id := 0 } (s.map Node.bare)
  := by
  rw [Node.bare, Tree.mapBottomUp, Tree.fold_mk]
  rfl

namespace Build

/-- The computation gives nodes that are these up to identifiers. -/
def Makes (b : Build (List Node)) (ns : List Node) : Prop :=
  Returns b fun made => made.map Node.bare = ns

/-- The computation gives nodes that are these up to identifiers, and what follows them. -/
def Gives (b : Build (Item × Text)) (ns : List Node) (rest : Text) : Prop :=
  Returns b fun result => ∃ made, result = (.nodes made, rest) ∧ made.map Node.bare = ns

end Build

open Build Markup

theorem skipBlanks_skipBlanks (s : Text) :
  Text.skipBlanks (Text.skipBlanks s) = Text.skipBlanks s
  := by
  rw [Text.skipBlanks, Text.skipBlanks, List.dropWhile_idempotent]

namespace Reading

variable {t : SymbolTable} {s u : Text} {n : Nat} {keep : Bool} {before : List Node}

/-- The readers of the insides of an item on texts shorter than `n`. -/
def nestedBelow (t : SymbolTable) (n : Nat) : Nested :=
  below n (fun u _ => items t false [] u) (fun u _ => items t true [] u) (fun u _ => item t u)

theorem item_cons (c : Char) (cs : Text) :
  item t (c :: cs) = step t (nestedBelow t (cs.length + 1)) c cs
  := by
  rw [item]
  rfl

theorem sequence_nestedBelow (h : u.length < n) :
  (nestedBelow t n).sequence u = items t false [] u
  := dif_pos h

theorem spaced_nestedBelow (h : u.length < n) :
  (nestedBelow t n).spaced u = items t true [] u
  := dif_pos h

theorem item_nestedBelow (h : u.length < n) :
  (nestedBelow t n).item u = do
    let (i, rest) ← item t u
    return ((← i.addTo []).reverse, rest)
  := dif_pos h

theorem items_nil :
  items t keep before [] = pure before.reverse
  := by
  rw [items.eq_def]

theorem items_blank {c : Char} (hc : Text.isBlank c = true) :
  items t false before (c :: s) = items t false before s
  := by
  rw [items.eq_def]
  simp [hc]

/-- Leading blanks are skipped where they do not count. -/
theorem items_skipBlanks :
  items t false before (Text.skipBlanks s) = items t false before s
  := by
  induction s with
  | nil => rfl
  | cons c cs ih =>
    cases hc : Text.isBlank c with
    | true => rw [items_blank hc, ← ih, Text.skipBlanks, List.dropWhile_cons_of_pos hc]; rfl
    | false => rw [Text.skipBlanks, List.dropWhile_cons_of_neg (by simp [hc])]

theorem items_cons {c : Char} {cs : Text} (hc : Text.isBlank c = false) :
  items t keep before (c :: cs) = do
    let (i, rest) ← item t (c :: cs)
    let siblings ← i.addTo before
    if rest.length < (c :: cs).length then items t keep siblings rest
    else return siblings.reverse
  := by
  rw [items.eq_def]
  simp [hc]

/-- An item gives what its reader gives, if the earlier readers pass over it and no further
symbol begins it. -/
theorem gives_item [t.IsExtension] {k : Nat} {r : Reader} {c : Char} {cs rest : Text}
    {ns : List Node} {b : Build (Item × Text)} (hr : readers[k]? = some r)
    (hfree : ∀ l ∈ heads.take k, Free l (c :: cs)) (hmisses : t.Misses (c :: cs))
    (hb : r .builtin (nestedBelow t (cs.length + 1)) (c :: cs) = some b)
    (h : Gives b ns rest) :
  Gives (item t (c :: cs)) ns rest
  := by
  rw [item_cons, step_eq_builtin hmisses, step_eq hr hfree hb]
  apply h

end Reading

/-! ### Items -/

/-- A text from which trimming takes nothing off at the end, also if spaces follow it. -/
def Whole (s : Text) : Prop :=
  ∃ front c, s = front ++ [c] ∧ c ≠ '\\' ∧ (c = ' ' → ∃ before, front = before ++ ['\\'])

/-- A text that may stand first in a group without changing what the group is. -/
def Opens (s : Text) : Prop :=
  ∀ rest, Follow s rest → Reading.Free Escape.table.commands ('{' :: (s ++ rest))
    ∧ Reading.Free styleCommands.commands (s ++ rest)

/-- The markup is a single item that is read as the nodes, whatever follows it, unless that
is a script or goes on with a command of the table. -/
structure Spells (t : SymbolTable) (cell : Bool) (core : Text) (ns : List Node) : Prop where
  head : ∃ c cs, core = c :: cs ∧ Text.isBlank c = false ∧ ScriptSide.ofMarker? c = none
  whole : Whole core
  opens : Opens core
  closed : Closed cell core
  apart : ∀ rest, t.EndsBefore (core ++ rest)
  gives : ∀ rest, Follow core rest → scriptMarker? rest = none → t.EndsBefore rest →
    Gives (Reading.item t (core ++ rest)) ns rest

/-- The markup is a row of items that are read as the nodes, with spaces between them unless
spaces count. -/
inductive Spelled (t : SymbolTable) (keep cell : Bool) : Text → List Node → Prop
  | nil : Spelled t keep cell [] []
  | blank {m : Text} {ns : List Node} (h : keep = false) :
    Spelled t keep cell m ns → Spelled t keep cell (' ' :: m) ns
  | item {core m : Text} {ns ns' : List Node} :
    Spells t cell core ns → Follow core m → Spelled t keep cell m ns' →
    Spelled t keep cell (core ++ m) (ns ++ ns')

variable {t : SymbolTable} {keep cell : Bool} {a b m core : Text} {ns ns' : List Node}

namespace Spells

theorem ne_nil (h : Spells t cell core ns) :
  core ≠ []
  := by
  obtain ⟨c, cs, rfl, -⟩ := h.head
  apply List.cons_ne_nil

theorem mono {cell' : Bool} (h : Spells t cell core ns) (hcell : cell' = true → cell = true) :
  Spells t cell' core ns
  := { h with closed := h.closed.mono hcell }

/-- A single item is a row of items. -/
theorem spelled (h : Spells t cell core ns) :
  Spelled t keep cell core ns
  := by
  have : Spelled t keep cell _ _ := Spelled.item h Follow.nil_right .nil
  rwa [List.append_nil, List.append_nil] at this

end Spells

namespace Spelled

theorem mono {keep' cell' : Bool} (h : Spelled t keep cell m ns)
    (hkeep : keep' = true → keep = true) (hcell : cell' = true → cell = true) :
  Spelled t keep' cell' m ns
  := by
  induction h with
  | nil => apply Spelled.nil
  | blank hfalse _ ih =>
    apply Spelled.blank _ ih
    cases keep' with
    | true => simp [hkeep rfl] at hfalse
    | false => rfl
  | item hcore hfollow _ ih => apply Spelled.item (hcore.mono hcell) hfollow ih

theorem append (ha : Spelled t keep cell a ns) (hb : Spelled t keep cell b ns')
    (hab : Follow a b) :
  Spelled t keep cell (a ++ b) (ns ++ ns')
  := by
  induction ha with
  | nil => apply hb
  | blank hkeep _ ih =>
    apply Spelled.blank hkeep
    apply ih (Follow.right (a := [' ']) hab)
  | item hcore hfollow _ ih =>
    rw [List.append_assoc, List.append_assoc]
    apply Spelled.item hcore
    · apply Follow.left hab hfollow
    · apply ih hab.right

theorem closed (h : Spelled t keep cell m ns) :
  Closed cell m
  := by
  induction h with
  | nil => apply Closed.nil
  | blank _ _ ih =>
    apply (Closed.plain (a := [' ']) (by simp) (by simp)).append ih
    apply Follow.concat (s := []) rfl
  | item hcore hfollow _ ih => apply hcore.closed.append ih hfollow

/-- No script marker stands first in spelled markup. -/
theorem scriptMarker?_eq_none (h : Spelled t keep cell m ns) :
  scriptMarker? m = none
  := by
  induction h with
  | nil => rfl
  | blank _ _ ih =>
    rw [scriptMarker?, Text.skipBlanks, List.dropWhile_cons_of_pos (by decide)]
    apply ih
  | item hcore _ _ _ =>
    obtain ⟨c, cs, rfl, hblank, hmarker⟩ := hcore.head
    rw [scriptMarker?, Text.skipBlanks, List.cons_append,
      List.dropWhile_cons_of_neg (by simp [hblank])]
    simp [hmarker]

/-- No command goes on with spelled markup. -/
theorem endsBefore (h : Spelled t keep cell m ns) :
  t.EndsBefore m
  := by
  cases h with
  | nil => apply SymbolTable.EndsBefore.nil
  | blank _ _ => apply SymbolTable.EndsBefore.of_ne (by decide)
  | item hcore _ _ => apply hcore.apart

/-- Spelled markup is read as its nodes. -/
theorem makes_items (h : Spelled t keep cell m ns) (before : List Node) :
  Makes (Reading.items t keep before m) (before.reverse.map Node.bare ++ ns)
  := by
  induction h generalizing before with
  | nil =>
    rw [Reading.items_nil, List.append_nil]
    apply Returns.pure rfl
  | blank hkeep _ ih =>
    rw [hkeep, Reading.items_blank (by decide), ← hkeep]
    apply ih
  | @item core m ns ns' hcore hfollow hm ih =>
    have hgives := hcore.gives m hfollow hm.scriptMarker?_eq_none hm.endsBefore
    obtain ⟨c, cs, rfl, hblank, -⟩ := hcore.head
    rw [List.cons_append] at hgives ⊢
    rw [Reading.items_cons hblank]
    apply Returns.bind hgives
    rintro _ ⟨made, rfl, hmade⟩
    apply Returns.bind (Returns.pure rfl)
    rintro _ rfl
    have hlength : m.length < (c :: (cs ++ m)).length := by
      simp only [List.length_cons, List.length_append]
      omega
    simp only [hlength, if_true]
    apply Returns.mono (ih (made.reverse ++ before))
    intro all hall
    rw [hall, ← hmade]
    simp

theorem makes (h : Spelled t false cell m ns) :
  Makes (Reading.sequence t m) ns
  := h.makes_items []

end Spelled

end Formula
