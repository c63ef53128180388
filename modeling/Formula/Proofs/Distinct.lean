import Mathlib.Data.List.Induction
import Mathlib.Data.List.Nodup

/-!
# Keys with one value

That no key of a list has two values is found out by putting the keys into a search tree, one
after the other.  This takes far fewer comparisons than comparing every two of them, and the
keys may be many.
-/

namespace Formula

/-! ### First occurrences -/

section FirstOccurrences

variable {α : Type} [BEq α] [LawfulBEq α]

/-- A further value is listed exactly if it did not occur before. -/
theorem eraseDups_concat (l : List α) (a : α) [Decidable (a ∈ l)] :
  (l ++ [a]).eraseDups = if a ∈ l then l.eraseDups else l.eraseDups ++ [a]
  := by
  rw [List.eraseDups_append, List.removeAll, List.filter_singleton]
  split <;> simp_all [List.eraseDups_cons]

theorem nodup_eraseDups (l : List α) :
  l.eraseDups.Nodup
  := by
  classical
  induction l using List.reverseRecOn with
  | nil => apply List.nodup_nil
  | append_singleton l a ih =>
    rw [eraseDups_concat]
    split
    · apply ih
    · rename_i hnew
      rw [← List.mem_eraseDups] at hnew
      rw [← List.concat_eq_append]
      apply List.Nodup.concat hnew ih

end FirstOccurrences

/-! ### Search trees -/

/-- A search tree of keys with their values. -/
inductive KeyTree where
  | leaf
  | node (key value : Nat) (left right : KeyTree)

namespace KeyTree

/-- The value of a key. -/
def find? (k : Nat) : KeyTree → Option Nat
  | .leaf => none
  | .node key value left right =>
    bif k.blt key then find? k left
    else bif key.blt k then find? k right
    else some value

/-- The tree with a value for a key, unless the key has another value already. -/
def insert? (k v : Nat) : KeyTree → Option KeyTree
  | .leaf => some (.node k v .leaf .leaf)
  | .node key value left right =>
    bif k.blt key then (insert? k v left).map fun left => .node key value left right
    else bif key.blt k then (insert? k v right).map fun right => .node key value left right
    else bif v.beq value then some (.node key value left right) else none

/-- The tree with all entries of a list, unless they give a key two values. -/
def insertAll? : KeyTree → List (Nat × Nat) → Option KeyTree
  | t, [] => some t
  | t, (k, v) :: entries => (t.insert? k v).bind fun t => insertAll? t entries

variable {t t' : KeyTree} {k v : Nat} {entries : List (Nat × Nat)}

theorem find?_node {key value : Nat} {left right : KeyTree} :
  find? k (.node key value left right)
    = if k < key then find? k left else if key < k then find? k right else some value
  := by
  simp [find?, cond_eq_ite]

/-- After an insertion the key has its value, and the keys keep the values that they had. -/
theorem find?_insert? (h : insert? k v t = some t') :
  find? k t' = some v ∧ ∀ k' w, find? k' t = some w → find? k' t' = some w
  := by
  induction t generalizing t' with
  | leaf =>
    obtain rfl := Option.some.inj h
    constructor
    · simp [find?_node]
    · intro k' w hw
      contradiction
  | node key value left right ihleft ihright =>
    simp only [insert?, cond_eq_ite, Nat.blt_eq, Nat.beq_eq] at h
    split at h
    · obtain ⟨left', hleft, rfl⟩ := Option.map_eq_some_iff.1 h
      have := ihleft hleft
      grind [find?_node]
    · split at h
      · obtain ⟨right', hright, rfl⟩ := Option.map_eq_some_iff.1 h
        have := ihright hright
        grind [find?_node]
      · split at h
        · obtain rfl := Option.some.inj h
          grind [find?_node]
        · contradiction

/-- The entries of a list are in the tree that they are put into. -/
theorem find?_insertAll? (h : insertAll? t entries = some t') :
  (∀ k v, (k, v) ∈ entries → find? k t' = some v)
    ∧ ∀ k v, find? k t = some v → find? k t' = some v
  := by
  induction entries generalizing t with
  | nil =>
    obtain rfl := Option.some.inj h
    simp
  | cons entry entries ih =>
    obtain ⟨t₁, hinsert, hrest⟩ := Option.bind_eq_some_iff.1 h
    obtain ⟨hnew, hkept⟩ := find?_insert? hinsert
    obtain ⟨hentries, hlater⟩ := ih hrest
    constructor
    · intro k v hmem
      rcases List.mem_cons.1 hmem with rfl | hmem
      · apply hlater _ _ hnew
      · apply hentries _ _ hmem
    · intro k v hv
      apply hlater _ _ (hkept _ _ hv)

end KeyTree

/-- Whether no key of a list has two values. -/
def isFunctional (entries : List (Nat × Nat)) : Bool :=
  (KeyTree.leaf.insertAll? entries).isSome

variable {entries : List (Nat × Nat)} {k v w : Nat}

theorem eq_of_isFunctional (h : isFunctional entries = true) (hv : (k, v) ∈ entries)
    (hw : (k, w) ∈ entries) :
  v = w
  := by
  obtain ⟨t, ht⟩ := Option.isSome_iff_exists.1 h
  obtain ⟨hfind, -⟩ := KeyTree.find?_insertAll? ht
  apply Option.some.inj
  rw [← hfind _ _ hv, hfind _ _ hw]

/-- Keys that have their positions for values are different. -/
theorem nodup_of_isFunctional {keys : List Nat} (h : isFunctional keys.zipIdx = true) :
  keys.Nodup
  := by
  rw [List.nodup_iff_injective_get]
  intro i j hij
  apply Fin.ext
  apply eq_of_isFunctional h (k := keys.get i)
  · simp [List.mem_zipIdx_iff_getElem?]
  · rw [hij]
    simp [List.mem_zipIdx_iff_getElem?]

end Formula
