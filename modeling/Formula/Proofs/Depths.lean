import Formula.Proofs.Forgetting
import Formula.Proofs.Reading
import Formula.Proofs.Written
import Mathlib.Order.Bounds.Basic

/-!
# Stored depths

Every bracket of which the depth is stored has the number of brackets around it, the greatest
depth is the greatest one that is stored, and neither depends on what was stored before.  When
brackets are sized by depth they are sized by the distance to the greatest depth, so that sizes
do not grow from a bracket to those inside it.
-/

namespace Formula

open Writing

variable {ns ns' : List Node} {n k : Node} {d : Nat}

/-! ### Nothing else changes -/

section Construct

variable {α β : Type}

theorem Shape.mapSlotsOr_withDepth (f g : List α → List β) (depth : Int) (s : Shape α) :
  (s.withDepth depth).mapSlotsOr f g = (s.mapSlotsOr f g).withDepth depth
  := by
  cases s <;> rfl

theorem Shape.complete_withDepth (depth : Int) (s : Shape α) :
  (s.withDepth depth).complete = s.complete.withDepth depth
  := by
  cases s <;> rfl

theorem Shape.isBracket_mapSlotsOr (f g : List α → List β) (s : Shape α) :
  (s.mapSlotsOr f g).isBracket = s.isBracket
  := by
  cases s <;> rfl

/-- What is forgotten with the depth says whether the construct is a bracket. -/
theorem Shape.isBracket_forgotten (depth : Int) (s : Shape α) :
  (s.complete.withDepth depth).isBracket = s.isBracket
  := by
  cases s <;> rfl

end Construct

theorem Node.forget_renest (n : Node) (depth : Nat) :
  forget (Shape.withDepth 0) (renest n depth) = forget (Shape.withDepth 0) n
  := by
  induction n using Tree.induction generalizing depth with
  | h l s ih =>
    rw [renest_mk, forget_mk, forget_mk, Shape.mapSlotsOr_withDepth, Shape.complete_withDepth,
      Shape.withDepth_withDepth, Shape.mapSlotsOr_mapSlotsOr]
    simp only [Function.comp_def, List.map_map]
    congr 3
    apply Shape.mapSlotsOr_map_congr
    intro n hn
    apply ih n hn

theorem map_forget_renest (ns : List Node) :
  (renest ns).map (Node.forget (Shape.withDepth 0)) = ns.map (Node.forget (Shape.withDepth 0))
  := by
  rw [renest, List.map_map]
  apply List.map_congr_left
  intro n _
  apply Node.forget_renest

theorem Node.renest_renest (n : Node) (depth : Nat) :
  renest (renest n depth) depth = renest n depth
  := by
  induction n using Tree.induction generalizing depth with
  | h l s ih =>
    rw [renest_mk, renest_mk, Shape.mapSlotsOr_withDepth, Shape.withDepth_withDepth,
      Shape.mapSlotsOr_mapSlotsOr]
    simp only [Function.comp_def, Shape.innerDepth_renested, List.map_map]
    congr 2
    apply Shape.mapSlotsOr_map_congr
    intro n hn
    apply ih n hn

theorem renest_renest (ns : List Node) :
  renest (renest ns) = renest ns
  := by
  rw [renest, renest, List.map_map]
  apply List.map_congr_left
  intro n _
  apply Node.renest_renest

/-! ### The greatest depth -/

/-- The depths of the brackets in a tree are that of the outermost one and those in the slots. -/
theorem Node.bracketDepths_mk (l : Label) (s : Shape Node) (depth : Nat) :
  bracketDepths (.mk l s) depth
    = (if s.isBracket then [depth] else [])
      ++ s.children.flatMap fun child => bracketDepths child (s.innerDepth depth)
  := by
  rw [bracketDepths, Tree.fold_mk, Shape.innerDepth_map, Shape.children_map, List.flatMap_map]
  congr 2
  cases s <;> rfl

/-- The depths of brackets do not depend on the depths that are stored. -/
theorem Node.bracketDepths_forget (n : Node) (depth : Nat) :
  bracketDepths (forget (Shape.withDepth 0) n) depth = bracketDepths n depth
  := by
  induction n using Tree.induction generalizing depth with
  | h l s ih =>
    have hchildren : ∀ f : Node → Node,
        ((s.mapSlotsOr (List.map f) id).complete.withDepth 0).children = s.children.map f := by
      intro f
      rw [Shape.children, Shape.slots_withDepth, Shape.slots_complete,
        Shape.slots_mapSlotsOr List.map_nil, Shape.children, List.flatMap_map, List.map_flatMap]
    have hbracket := (Shape.isBracket_forgotten 0 (s.mapSlotsOr (List.map
      (forget (Shape.withDepth 0))) id)).trans (s.isBracket_mapSlotsOr _ _)
    rw [forget_mk, bracketDepths_mk, bracketDepths_mk, Shape.innerDepth, hbracket, hchildren,
      List.flatMap_map]
    congr 1
    apply List.flatMap_congr
    intro child hchild
    apply ih child (s.children_subset hchild)

/-- Equations that only differ in stored depths have the same greatest depth. -/
theorem maxBracketDepth_congr
    (h : ns'.map (Node.forget (Shape.withDepth 0)) = ns.map (Node.forget (Shape.withDepth 0))) :
  maxBracketDepth ns' = maxBracketDepth ns
  := by
  have hforget : ∀ ns : List Node,
      maxBracketDepth (ns.map (Node.forget (Shape.withDepth 0))) = maxBracketDepth ns := by
    intro ns
    simp only [maxBracketDepth, List.flatMap_map, Node.bracketDepths_forget]
  rw [← hforget, h, hforget]

/-- Below a node that stands somewhere, the depth of a bracket is one at which a bracket stands. -/
theorem Stands.exists_of_mem_bracketDepths {depth : Nat} (hn : Stands ns depth n)
    (hd : d ∈ Node.bracketDepths n depth) :
  ∃ k, Stands ns d k ∧ k.shape.isBracket = true
  := by
  induction n using Tree.induction generalizing depth with
  | h l s ih =>
    rw [Node.bracketDepths_mk, List.mem_append] at hd
    obtain hd | hd := hd
    · split at hd
      · rename_i hbracket
        obtain rfl := List.mem_singleton.1 hd
        exact ⟨_, hn, hbracket⟩
      · contradiction
    · obtain ⟨child, hchild, hd⟩ := List.mem_flatMap.1 hd
      obtain ⟨slot, hslot, hmem⟩ := List.mem_flatMap.1 hchild
      apply ih child (s.children_subset hchild) (hn.inner hslot hmem) hd

/-- The depths of the brackets below a node that stands somewhere are depths of the equation. -/
theorem Stands.bracketDepths_subset (hn : Stands ns d n) :
  Node.bracketDepths n d ⊆ ns.flatMap fun n => Node.bracketDepths n 0
  := by
  induction hn with
  | top hn =>
    intro e he
    exact List.mem_flatMap.2 ⟨_, hn, he⟩
  | @inner n child depth slot _ hslot hchild ih =>
    obtain ⟨l, s⟩ := n
    intro e he
    apply ih
    rw [Node.bracketDepths_mk]
    apply List.mem_append_right
    exact List.mem_flatMap.2 ⟨child, List.mem_flatMap.2 ⟨slot, hslot, hchild⟩, he⟩

/-- The depths of brackets are those at which brackets stand. -/
theorem mem_bracketDepths_iff :
  d ∈ ns.flatMap (fun n => Node.bracketDepths n 0)
    ↔ ∃ n, Stands ns d n ∧ n.shape.isBracket = true
  := by
  constructor
  · intro h
    obtain ⟨n, hn, hd⟩ := List.mem_flatMap.1 h
    apply Stands.exists_of_mem_bracketDepths (.top hn) hd
  · rintro ⟨⟨l, s⟩, hn, hbracket⟩
    apply hn.bracketDepths_subset
    rw [Node.bracketDepths_mk]
    apply List.mem_append_left
    rw [if_pos (show s.isBracket = true from hbracket)]
    apply List.mem_singleton_self

/-- The greatest of a number and the members of a list. -/
theorem isGreatest_foldl_max (a : Int) (ds : List Nat) :
  IsGreatest {x : Int | x = a ∨ ∃ d ∈ ds, x = d} (ds.foldl (fun (m : Int) (d : Nat) => max m d) a)
  := by
  induction ds generalizing a with
  | nil => simp [IsGreatest, upperBounds]
  | cons d ds ih =>
    obtain ⟨hmem, hle⟩ := ih (max a d)
    rw [List.foldl_cons]
    constructor
    · obtain heq | ⟨e, he, heq⟩ := hmem
      · rw [heq]
        obtain hmax | hmax := max_choice a (d : Int)
        · exact .inl hmax
        · exact .inr ⟨d, List.mem_cons_self, hmax⟩
      · exact .inr ⟨e, List.mem_cons_of_mem _ he, heq⟩
    · rintro x (rfl | ⟨e, he, rfl⟩)
      · apply (le_max_left x (d : Int)).trans (hle (.inl rfl))
      · obtain rfl | he := List.mem_cons.1 he
        · apply (le_max_right a (e : Int)).trans (hle (.inl rfl))
        · apply hle (.inr ⟨e, he, rfl⟩)

/-- The depth that a construct stores, if it is a bracket. -/
def Shape.storedDepth? {α : Type} : Shape α → Option Int
  | .bracket _ _ _ d _ _ _ => some d
  | _ => none

/-- The depths that the brackets of an equation store. -/
def storedDepths (ns : List Node) : Set Int :=
  {x | ∃ n ∈ walk ns, n.shape.storedDepth? = some x}

theorem Shape.storedDepth?_eq_some_iff {α : Type} {s : Shape α} (h : s.StoresDepth d) {x : Int} :
  s.storedDepth? = some x ↔ s.isBracket = true ∧ x = d
  := by
  cases s <;> simp_all [storedDepth?, isBracket, StoresDepth, eq_comm]

/-- Where the depths are stored, they are those at which brackets stand. -/
theorem mem_storedDepths_renest_iff {x : Int} :
  x ∈ storedDepths (renest ns)
    ↔ ∃ d ∈ (renest ns).flatMap (fun n => Node.bracketDepths n 0), x = (d : Nat)
  := by
  simp only [storedDepths, Set.mem_ofPred_eq, mem_walk_iff_exists_stands, mem_bracketDepths_iff]
  constructor
  · rintro ⟨n, ⟨d, hn⟩, hx⟩
    obtain ⟨hbracket, rfl⟩ := (Shape.storedDepth?_eq_some_iff hn.storesDepth).1 hx
    exact ⟨d, ⟨n, hn, hbracket⟩, rfl⟩
  · rintro ⟨d, ⟨n, hn, hbracket⟩, rfl⟩
    exact ⟨n, ⟨d, hn⟩, (Shape.storedDepth?_eq_some_iff hn.storesDepth).2 ⟨hbracket, rfl⟩⟩

/-- The greatest depth is the greatest one that is stored, and -1 if there is none. -/
theorem isGreatest_maxBracketDepth (ns : List Node) :
  IsGreatest (storedDepths (renest ns)) (maxBracketDepth ns)
    ∨ storedDepths (renest ns) = ∅ ∧ maxBracketDepth ns = -1
  := by
  rw [← maxBracketDepth_congr (map_forget_renest ns), maxBracketDepth]
  obtain ⟨hmem, hle⟩ := isGreatest_foldl_max (-1)
    ((renest ns).flatMap fun n => Node.bracketDepths n 0)
  obtain heq | hmem := hmem
  · right
    refine ⟨Set.eq_empty_iff_forall_notMem.2 ?_, heq⟩
    intro x hx
    obtain ⟨d, hd, rfl⟩ := mem_storedDepths_renest_iff.1 hx
    have hd := hle (.inr ⟨d, hd, rfl⟩)
    omega
  · left
    constructor
    · apply mem_storedDepths_renest_iff.2 hmem
    · intro x hx
      apply hle (.inr (mem_storedDepths_renest_iff.1 hx))

/-- No bracket stands deeper than the greatest depth. -/
theorem le_maxBracketDepth (hn : Stands ns d n) (hbracket : n.shape.isBracket = true) :
  (d : Int) ≤ maxBracketDepth ns
  := by
  apply (isGreatest_foldl_max (-1) _).2
  exact .inr ⟨d, mem_bracketDepths_iff.2 ⟨n, hn, hbracket⟩, rfl⟩

/-! ### Sizes -/

/-- The place in the table of sizes for a bracket at a depth.  The first place is for brackets that
are sized by their content, and the last one for all that are three or more depths above the
deepest. -/
def sizePlace (greatest depth : Int) : Nat := (min (greatest - depth) 3 + 1).toNat

/-- A bracket that stands in a bracket has the brackets between and the outer one around it too. -/
theorem Stands.within {j : Nat} (hn : Stands ns d n) (hbracket : n.shape.isBracket = true)
    (hk : Stands n.shape.children j k) :
  Stands ns (d + 1 + j) k
  := by
  induction hk with
  | top hk =>
    obtain ⟨slot, hslot, hmem⟩ := List.mem_flatMap.1 hk
    have hinner := hn.inner hslot hmem
    rw [Shape.innerDepth, if_pos hbracket] at hinner
    apply hinner
  | @inner m k j slot _ hslot hmem ih =>
    have hinner := ih.inner hslot hmem
    rw [Shape.innerDepth] at hinner ⊢
    split at hinner
    · rw [if_pos ‹_›]
      apply hinner
    · rw [if_neg ‹_›]
      apply hinner

/-- Up to the greatest depth the size of a bracket is at its place in the table. -/
theorem getElem?_sizePlace {settings : Settings} (hsizing : settings.sizing = .depth) {depth : Int}
    (hdepth : 0 ≤ depth) (hle : depth ≤ settings.maxDepth) :
  Delimiter.sizes[sizePlace settings.maxDepth depth]? = some (bracketSizes settings depth)
  := by
  have hlength : Delimiter.sizes.length = 5 := by decide
  have hplace : sizePlace settings.maxDepth depth < Delimiter.sizes.length := by
    rw [sizePlace, hlength]
    omega
  have hmax : 0 ≤ settings.maxDepth := hdepth.trans hle
  have hindex : min (max (min (settings.maxDepth - depth) (Delimiter.sizes.length - 2) + 1) 1).toNat
      (Delimiter.sizes.length - 1) = sizePlace settings.maxDepth depth := by
    rw [sizePlace, hlength]
    omega
  rw [bracketSizes, hsizing]
  simp only [decide_true, Bool.true_and, hmax, if_true]
  rw [Delimiter.sizeAt, hindex, List.getElem?_eq_getElem hplace, Option.getD_some]

/-- A bracket is written between its size commands. -/
theorem exists_of_writeShape_bracket {settings : Settings} {tm : Bool} {l r m : Text}
    {c : List Piece} {depth : Int} {scale : Option Scale} {p q : Option (List Piece)}
    (h : writeShape settings tm (.bracket l r c depth scale p q) = .ok m) :
  ∃ content scripts, writeContent settings tm c = .ok content
    ∧ m = (bracketSizes settings depth).1 ++ Delimiter.spelling l true ++ [' '] ++ content ++ [' ']
      ++ (bracketSizes settings depth).2 ++ Delimiter.spelling r false ++ scripts
  := by
  rw [writeShape] at h
  generalize bracketSizes settings depth = sizes at h ⊢
  obtain ⟨content, hcontent, h⟩ := exists_of_bind_eq_ok h
  obtain ⟨subscript, -, h⟩ := exists_of_bind_eq_ok h
  obtain ⟨superscript, -, h⟩ := exists_of_bind_eq_ok h
  refine ⟨content, subscript ++ superscript, hcontent, (Except.ok.inj h).symm.trans ?_⟩
  apply List.append_assoc

/-- The brackets of an equation are sized by the distance to the greatest depth. -/
structure Graded (settings : Settings) (ns : List Node) : Prop where
  /-- A bracket is written between the commands at its place in the table. -/
  written : ∀ d n, Stands ns d n → ∀ l r c depth scale p q,
    n.shape = .bracket l r c depth scale p q →
    ∃ left right, Delimiter.sizes[sizePlace settings.maxDepth d]? = some (left, right)
      ∧ ∀ tm m, writeShape settings tm (n.shape.map (piece settings)) = .ok m →
        ∃ content scripts, m = left ++ Delimiter.spelling l true ++ [' '] ++ content ++ [' ']
          ++ right ++ Delimiter.spelling r false ++ scripts
  /-- A bracket in another one stands deeper, and its size is not greater. -/
  inwards : ∀ d n j k, Stands ns d n → n.shape.isBracket = true → Stands n.shape.children j k →
    k.shape.isBracket = true →
    Stands ns (d + 1 + j) k
      ∧ sizePlace settings.maxDepth (d + 1 + j : Nat) ≤ sizePlace settings.maxDepth d
  /-- From a bracket to the one that is next around it the size is one step greater, up to the
  greatest size. -/
  nearest : ∀ d n k, Stands ns d n → n.shape.isBracket = true → Stands n.shape.children 0 k →
    k.shape.isBracket = true →
    sizePlace settings.maxDepth d = min (sizePlace settings.maxDepth (d + 1 : Nat) + 1) 4
  /-- The deepest brackets have the smallest of these sizes. -/
  deepest : Delimiter.sizes[sizePlace settings.maxDepth settings.maxDepth]?
    = some ("\\bigl".toList, "\\bigr".toList)

theorem graded {settings : Settings} (hsizing : settings.sizing = .depth)
    (hgreatest : settings.maxDepth = maxBracketDepth ns)
    (hstored : ∀ d n, Stands ns d n → n.shape.StoresDepth d) :
  Graded settings ns
  where
  written d n hn l r c depth scale p q hshape := by
    have hbracket : n.shape.isBracket = true := by
      rw [hshape]
      rfl
    have hdepth := hstored d n hn
    rw [hshape] at hdepth
    obtain rfl : depth = d := hdepth
    refine ⟨_, _, getElem?_sizePlace hsizing (Int.natCast_nonneg d)
      (hgreatest ▸ le_maxBracketDepth hn hbracket), ?_⟩
    intro tm m hm
    rw [hshape] at hm
    obtain ⟨content, scripts, -, hm⟩ := exists_of_writeShape_bracket hm
    exact ⟨content, scripts, hm⟩
  inwards d n j k hn hbracket hk _ := by
    refine ⟨hn.within hbracket hk, ?_⟩
    simp only [sizePlace]
    omega
  nearest d n k hn hbracket hk hbracket' := by
    have hle := le_maxBracketDepth (hn.within hbracket hk) hbracket'
    rw [hgreatest]
    simp only [sizePlace]
    omega
  deepest := by
    rw [sizePlace, sub_self]
    rfl

/-- Whatever the stored depths were, every bracket has the number of brackets around it as its
depth afterwards.  Nothing else changes, where a missing cell counts as an empty one, and storing
once more changes nothing.  The greatest depth does not depend on stored ones and is the greatest
that is then stored; brackets that are sized by depth are graded by the distance to it. -/
theorem depths_renest (ns : List Node) :
  (∀ d n, Stands (renest ns) d n → n.shape.StoresDepth d)
    ∧ (renest ns).map (Node.forget (Shape.withDepth 0)) = ns.map (Node.forget (Shape.withDepth 0))
    ∧ renest (renest ns) = renest ns
    ∧ (∀ ns' : List Node,
      ns'.map (Node.forget (Shape.withDepth 0)) = ns.map (Node.forget (Shape.withDepth 0)) →
      maxBracketDepth ns' = maxBracketDepth ns)
    ∧ (IsGreatest (storedDepths (renest ns)) (maxBracketDepth ns)
      ∨ storedDepths (renest ns) = ∅ ∧ maxBracketDepth ns = -1)
    ∧ ∀ (t : SymbolTable) (structural : Bool),
      let settings : Settings := { settingsFor { structural, sizing := .depth } (renest ns) with table := t }
      settings.maxDepth = maxBracketDepth ns ∧ Graded settings (renest ns)
  := by
  refine ⟨fun d n h => h.storesDepth, map_forget_renest ns, renest_renest ns,
    fun ns' h => maxBracketDepth_congr h, isGreatest_maxBracketDepth ns, ?_⟩
  intro t structural settings
  exact ⟨maxBracketDepth_congr (map_forget_renest ns),
    graded rfl rfl fun d n h => h.storesDepth⟩

end Formula
