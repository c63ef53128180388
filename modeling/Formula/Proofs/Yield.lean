import Formula.Proofs.Outcome
import Formula.Node.Visit
import Formula.Proofs.Legible
import Mathlib.Order.Interval.Finset.Nat
import Mathlib.Order.Interval.Multiset
import Mathlib.Tactic.Abel

/-!
# Identifiers and their owners

Every identifier that a computation takes belongs to one node of what it gives.
`Build.Yields b nodes given P E` says this of a computation `b` that was handed nodes with the
identifiers `given`: when it gives a value, the identifiers of the nodes in that value are
those given and those taken meanwhile, each once.  Identifiers are counted in multisets, so
that a node that is lost or used twice shows.
-/

namespace Formula

/-! ### Identifiers -/

/-- The identifiers of all nodes that a walk meets. -/
def ids (ns : List Node) : Multiset Nat := ((walk ns).map Tree.id : List Nat)

section Ids

variable {ns ns' : List Node}

@[simp]
theorem walk_nil :
  walk [] = []
  := rfl

@[simp]
theorem walk_append :
  walk (ns ++ ns') = walk ns ++ walk ns'
  := List.flatMap_append

theorem walk_cons (n : Node) (ns : List Node) :
  walk (n :: ns) = walk [n] ++ walk ns
  := @walk_append [n] ns

@[simp]
theorem ids_nil :
  ids [] = 0
  := rfl

@[simp]
theorem ids_append :
  ids (ns ++ ns') = ids ns + ids ns'
  := by
  simp [ids]

theorem ids_cons (n : Node) (ns : List Node) :
  ids (n :: ns) = ids [n] + ids ns
  := @ids_append [n] ns

@[simp]
theorem ids_mk (l : Label) (s : Shape Node) :
  ids [.mk l s] = {l.id} + ids s.children
  := by
  rw [ids, walk, List.flatMap_singleton, Tree.walk_mk, List.map_cons, ← Multiset.cons_coe,
    ← Multiset.singleton_add]
  rfl

@[simp]
theorem ids_reverse (ns : List Node) :
  ids ns.reverse = ids ns
  := by
  induction ns with
  | nil => rfl
  | cons n ns ih => rw [List.reverse_cons, ids_append, ih, ids_cons n ns, add_comm]

/-- A change of the nodes that keeps the identifiers below each of them keeps all. -/
theorem ids_map {f : Node → Node} (h : ∀ n ∈ ns, ids [f n] = ids [n]) :
  ids (ns.map f) = ids ns
  := by
  induction ns with
  | nil => rfl
  | cons n ns ih =>
    rw [List.map_cons, ids_cons, ids_cons n ns, h n List.mem_cons_self,
      ih fun n hn => h n (List.mem_cons_of_mem _ hn)]

end Ids

/-! ### Yielding -/

namespace Build

variable {α β : Type}

/-- From every supply, the computation gives a value that satisfies `P` and whose nodes own the
given identifiers and those taken, or it fails with a fault that satisfies `E`.  No identifier
is given back in either case. -/
def Yields (b : Build α) (nodes : α → List Node) (given : Multiset Nat) (P : α → Prop)
    (E : Fault → Prop) : Prop :=
  ∀ supply : Supply,
    match b.runOn supply with
    | (.ok a, rest) =>
      supply.next ≤ rest.next
        ∧ ids (nodes a) = given + Multiset.Ico supply.next rest.next
        ∧ P a
    | (.error fault, rest) => supply.next ≤ rest.next ∧ E fault

section Rules

variable {b : Build α} {nodes : α → List Node} {nodes' : β → List Node}
  {given : Multiset Nat} {P Q : α → Prop} {R : β → Prop} {E F : Fault → Prop}

theorem Yields.mono (h : Yields b nodes given P E) (hP : ∀ a, P a → Q a)
    (hE : ∀ f, E f → F f) :
  Yields b nodes given Q F
  := by
  intro supply
  have hs := h supply
  rcases hr : b.runOn supply with ⟨fault | a, rest⟩
  · rw [hr] at hs
    apply And.intro hs.1 (hE fault hs.2)
  · rw [hr] at hs
    obtain ⟨hle, hids, ha⟩ := hs
    apply And.intro hle (And.intro hids (hP a ha))

/-- A value that is given at once owns what is given. -/
theorem Yields.pure {a : α} (hids : ids (nodes a) = given) (ha : P a) :
  Yields (Pure.pure a) nodes given P E
  := by
  intro supply
  refine ⟨le_refl supply.next, ?_, ha⟩
  rw [Multiset.Ico_self, add_zero, hids]

theorem Yields.throw {fault : Fault} (h : E fault) :
  Yields (MonadExcept.throw fault : Build α) nodes given P E
  := fun supply => ⟨le_refl supply.next, h⟩

/-- A computation is handed some of the given nodes; the others and what it gives are handed to
the next one. -/
theorem Yields.bind_handing {handed : Multiset Nat} {c : α → Build β}
    (hb : Yields b nodes handed P E)
    (hc : ∀ a, P a → Yields (c a) nodes' (given + ids (nodes a)) R E) :
  Yields (b >>= c) nodes' (given + handed) R E
  := by
  intro supply
  have hs := hb supply
  rw [runOn_bind]
  rcases hr : b.runOn supply with ⟨fault | a, rest⟩
  · rw [hr] at hs
    apply hs
  · rw [hr] at hs
    obtain ⟨hle, hids, ha⟩ := hs
    have hrest := hc a ha rest
    dsimp only
    rcases hr' : (c a).runOn rest with ⟨fault | r, rest'⟩
    · rw [hr'] at hrest
      apply And.intro (hle.trans hrest.1) hrest.2
    · rw [hr'] at hrest
      obtain ⟨hle', hids', hr⟩ := hrest
      refine ⟨hle.trans hle', ?_, hr⟩
      rw [hids', hids, ← Multiset.Ico_add_Ico_eq_Ico hle hle']
      simp only [add_assoc]

/-- What a computation gives is handed to the next one, besides what was given before. -/
theorem Yields.bind {c : α → Build β} (hb : Yields b nodes 0 P E)
    (hc : ∀ a, P a → Yields (c a) nodes' (given + ids (nodes a)) R E) :
  Yields (b >>= c) nodes' given R E
  := by
  have h := Yields.bind_handing hb hc
  rwa [add_zero] at h

/-- A remark takes no identifier. -/
theorem Yields.remark_bind {c : Unit → Build β} (r : Remark)
    (hc : Yields (c ()) nodes' given R E) :
  Yields (remark r >>= c) nodes' given R E
  := by
  intro supply
  exact hc { supply with remarks := supply.remarks.push r }

/-- An identifier that is taken is handed to what follows. -/
theorem Yields.fresh_bind {c : Nat → Build β}
    (hc : ∀ i, Yields (c i) nodes' (given + {i}) R E) :
  Yields (fresh >>= c) nodes' given R E
  := by
  intro supply
  have hrest := hc supply.next { supply with next := supply.next + 1 }
  rw [runOn_bind]
  have hfresh : fresh.runOn supply = (.ok supply.next, { supply with next := supply.next + 1 }) :=
    rfl
  have hstep : supply.next ≤ supply.next + 1 := Nat.le_succ _
  rw [hfresh]
  dsimp only
  rcases hr : (c supply.next).runOn { supply with next := supply.next + 1 } with
    ⟨fault | r, rest⟩
  · rw [hr] at hrest
    apply And.intro (hstep.trans hrest.1) hrest.2
  · rw [hr] at hrest
    obtain ⟨hle, hids, hr⟩ := hrest
    have hsingle : Multiset.Ico supply.next (supply.next + 1) = {supply.next} :=
      congrArg Finset.val (Nat.Ico_succ_singleton supply.next)
    refine ⟨hstep.trans hle, ?_, hr⟩
    rw [hids, add_assoc, ← hsingle, Multiset.Ico_add_Ico_eq_Ico hstep hle]

/-- A new node owns a new identifier. -/
theorem Yields.node_bind {c : Node → Build β} {shape : Shape Node}
    (hc : ∀ i, Yields (c (.plain i shape)) nodes' (given + {i}) R E) :
  Yields (node shape >>= c) nodes' given R E
  := by
  rw [node, bind_assoc]
  apply Yields.fresh_bind
  intro i
  rw [pure_bind]
  apply hc

/-- What a computation gives for each element of a list, in turn, is owned element by
element. -/
theorem Yields.mapM {c : α → Build β} {R : α → β → Prop} {l : List α}
    (h : ∀ a ∈ l, Yields (c a) nodes' 0 (R a) E) :
  Yields (l.mapM c) (List.flatMap nodes') 0 (List.Forall₂ R l) E
  := by
  induction l with
  | nil =>
    rw [List.mapM_nil]
    apply Yields.pure rfl List.Forall₂.nil
  | cons a l ih =>
    rw [List.mapM_cons]
    apply Yields.bind (h a List.mem_cons_self)
    intro b hb
    apply Yields.bind (ih fun a ha => h a (List.mem_cons_of_mem _ ha))
    intro bs hbs
    apply Yields.pure
    · simp
    · apply List.Forall₂.cons hb hbs

end Rules

end Build

end Formula
