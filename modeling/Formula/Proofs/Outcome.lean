import Formula.Build.Supply
import Mathlib.Data.List.Forall2
import Mathlib.Tactic.Use

/-!
# Outcomes of building

`Build.Meets b P E` says that from every supply the computation `b` gives a value that
satisfies `P`, or fails with a fault that satisfies `E`.  A computation that cannot fail is
one that meets an impossible demand on faults; that is `Build.Returns`.
-/

namespace Formula

variable {α β : Type}

/-- What a computation that gives a value went through. -/
theorem exists_of_bind_eq_ok {ε : Type} {x : Except ε α} {f : α → Except ε β} {b : β}
    (h : x >>= f = .ok b) :
  ∃ a, x = .ok a ∧ f a = .ok b
  := by
  cases x with
  | error => contradiction
  | ok a => exact ⟨a, rfl, h⟩

/-- Computations that agree on all elements agree on the list. -/
theorem mapM_congr {m : Type → Type} [Monad m] [LawfulMonad m] {f g : α → m β} {l : List α}
    (h : ∀ a ∈ l, f a = g a) :
  l.mapM f = l.mapM g
  := by
  induction l with
  | nil => rw [List.mapM_nil, List.mapM_nil]
  | cons a l ih =>
    rw [List.mapM_cons, List.mapM_cons, h a List.mem_cons_self,
      ih fun b hb => h b (List.mem_cons_of_mem _ hb)]

namespace Build

/-- From every supply, the value of the computation satisfies `P`, or its fault satisfies
`E`. -/
def Meets (b : Build α) (P : α → Prop) (E : Fault → Prop) : Prop :=
  ∀ supply : Supply,
    match (b.runOn supply).1 with
    | .ok a => P a
    | .error fault => E fault

/-- From every supply, the computation gives a value, and the value satisfies `P`. -/
def Returns (b : Build α) (P : α → Prop) : Prop := Meets b P fun _ => False

section Rules

variable {b : Build α} {P Q : α → Prop} {E F : Fault → Prop}

theorem Meets.mono (h : Meets b P E) (hP : ∀ a, P a → Q a) (hE : ∀ f, E f → F f) :
  Meets b Q F
  := by
  intro supply
  have hs := h supply
  rcases hr : (b.runOn supply).1 with fault | a
  · rw [hr] at hs
    apply hE fault hs
  · rw [hr] at hs
    apply hP a hs

theorem Returns.mono (h : Returns b P) (hP : ∀ a, P a → Q a) :
  Returns b Q
  := Meets.mono h hP fun _ hf => hf

theorem Meets.pure {a : α} (h : P a) :
  Meets (Pure.pure a) P E
  := fun _ => h

theorem Returns.pure {a : α} (h : P a) :
  Returns (Pure.pure a) P
  := Meets.pure h

theorem Meets.throw {fault : Fault} (h : E fault) :
  Meets (MonadExcept.throw fault : Build α) P E
  := fun _ => h

/-- What two computations in a row give from a supply. -/
theorem runOn_bind (c : α → Build β) (supply : Supply) :
  (b >>= c).runOn supply
    = match b.runOn supply with
      | (.ok a, rest) => (c a).runOn rest
      | (.error fault, rest) => (.error fault, rest)
  := by
  simp only [runOn, ExceptT.run_bind, StateT.run_bind]
  rcases (ExceptT.run b).run supply with ⟨_ | _, _⟩ <;> rfl

theorem Meets.bind {c : α → Build β} {Q : β → Prop} (hb : Meets b P E)
    (hc : ∀ a, P a → Meets (c a) Q E) :
  Meets (b >>= c) Q E
  := by
  intro supply
  have hs := hb supply
  rw [runOn_bind]
  rcases hr : b.runOn supply with ⟨fault | a, rest⟩
  · rw [hr] at hs
    apply hs
  · rw [hr] at hs
    apply hc a hs rest

theorem Returns.bind {c : α → Build β} {Q : β → Prop} (hb : Returns b P)
    (hc : ∀ a, P a → Returns (c a) Q) :
  Returns (b >>= c) Q
  := Meets.bind hb hc

/-- A computation that returns gives a value from any supply. -/
theorem Returns.exists_ok (h : Returns b P) (supply : Supply) :
  ∃ a, (b.runOn supply).1 = .ok a ∧ P a
  := by
  have hs := h supply
  rcases hr : (b.runOn supply).1 with fault | a
  · rw [hr] at hs
    contradiction
  · rw [hr] at hs
    use a

/-- What a computation gives satisfies what it meets. -/
theorem Meets.of_ok {a : α} {supply : Supply} (h : Meets b P E)
    (ha : (b.runOn supply).1 = .ok a) :
  P a
  := by
  have hs := h supply
  rw [ha] at hs
  apply hs

/-- A computation that returns one value and nothing else, and satisfies two demands. -/
theorem Returns.and (hP : Returns b P) (hQ : Returns b Q) :
  Returns b fun a => P a ∧ Q a
  := by
  intro supply
  obtain ⟨a, ha, h⟩ := hP.exists_ok supply
  have h' := Meets.of_ok hQ ha
  rw [ha]
  apply And.intro h h'

end Rules

/-! ### The steps of building -/

section Steps

variable {E : Fault → Prop}

theorem meets_fresh {P : Nat → Prop} (h : ∀ i, P i) :
  Meets fresh P E
  := fun supply => h supply.next

theorem meets_node {P : Node → Prop} {shape : Shape Node} (h : ∀ i, P (.plain i shape)) :
  Meets (node shape) P E
  := fun supply => h supply.next

theorem meets_text {P : Node → Prop} {value : Text}
    (h : ∀ i, P (.plain i (.text value {} none))) :
  Meets (text value) P E
  := meets_node h

/-- A demand on every element is met by a computation for each element in turn. -/
theorem Meets.mapM {c : α → Build β} {R : α → β → Prop} {l : List α}
    (h : ∀ a ∈ l, Meets (c a) (R a) E) :
  Meets (l.mapM c) (List.Forall₂ R l) E
  := by
  induction l with
  | nil =>
    rw [List.mapM_nil]
    apply Meets.pure List.Forall₂.nil
  | cons a l ih =>
    rw [List.mapM_cons]
    apply Meets.bind (h a List.mem_cons_self)
    intro b hb
    apply Meets.bind (ih fun a ha => h a (List.mem_cons_of_mem _ ha))
    intro bs hbs
    apply Meets.pure (List.Forall₂.cons hb hbs)

end Steps

end Build

end Formula
