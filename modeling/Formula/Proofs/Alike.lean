import Formula.Proofs.Outcome

/-!
# Computations that look alike

Two computations are alike under a view `v` when they both fail, or give values that look the
same under `v`, whatever the two supplies are that they run on.  A computation that is alike
to itself does not show the supply.  Being alike is a partial equivalence: it is symmetric and
transitive, and which computations are alike to themselves has to be proved.
-/

namespace Formula.Build

variable {α β γ δ ε ζ : Type} {v : α → γ} {w : β → δ} {b b' b'' : Build α}

/-- What shows of the outcome of a computation; nothing shows of a failure. -/
def outcome (v : α → γ) (b : Build α) (supply : Supply) : Option γ :=
  (b.runOn supply).1.toOption.map v

/-- From any two supplies, the computations both fail, or give values that look the same. -/
def Alike (v : α → γ) (b b' : Build α) : Prop :=
  ∀ supply supply' : Supply, outcome v b supply = outcome v b' supply'

namespace Alike

theorem symm (h : Alike v b b') :
  Alike v b' b
  := fun supply supply' => (h supply' supply).symm

theorem trans (h : Alike v b b') (h' : Alike v b' b'') :
  Alike v b b''
  := fun supply supply' => (h supply supply).trans (h' supply supply')

theorem pure {a a' : α} (h : v a = v a') :
  Alike v (Pure.pure a) (Pure.pure a')
  := fun _ _ => congrArg some h

theorem throw (fault fault' : Fault) :
  Alike v (MonadExcept.throw fault) (MonadExcept.throw fault')
  := fun _ _ => rfl

end Alike

/-- What shows of two computations in a row. -/
theorem outcome_bind (w : β → δ) (b : Build α) (c : α → Build β) (supply : Supply) :
  outcome w (b >>= c) supply
    = match b.runOn supply with
      | (.ok a, rest) => outcome w (c a) rest
      | (.error _, _) => none
  := by
  rw [outcome, runOn_bind]
  rcases b.runOn supply with ⟨_ | _, _⟩ <;> rfl

/-- Two computations that are alike both fail, or give values that look the same. -/
theorem Alike.cases (h : Alike v b b') (supply supply' : Supply) :
  (∃ fault fault' rest rest',
      b.runOn supply = (.error fault, rest) ∧ b'.runOn supply' = (.error fault', rest'))
    ∨ ∃ a a' rest rest',
      b.runOn supply = (.ok a, rest) ∧ b'.runOn supply' = (.ok a', rest') ∧ v a = v a'
  := by
  have hs := h supply supply'
  rw [outcome, outcome] at hs
  rcases hb : b.runOn supply with ⟨fault | a, rest⟩ <;>
    rcases hb' : b'.runOn supply' with ⟨fault' | a', rest'⟩ <;> rw [hb, hb'] at hs
  · exact Or.inl ⟨fault, fault', rest, rest', rfl, rfl⟩
  · contradiction
  · contradiction
  · exact Or.inr ⟨a, a', rest, rest', rfl, rfl, Option.some.inj hs⟩

theorem Alike.bind {c c' : α → Build β} (hb : Alike v b b')
    (hc : ∀ a a', v a = v a' → Alike w (c a) (c' a')) :
  Alike w (b >>= c) (b' >>= c')
  := by
  intro supply supply'
  rw [outcome_bind, outcome_bind]
  obtain ⟨fault, fault', rest, rest', hr, hr'⟩ | ⟨a, a', rest, rest', hr, hr', ha⟩ :=
    hb.cases supply supply'
  · rw [hr, hr']
  · rw [hr, hr']
    apply hc a a' ha

/-- What follows the text that is read is the same for computations that are alike. -/
theorem Alike.bind_rest {b b' : Build (α × Text)} {c c' : α × Text → Build β}
    (hb : Alike (Prod.map v id) b b')
    (hc : ∀ a a' rest, v a = v a' → Alike w (c (a, rest)) (c' (a', rest))) :
  Alike w (b >>= c) (b' >>= c')
  := by
  apply Alike.bind hb
  rintro ⟨a, rest⟩ ⟨a', rest'⟩ hread
  obtain ⟨ha, hrest⟩ := Prod.mk.inj hread
  obtain rfl : rest = rest' := hrest
  apply hc a a' rest ha

/-- Two computations that do not show the supply may change places. -/
theorem Alike.swap {c : Build ε} {u : ε → ζ} {f f' : α → ε → Build β} (hb : Alike v b b)
    (hc : Alike u c c)
    (hf : ∀ a a' e e', v a = v a' → u e = u e' → Alike w (f a e) (f' a' e')) :
  Alike w (b >>= fun a => c >>= fun e => f a e) (c >>= fun e => b >>= fun a => f' a e)
  := by
  intro supply supply'
  rw [outcome_bind, outcome_bind]
  rcases hr : b.runOn supply with ⟨fault | a, rest⟩
  · rcases hr' : c.runOn supply' with ⟨_ | e, rest'⟩
    · rfl
    · dsimp only
      rw [outcome_bind]
      obtain ⟨_, _, _, _, _, hb'⟩ | ⟨_, _, _, _, hok, _⟩ := hb.cases supply rest'
      · rw [hb']
      · rw [hr] at hok
        cases hok
  · dsimp only
    rw [outcome_bind]
    obtain ⟨_, _, _, _, hr', hc'⟩ | ⟨e, e', rest', after, hr', hc', he⟩ := hc.cases rest supply'
    · rw [hr', hc']
    · rw [hr', hc']
      dsimp only
      rw [outcome_bind]
      obtain ⟨_, _, _, _, herror, _⟩ | ⟨a₁, a', _, _, hok, hb', ha⟩ := hb.cases supply after
      · rw [hr] at herror
        cases herror
      · rw [hr] at hok
        obtain ⟨hsame, -⟩ := Prod.mk.inj hok
        obtain rfl := Except.ok.inj hsame
        rw [hb']
        apply hf a a' e e' ha he

/-! ### The steps of building -/

/-- The identifier that is taken is not shown. -/
theorem alike_fresh :
  Alike (fun _ => ()) fresh fresh
  := fun _ _ => rfl

theorem alike_remark (r r' : Remark) :
  Alike (fun _ => ()) (remark r) (remark r')
  := fun _ _ => rfl

/-- Computations for each element in turn are alike where each is. -/
theorem Alike.mapM {c : α → Build β} {l : List α} (h : ∀ a ∈ l, Alike w (c a) (c a)) :
  Alike (List.map w) (l.mapM c) (l.mapM c)
  := by
  induction l with
  | nil =>
    rw [List.mapM_nil]
    apply Alike.pure rfl
  | cons a l ih =>
    rw [List.mapM_cons]
    apply Alike.bind (h a List.mem_cons_self)
    intro b b' hb
    apply Alike.bind (ih fun a ha => h a (List.mem_cons_of_mem _ ha))
    intro bs bs' hbs
    apply Alike.pure
    rw [List.map_cons, List.map_cons, hb, hbs]

end Formula.Build
