import Formula.Proofs.Factory
import Formula.Proofs.Nesting

/-!
# Round trips

A legible equation is written, and reading what is written gives an equivalent equation:
what a node is read as, up to identifiers and the stored depths of brackets.
-/

namespace Formula

open Build Markup Writing

variable {config : Config} {t : SymbolTable} {ns : List Node} {m : Text}

/-- A legible equation has a markup, which is read as the equation is reread. -/
theorem Legible.exists_toMarkup {config : WriteConfig} (h : Legible config.structural ns) :
  ∃ m, toMarkup .builtin config ns = .ok m ∧ Spelled .builtin false false m (ns.flatMap Node.reread)
  := by
  have htable : (settingsFor config ns).table = .builtin := rfl
  have hwritten := Legible.written htable h
  obtain ⟨m, hm, hspelled⟩ := hwritten false false false (by simp) (by simp)
  refine ⟨trimMarkup m, ?_, hspelled.trimMarkup⟩
  rw [toMarkup_eq, hm, Except.map]

/-- Spelled markup is read as its nodes, whatever the supply of identifiers. -/
theorem Spelled.exists_ofMarkup (h : Spelled t false false m ns) (config : Config)
    (supply : Supply) :
  ∃ made, ((ofMarkup t config m).runOn supply).1 = .ok (config.store made)
    ∧ made.map Node.bare = ns
  := by
  have hmade : Returns (ofMarkup t config m) fun again =>
      ∃ made, again = config.store made ∧ made.map Node.bare = ns :=
    Returns.bind h.makes fun made hmade => Returns.pure ⟨made, rfl, hmade⟩
  obtain ⟨_, hagain, made, rfl, hbare⟩ := hmade.exists_ok supply
  exact ⟨made, hagain, hbare⟩

/-- Markup that spells what an equation is reread as is read as an equivalent equation, if
rereading keeps the canonical form. -/
theorem Spelled.exists_again (h : Spelled t false false m (ns.flatMap Node.reread))
    (hkeeps : canonicalForm (ns.flatMap Node.reread) = canonicalForm ns)
    (hform : ∃ forms, canonicalForm ns = .ok forms) (supply : Supply) :
  ∃ again, ((ofMarkup t config m).runOn supply).1 = .ok again ∧ equivalent again ns = .ok true
  := by
  obtain ⟨made, hmade, hbare⟩ := h.exists_ofMarkup config supply
  refine ⟨_, hmade, ?_⟩
  obtain ⟨forms, hforms⟩ := hform
  have hagain : canonicalForm (config.store made) = .ok forms := by
    rw [config.canonicalForm_store, ← canonicalForm_bare, hbare, hkeeps, hforms]
  rw [equivalent, hagain, hforms]
  simp [bind, Except.bind, pure, Except.pure]

/-- A legible equation with a canonical form is equivalent to what its markup is read as. -/
theorem Legible.exists_again (h : Legible config.write.structural ns)
    (hform : ∃ forms, canonicalForm ns = .ok forms) (supply : Supply) :
  ∃ markup again, toMarkup .builtin config.write ns = .ok markup
    ∧ ((ofMarkup .builtin config markup).runOn supply).1 = .ok again
    ∧ equivalent again ns = .ok true
  := by
  obtain ⟨m, hm, hspelled⟩ := h.exists_toMarkup
  obtain ⟨again, hagain, hequivalent⟩ :=
    hspelled.exists_again h.canonicalForm_reread hform supply
  exact ⟨m, again, hm, hagain, hequivalent⟩

/-- Every well-formed equation is equivalent to what its markup is read as, in both families
of derivatives and under both sizings of brackets. -/
theorem WellFormed.exists_equivalent (h : WellFormed config.write ns) (supply : Supply) :
  ∃ markup again, toMarkup .builtin config.write ns = .ok markup
    ∧ ((ofMarkup .builtin config markup).runOn supply).1 = .ok again
    ∧ equivalent again ns = .ok true
  := h.expressible.legible.exists_again h.exists_canonicalForm supply

/-- A red text. -/
def redText : Node :=
  Node.plain 2 (.text "a b".toList { bold := true, color := some "red".toList } none)

/-- A bracket whose sides are not partners. -/
def halfOpen : Node := Node.plain 3 (.bracket ['['] [')'] [redText] 0 none none none)

/-- A canceled fraction of a text over a bracket. -/
def canceledFraction : Node :=
  .mk { id := 1, wrapping := { params := { cancel := some .none }, order := [.cancel] } }
    (.fraction (some .display) [redText] [halfOpen])

theorem wellFormed_canceledFraction (config : WriteConfig) :
  WellFormed config [canceledFraction]
  := by
  have hwalk : walk [canceledFraction] = [canceledFraction, redText, halfOpen, redText] := by
    simp [walk, canceledFraction, halfOpen, redText, Node.plain, Tree.walk_mk, Shape.children,
      Shape.slots, Shape.slots.present]
  have htext : redText.Expressible config := by
    refine ⟨⟨.text _ _ _, {}, _, rfl, rfl⟩, .empty, ?_, by decide, ?_⟩
    · intro p hp
      contradiction
    · intro c hc
      obtain rfl := Option.some.inj hc
      constructor <;> decide
  constructor
  · rw [Expressible, hwalk]
    intro n hn
    simp only [List.mem_cons, List.not_mem_nil, or_false] at hn
    rcases hn with rfl | rfl | rfl | rfl
    · refine ⟨⟨.fraction (some .display), {}, _, rfl, rfl⟩, ?_, ?_, trivial⟩
      · exact @Wrapping.Reachable.apply {} _ .cancel .none .empty rfl
      · intro p hp
        contradiction
    · apply htext
    · refine ⟨⟨.bracket ['['] (some [')']), {}, _, rfl, rfl⟩, .empty, ?_, by decide, by decide⟩
      intro p hp
      contradiction
    · apply htext
  · rw [hwalk]
    intro n hn o ho
    simp only [List.mem_cons, List.not_mem_nil, or_false] at hn
    rcases hn with rfl | rfl | rfl | rfl <;> contradiction

theorem exists_equivalent_canceledFraction :
  WellFormed {} [canceledFraction]
    ∧ ∃ markup again, toMarkup .builtin {} [canceledFraction] = .ok markup
      ∧ ((ofMarkup .builtin {} markup).runOn {}).1 = .ok again
      ∧ equivalent again [canceledFraction] = .ok true
  := by
  have h := wellFormed_canceledFraction {}
  exact ⟨h, @WellFormed.exists_equivalent {} _ h {}⟩

end Formula
