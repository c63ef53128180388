import Formula.Proofs.RoundTrip

/-!
# Typed text

A text that is typed holds any characters, and may be bold, slanted or upright, and in text
mode.  It is read as it is written, whatever its neighbours are, unless it holds a blank other
than the space; and a run in text mode must not be a fullwidth ampersand alone, as that is how
an ampersand is written.
-/

namespace Formula

open Writing

variable {config : Config} {n : Node} {ns : List Node}

/-- A text without wrappers that is at most bold, slanted or upright, and in text mode. -/
structure Node.IsTyped (n : Node) : Prop where
  wrapping : n.wrapping = {}
  shape : ∃ value bold italic textMode scale, n.shape
    = .text value { bold := bold, italic := italic, textMode := textMode } scale

theorem Node.IsTyped.outer_eq_nil (h : n.IsTyped) :
  n.outer = []
  := by
  rw [outer, h.wrapping]
  rfl

/-- Typed texts are all in one group. -/
theorem eq_of_mem_groups_typed (h : ∀ n ∈ ns, n.IsTyped) {g : List Node} (hg : g ∈ groups ns) :
  g = ns
  := by
  have hne : ns ≠ [] := by
    rintro rfl
    contradiction
  have hchain : List.IsChain (fun n n' : Node => decide (n.outer = n'.outer) = true) ns := by
    apply List.Pairwise.isChain
    apply List.pairwise_iff_forall_sublist.2
    intro n n' hsub
    have hn := (h n (hsub.subset (by simp))).outer_eq_nil
    have hn' := (h n' (hsub.subset (by simp))).outer_eq_nil
    rw [hn, hn', decide_eq_true rfl]
  rw [groups, List.splitBy_of_isChain hne hchain] at hg
  apply List.mem_singleton.1 hg

/-- Typed texts have nothing below them. -/
theorem walk_typed (h : ∀ n ∈ ns, n.IsTyped) :
  walk ns = ns
  := by
  have hnode : ∀ n ∈ ns, Tree.walk n = [n] := by
    intro n hn
    obtain ⟨l, s⟩ := n
    obtain ⟨v, bold, italic, textMode, scale, hshape⟩ := (h _ hn).shape
    obtain rfl : s = _ := hshape
    rw [Tree.walk_mk]
    rfl
  rw [walk, List.flatMap_congr hnode, List.flatMap_singleton']

/-- Typed texts are legible if they have no blanks but spaces, and no run in text mode is an
ampersand alone. -/
theorem legible_typed (h : ∀ n ∈ ns, n.IsTyped)
    (hchars : ∀ n ∈ ns, ∀ c ∈ n.shape.value, isTextChar c = true)
    (hlone : ∀ r ∈ runs ns, (∀ n ∈ r, ∃ v scale, n.shape = .text v { textMode := true } scale) →
      r.flatMap (·.shape.value) ≠ ['＆']) (structural : Bool) :
  Legible structural ns
  where
  spares := by
    constructor
    · intro g hg n hn w hw
      have hmem := mem_of_mem_groups hg (List.mem_of_mem_head? hn)
      rw [(h n hmem).outer_eq_nil] at hw
      contradiction
    · intro g hg r hr n hn F hF hformat
      obtain rfl := eq_of_mem_groups_typed h hg
      apply hlone r hr
      intro k hk
      rw [run?_eq_of_mem_runs hr (List.mem_of_mem_head? hn) hk] at hF
      obtain ⟨v, scale, hshape⟩ := Node.exists_text_of_run? hF
      exact ⟨v, scale, by rw [hshape, hformat]⟩
  nodes n hn := by
    rw [walk_typed h] at hn
    have houter := (h n hn).outer_eq_nil
    obtain ⟨v, bold, italic, textMode, scale, hshape⟩ := (h n hn).shape
    have hn := hchars n hn
    rw [hshape] at hn
    constructor
    · simp [houter]
    · simp [houter]
    · rw [hshape]
      refine ⟨hn, ?_⟩
      intro c hc
      contradiction
    · rw [hshape]
      intro slot hslot
      contradiction
    · rw [hshape]
      intro hgrid
      contradiction

/-- Typed texts are equivalent to what their markup is read as. -/
theorem exists_equivalent_typed (h : ∀ n ∈ ns, n.IsTyped)
    (hchars : ∀ n ∈ ns, ∀ c ∈ n.shape.value, isTextChar c = true)
    (hlone : ∀ r ∈ runs ns, (∀ n ∈ r, ∃ v scale, n.shape = .text v { textMode := true } scale) →
      r.flatMap (·.shape.value) ≠ ['＆']) (supply : Supply) :
  ∃ markup again, toMarkup .builtin config.write ns = .ok markup
    ∧ ((ofMarkup .builtin config markup).runOn supply).1 = .ok again
    ∧ equivalent again ns = .ok true
  := by
  apply (legible_typed h hchars hlone config.write.structural).exists_again
  apply exists_canonicalForm
  intro n hn o ho
  rw [walk_typed h] at hn
  obtain ⟨v, bold, italic, textMode, scale, hshape⟩ := (h n hn).shape
  rw [hshape] at ho
  contradiction

/-- A bold text and a text with a fullwidth ampersand, both in text mode. -/
def typedTexts : List Node :=
  [Node.plain 1 (.text "if x~".toList { bold := true, textMode := true } none),
    Node.plain 2 (.text "＆ ≤".toList { textMode := true } none)]

theorem exists_equivalent_typedTexts :
  (∀ n ∈ typedTexts, n.IsTyped)
    ∧ (∀ n ∈ typedTexts, ∀ c ∈ n.shape.value, isTextChar c = true)
    ∧ (∀ r ∈ runs typedTexts,
      (∀ n ∈ r, ∃ v scale, n.shape = .text v { textMode := true } scale) →
        r.flatMap (·.shape.value) ≠ ['＆'])
    ∧ ∃ markup again, toMarkup .builtin {} typedTexts = .ok markup
      ∧ ((ofMarkup .builtin {} markup).runOn {}).1 = .ok again
      ∧ equivalent again typedTexts = .ok true
  := by
  have htyped : ∀ n ∈ typedTexts, n.IsTyped := by
    intro n hn
    simp only [typedTexts, List.mem_cons, List.not_mem_nil, or_false] at hn
    rcases hn with rfl | rfl
    · exact ⟨rfl, _, _, _, _, _, rfl⟩
    · exact ⟨rfl, _, _, _, _, _, rfl⟩
  have hchars : ∀ n ∈ typedTexts, ∀ c ∈ n.shape.value, isTextChar c = true := by decide
  have hlone : ∀ r ∈ runs typedTexts, r.flatMap (·.shape.value) ≠ ['＆'] := by decide
  have hruns := fun r hr (_ : ∀ n ∈ r, ∃ v scale,
    Tree.shape n = .text v { textMode := true } scale) => hlone r hr
  exact ⟨htyped, hchars, hruns, @exists_equivalent_typed {} _ htyped hchars hruns {}⟩

end Formula
