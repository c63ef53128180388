import Formula.Proofs.MarkedConstruct

/-!
# What is told from a markup

The family of the derivatives in a markup, and the layout that it calls for, are told from its
text alone.  For the markup that an equation is written as, they are what the constructs of the
equation and the choice of the family say.
-/

namespace Formula

open Writing

/-! ### Constructs that are told -/

namespace Shape

variable {α : Type}

/-- Whether a construct is a derivative. -/
def isDerivative : Shape α → Bool
  | .derivative .. => true
  | _ => false

/-- Whether a construct is laid out apart, where a derivative is if derivatives are written with
arguments. -/
def standsApart (structural : Bool) : Shape α → Bool
  | .fraction mode _ _ => mode = some .display
  | .bevelledFraction mode _ _ => mode = some .display
  | .largeOperator _ _ mode _ _ _ => mode = .display
  | .derivative _ _ _ mode _ _ => structural && mode = .display
  | .integral _ _ _ mode _ _ _ _ => mode = .display
  | _ => false

/-- A command of a family of derivatives marks derivatives only, and only in that family. -/
theorem any_markers_family (structural : Bool) (s : Shape α) :
  (s.markers structural).any (["dv", "pdv"].map String.toList).contains
      = (structural && s.isDerivative)
    ∧ (s.markers structural).any
        (["derivfrac", "derivdfrac", "derivlfrac", "derivldfrac"].map String.toList).contains
      = (!structural && s.isDerivative)
  := by
  cases s with
  | fraction mode => rcases mode with _ | _ | _ <;> cases structural <;> exact ⟨rfl, rfl⟩
  | bevelledFraction mode => rcases mode with _ | _ | _ <;> cases structural <;> exact ⟨rfl, rfl⟩
  | largeOperator _ _ mode => cases mode <;> cases structural <;> exact ⟨rfl, rfl⟩
  | derivative _ longForm isPartial mode =>
    cases structural <;> cases longForm <;> cases isPartial <;> cases mode <;> exact ⟨rfl, rfl⟩
  | integral _ _ _ mode => cases mode <;> cases structural <;> exact ⟨rfl, rfl⟩
  | _ => cases structural <;> exact ⟨rfl, rfl⟩

/-- A construct that stands apart has a marker that calls for it, and no other construct has. -/
theorem any_markers_standsApart (structural : Bool) (s : Shape α) :
  (s.markers structural).any
      (fun name => Layout.displayMarkers.any (·.isPrefixOf ('\\' :: name)))
    = s.standsApart structural
  := by
  cases s with
  | fraction mode => rcases mode with _ | _ | _ <;> cases structural <;> rfl
  | bevelledFraction mode => rcases mode with _ | _ | _ <;> cases structural <;> rfl
  | largeOperator _ _ mode => cases mode <;> cases structural <;> rfl
  | derivative _ longForm isPartial mode =>
    cases structural <;> cases longForm <;> cases isPartial <;> cases mode <;> rfl
  | integral _ _ _ mode => cases mode <;> cases structural <;> rfl
  | _ => cases structural <;> rfl

end Shape

/-! ### Telling from markers -/

namespace Marks

variable {m : Text} {names : List Text}

/-- Commands that are markers are found among the markers. -/
theorem containsCommand_eq (h : Marks m names) {l : List Text}
    (hl : ∀ name ∈ l, isMarker name = true) :
  containsCommand l m = names.any l.contains
  := by
  rw [Bool.eq_iff_iff, Text.containsCommand_iff, List.any_eq_true]
  constructor
  · rintro ⟨name, hname, hmem⟩
    exact ⟨name, (h.mem_iff name (hl name hmem)).1 hname, List.contains_iff_mem.2 hmem⟩
  · rintro ⟨name, hname, hmem⟩
    have hmem := List.contains_iff_mem.1 hmem
    exact ⟨name, (h.mem_iff name (hl name hmem)).2 hname, hmem⟩

/-- The texts that call for markup that stands apart are found among the markers. -/
theorem any_displayMarkers (h : Marks m names) :
  Layout.displayMarkers.any (fun marker => Text.containsText marker m)
    = names.any fun name => Layout.displayMarkers.any (·.isPrefixOf ('\\' :: name))
  := by
  have hcommand : ∀ marker ∈ Layout.displayMarkers,
      ∃ name, marker = '\\' :: name ∧ ∀ c ∈ name, Text.isLetter c = true := by
    intro marker hmarker
    have hletters : marker.head? = some '\\' ∧ ∀ c ∈ marker.tail, Text.isLetter c = true := by
      revert marker
      decide
    obtain ⟨hhead, hletters⟩ := hletters
    exact ⟨marker.tail, (List.eq_cons_of_mem_head? hhead), hletters⟩
  rw [Bool.eq_iff_iff, List.any_eq_true, List.any_eq_true]
  constructor
  · rintro ⟨marker, hmarker, hcontains⟩
    obtain ⟨name, rfl, hletters⟩ := hcommand marker hmarker
    obtain ⟨other, hother, hprefix⟩ := (Text.containsText_command_iff hletters).1 hcontains
    have hany : Layout.displayMarkers.any (·.isPrefixOf ('\\' :: other)) = true := by
      apply List.any_eq_true.2
      exact ⟨_, hmarker, List.isPrefixOf_iff_prefix.2 (List.cons_prefix_cons.2 ⟨rfl, hprefix⟩)⟩
    refine ⟨other, (h.mem_iff other ?_).1 hother, hany⟩
    rw [isMarker, hany, Bool.or_true]
  · rintro ⟨other, hother, hany⟩
    obtain ⟨marker, hmarker, hprefix⟩ := List.any_eq_true.1 hany
    obtain ⟨name, rfl, hletters⟩ := hcommand marker hmarker
    refine ⟨_, hmarker, (Text.containsText_command_iff hletters).2 ⟨other, ?_, ?_⟩⟩
    · apply (h.mem_iff other _).2 hother
      rw [isMarker, hany, Bool.or_true]
    · apply (List.cons_prefix_cons.1 (List.isPrefixOf_iff_prefix.1 hprefix)).2

end Marks

/-! ### Telling from an equation -/

variable {ns : List Node}

/-- The family of the derivatives in a markup is the one that it was written in, and none is told
exactly where there is no derivative. -/
theorem Writable.derivativeFamily?_toMarkup (h : Writable ns) (config : WriteConfig) :
  ∃ m, Formula.toMarkup .builtin config ns = .ok m
    ∧ derivativeFamily? m
      = if (walk ns).any (·.shape.isDerivative) then some config.structural else none
  := by
  obtain ⟨m, hm, hmarks⟩ := h.toMarkup config
  refine ⟨m, hm, ?_⟩
  rw [derivativeFamily?, hmarks.containsCommand_eq (by decide),
    hmarks.containsCommand_eq (by decide), markersOf, List.any_flatMap, List.any_flatMap]
  simp only [(Shape.any_markers_family _ _).1, (Shape.any_markers_family _ _).2]
  cases config.structural <;> simp

/-- A derivative of symbolic order in the bound of a bracket, which holds the name of a command of
the other family as a text. -/
def evaluatedSlope : Node :=
  .plain 0 (.bracket ['['] [']'] [.plain 0 (.text "\\derivfrac".toList {} none)] 0 none (some [])
    (some [.plain 0 (.derivative (.sequence [charNode 'n']) false true .display [charNode 'f']
      [charNode 'x'])]))

theorem writable_evaluatedSlope :
  Writable [evaluatedSlope]
  := by
  intro n hn
  have hmem : n = evaluatedSlope ∨ n = .plain 0 (.text "\\derivfrac".toList {} none)
      ∨ n = .plain 0 (.derivative (.sequence [charNode 'n']) false true .display [charNode 'f']
        [charNode 'x'])
      ∨ n = charNode 'n' ∨ n = charNode 'f' ∨ n = charNode 'x' := by
    simpa [walk, evaluatedSlope, charNode, Node.plain, Tree.walk_mk, Shape.children, Shape.slots,
      Shape.slots.present, Order.slot?] using hn
  have hchar : ∀ c, (charNode c).Writable := fun c =>
    ⟨⟨.text [c] {} none, {}, _, rfl, rfl⟩, fun _ h => by contradiction, fun _ h => by contradiction⟩
  rcases hmem with rfl | rfl | rfl | rfl | rfl | rfl
  · exact ⟨⟨.evaluationBracket "square".toList, {}, _, rfl, rfl⟩, fun _ h => by contradiction,
      by decide, by decide⟩
  · exact ⟨⟨.text "\\derivfrac".toList {} none, {}, _, rfl, rfl⟩, fun _ h => by contradiction,
      fun _ h => by contradiction⟩
  · exact ⟨⟨.derivative (.sequence []) false true .display, {}, _, rfl, rfl⟩,
      fun _ h => by contradiction, trivial⟩
  all_goals apply hchar

theorem derivativeFamily?_evaluatedSlope :
  Writable [evaluatedSlope] ∧ ∃ m,
    Formula.toMarkup .builtin { structural := true } [evaluatedSlope] = .ok m
      ∧ derivativeFamily? m = some true
  := by
  obtain ⟨m, hm, hfamily⟩ :=
    writable_evaluatedSlope.derivativeFamily?_toMarkup { structural := true }
  exact ⟨writable_evaluatedSlope, m, hm, hfamily⟩

/-- The delimiters that are told for a markup are those of markup that stands apart exactly where
some construct of the equation does. -/
theorem Writable.delimiters_toMarkup (h : Writable ns) (config : WriteConfig) :
  ∃ m, Formula.toMarkup .builtin config ns = .ok m
    ∧ (Layout.ofMarkup m).delimiters
      = if (walk ns).any (·.shape.standsApart config.structural) then
          ("\\[".toList, "\\]".toList)
        else ("\\(".toList, "\\)".toList)
  := by
  obtain ⟨m, hm, hmarks⟩ := h.toMarkup config
  refine ⟨m, hm, ?_⟩
  rw [Layout.ofMarkup, hmarks.any_displayMarkers, markersOf, List.any_flatMap]
  simp only [Shape.any_markers_standsApart]
  split <;> rfl

/-- The derivative stands apart if it is written with arguments, and not if it is written as a
fraction. -/
theorem delimiters_evaluatedSlope :
  Writable [evaluatedSlope]
    ∧ (∃ m, Formula.toMarkup .builtin { structural := true } [evaluatedSlope] = .ok m
      ∧ (Layout.ofMarkup m).delimiters = ("\\[".toList, "\\]".toList))
    ∧ ∃ m, Formula.toMarkup .builtin { structural := false } [evaluatedSlope] = .ok m
      ∧ (Layout.ofMarkup m).delimiters = ("\\(".toList, "\\)".toList)
  := by
  refine ⟨writable_evaluatedSlope, ?_, ?_⟩
  · exact writable_evaluatedSlope.delimiters_toMarkup { structural := true }
  · exact writable_evaluatedSlope.delimiters_toMarkup { structural := false }

end Formula
