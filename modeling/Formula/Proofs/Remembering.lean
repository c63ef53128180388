import Formula.Proofs.Factory
import Formula.Rendering.Render
import Mathlib.Data.Finset.Card
import Mathlib.Data.Finset.Dedup

/-!
# Remembered drawings

A renderer that remembers what it has drawn answers like one that remembers nothing, and its
engine draws every pair of a layout and a markup once until it is told to forget.  This rests
on the texts that the results are remembered under: they tell the layout and the markup
apart, whatever the markup ends with, so that only their digests could coincide.
-/

namespace Formula

/-- What a renderer is asked for: the chosen layout, if any, and the markup. -/
abbrev Drawing := Option Bool × Text

namespace Drawing

/-- The text whose digest a result is remembered under. -/
def keyText (p : Drawing) : Text :=
  p.2 ++ '_' ::
    match p.1 with
    | none => "None".toList
    | some true => "True".toList
    | some false => "False".toList

theorem cacheKey_eq (p : Drawing) :
  cacheKey p.1 p.2 = Digest.ofText p.keyText
  := rfl

/-- The layout and the markup can be told from the text. -/
theorem keyText_injective :
  Function.Injective keyText
  := by
  rintro ⟨display, markup⟩ ⟨display', markup'⟩ h
  -- read backwards, the texts differ in the second character unless the layouts agree
  have hback := congrArg List.reverse h
  rcases display with _ | _ | _ <;> rcases display' with _ | _ | _ <;>
    simp [keyText] at hback ⊢ <;> exact hback

/-- Whether an engine draws the markup between its delimiters. -/
def isDrawn (engine : Engine) (p : Drawing) : Bool :=
  (engine.draw (Layout.wrap p.1 p.2)).toBool

/-- What an engine makes of the markup between its delimiters: a picture or an error. -/
def result (engine : Engine) (p : Drawing) : RenderResult :=
  match engine.draw (Layout.wrap p.1 p.2) with
  | .ok picture => { picture := some picture }
  | .error message => { error := some message }

end Drawing

/-- A step in the use of a renderer: an equation is rendered while the engine is there or is not
there, or the renderer is told to forget. -/
inductive RenderStep where
  | render (available : Bool) (display : Option Bool) (ns : List Node)
  | clear

namespace RenderStep

variable (t : SymbolTable) (config : Config)

/-- What the renderer is asked for in a step, if the engine is there and the equation can be
written. -/
def asked? : RenderStep → Option Drawing
  | .render true display ns =>
    match toMarkup t config.write ns with
    | .ok markup => some (display, markup)
    | .error _ => none
  | _ => none

theorem asked?_of_ok (display : Option Bool) {ns : List Node} {markup : Text}
    (h : toMarkup t config.write ns = .ok markup) :
  (render true display ns).asked? t config = some (display, markup)
  := by
  rw [asked?, h]

/-- What is asked for in some steps. -/
def asked (steps : List RenderStep) : List Drawing := steps.filterMap (asked? t config)

/-- What is asked for in some steps and can be drawn. -/
def drawings (engine : Engine) (steps : List RenderStep) : Finset Drawing :=
  ((asked t config steps).filter (·.isDrawn engine)).toFinset

/-- The error of a step: the engine is not there, or it fails on the markup. -/
def failure? (engine : Engine) : RenderStep → Option Text
  | .render false _ _ => some (engine.name ++ " not available".toList)
  | .render true display ns =>
    match toMarkup t config.write ns with
    | .ok markup => (Drawing.result engine (display, markup)).error
    | .error _ => none
  | .clear => none

theorem failure?_of_ok {engine : Engine} {display : Option Bool} {ns : List Node}
    {markup : Text} (h : toMarkup t config.write ns = .ok markup) :
  (render true display ns).failure? t config engine
    = (Drawing.result engine (display, markup)).error
  := by
  rw [failure?, h]

/-- What a step answers without a look at what was drawn before. -/
def expected (engine : Engine) : RenderStep → Option (Except Fault RenderResult)
  | .render false _ _ =>
    some (.ok { error := some (engine.name ++ " not available".toList) })
  | .render true display ns =>
    some ((toMarkup t config.write ns).map fun markup => Drawing.result engine (display, markup))
  | .clear => none

end RenderStep

namespace Renderer

open Drawing RenderStep

/-- The renderer with its engine there, or not there. -/
def setAvailable (r : Renderer) (available : Bool) : Renderer :=
  { r with engine := { r.engine with available } }

section Steps

variable (t : SymbolTable) (config : Config)

/-- What a request answers, and the renderer after a step.  An equation that cannot be written is
refused and leaves the renderer as it is. -/
def answer (r : Renderer) : RenderStep → Option (Except Fault RenderResult) × Renderer
  | .render available display ns =>
    match (r.setAvailable available).render t config display ns with
    | .ok (result, r') => (some (.ok result), r')
    | .error fault => (some (.error fault), r)
  | .clear => (none, r.clear)

/-- What the steps answer, one after the other. -/
def answers (r : Renderer) : List RenderStep → List (Option (Except Fault RenderResult))
  | [] => []
  | step :: steps => (r.answer t config step).1 :: answers (r.answer t config step).2 steps

/-- The renderer after some steps. -/
def after (r : Renderer) (steps : List RenderStep) : Renderer :=
  steps.foldl (fun r step => (r.answer t config step).2) r

end Steps

variable {t : SymbolTable} {config : Config} {engine : Engine} {r : Renderer}
  {pairs : Finset Drawing} {start : Nat}

/-! ### Single requests -/

/-- The renderer draws with the engine, and remembers what the engine makes of the given pairs,
which it has drawn since it had drawn `start` times. -/
structure Remembers (r : Renderer) (engine : Engine) (pairs : Finset Drawing) (start : Nat) :
    Prop where
  draw : r.engine.draw = engine.draw
  name : r.engine.name = engine.name
  caches : r.cache.isSome = true
  recalled : ∀ key result, r.known? key = some result →
    ∃ p ∈ pairs, cacheKey p.1 p.2 = key ∧ p.result engine = result
  known : ∀ p ∈ pairs, (r.known? (cacheKey p.1 p.2)).isSome = true ∧ p.isDrawn engine = true
  drawn : r.drawn = start + pairs.card

/-- The renderer that remembers nothing draws with the engine. -/
structure Forgets (r : Renderer) (engine : Engine) : Prop where
  draw : r.engine.draw = engine.draw
  name : r.engine.name = engine.name
  caches : r.cache = none

theorem known?_remember {key key' : Text} {result : RenderResult} (h : r.cache.isSome = true) :
  (r.remember key result).known? key' = if key' = key then some result else r.known? key'
  := by
  obtain ⟨entries, hentries⟩ := Option.isSome_iff_exists.1 h
  simp only [known?, remember, hentries, Option.map_some, Option.bind_some, List.lookup_cons]
  split <;> simp_all

namespace Remembers

variable (h : r.Remembers engine pairs start)

include h

/-- A pair that was drawn is recalled, where no other pair has its key. -/
theorem renderMarkup_of_mem {p : Drawing} (hp : p ∈ pairs)
    (hfree : ∀ q ∈ pairs, cacheKey q.1 q.2 = cacheKey p.1 p.2 → q = p) :
  r.renderMarkup p.1 p.2 = (p.result engine, r)
  := by
  obtain ⟨result, hresult⟩ := Option.isSome_iff_exists.1 (h.known p hp).1
  obtain ⟨q, hq, hkey, hq'⟩ := h.recalled _ _ hresult
  rw [hfree q hq hkey] at hq'
  rw [renderMarkup]
  simp only [hresult, hq']

/-- A pair that was not drawn is not known, where no other pair has its key. -/
theorem known?_eq_none {p : Drawing} (hp : p ∉ pairs)
    (hfree : ∀ q ∈ pairs, cacheKey q.1 q.2 = cacheKey p.1 p.2 → q = p) :
  r.known? (cacheKey p.1 p.2) = none
  := by
  cases hknown : r.known? (cacheKey p.1 p.2) with
  | none => rfl
  | some result =>
    obtain ⟨q, hq, hkey, -⟩ := h.recalled _ _ hknown
    rw [hfree q hq hkey] at hq
    contradiction

/-- A pair that the engine does not draw gives an error, and the renderer stays as it is. -/
theorem renderMarkup_of_not_isDrawn {p : Drawing} (hp : p.isDrawn engine = false)
    (hfree : ∀ q ∈ pairs, cacheKey q.1 q.2 = cacheKey p.1 p.2 → q = p) :
  r.renderMarkup p.1 p.2 = (p.result engine, r)
  := by
  have hmem : p ∉ pairs := by
    intro hmem
    rw [(h.known p hmem).2] at hp
    contradiction
  rw [renderMarkup]
  simp only [h.known?_eq_none hmem hfree, h.draw, Drawing.result]
  rw [isDrawn] at hp
  cases hdraw : engine.draw (Layout.wrap p.1 p.2) with
  | ok picture =>
    rw [hdraw] at hp
    contradiction
  | error message => rfl

/-- A pair that is drawn for the first time is remembered. -/
theorem renderMarkup_of_not_mem {p : Drawing} (hmem : p ∉ pairs) (hp : p.isDrawn engine = true)
    (hfree : ∀ q ∈ pairs, cacheKey q.1 q.2 = cacheKey p.1 p.2 → q = p) :
  (r.renderMarkup p.1 p.2).1 = p.result engine
    ∧ (r.renderMarkup p.1 p.2).2.Remembers engine (insert p pairs) start
  := by
  have hnone := h.known?_eq_none hmem hfree
  obtain ⟨picture, hdraw⟩ : ∃ picture, engine.draw (Layout.wrap p.1 p.2) = .ok picture := by
    rw [isDrawn] at hp
    cases hdraw : engine.draw (Layout.wrap p.1 p.2) with
    | ok picture => use picture
    | error message =>
      rw [hdraw] at hp
      contradiction
  have hresult : p.result engine = { picture := some picture } := by
    rw [Drawing.result, hdraw]
  have hrender : r.renderMarkup p.1 p.2
      = (p.result engine, r.remember (cacheKey p.1 p.2) (p.result engine)) := by
    rw [renderMarkup]
    simp only [hnone, h.draw, hdraw, hresult]
  rw [hrender]
  refine ⟨rfl, ⟨h.draw, h.name, ?_, ?_, ?_, ?_⟩⟩
  · simpa [remember] using h.caches
  · intro key result hknown
    rw [known?_remember h.caches] at hknown
    split at hknown
    · rename_i hkey
      exact ⟨p, Finset.mem_insert_self _ _, hkey.symm, Option.some.inj hknown⟩
    · obtain ⟨q, hq, hkey, hq'⟩ := h.recalled _ _ hknown
      exact ⟨q, Finset.mem_insert_of_mem hq, hkey, hq'⟩
  · intro q hq
    rw [known?_remember h.caches]
    obtain rfl | hq := Finset.mem_insert.1 hq
    · simpa using hp
    · obtain ⟨hknown, hdrawn⟩ := h.known q hq
      refine ⟨?_, hdrawn⟩
      split
      · rfl
      · apply hknown
  · rw [Finset.card_insert_of_notMem hmem, ← Nat.add_assoc, ← h.drawn]
    rfl

/-- A request answers what the engine makes of it, and is remembered if it could be drawn. -/
theorem renderMarkup {p : Drawing}
    (hfree : ∀ q ∈ pairs, cacheKey q.1 q.2 = cacheKey p.1 p.2 → q = p) :
  (r.renderMarkup p.1 p.2).1 = p.result engine
    ∧ (r.renderMarkup p.1 p.2).2.Remembers engine
      (if p.isDrawn engine = true then insert p pairs else pairs) start
  := by
  by_cases hp : p.isDrawn engine = true
  · rw [if_pos hp]
    by_cases hmem : p ∈ pairs
    · rw [Finset.insert_eq_of_mem hmem, h.renderMarkup_of_mem hmem hfree]
      exact ⟨rfl, h⟩
    · apply h.renderMarkup_of_not_mem hmem hp hfree
  · rw [if_neg hp, h.renderMarkup_of_not_isDrawn (by simpa using hp) hfree]
    exact ⟨rfl, h⟩

/-- After forgetting nothing is remembered, and the drawings are counted anew. -/
theorem clear :
  r.clear.Remembers engine ∅ r.drawn
  := by
  obtain ⟨entries, hentries⟩ := Option.isSome_iff_exists.1 h.caches
  refine ⟨h.draw, h.name, ?_, ?_, by simp, rfl⟩
  · simp [Renderer.clear, hentries]
  · intro key result hknown
    simp [known?, Renderer.clear, hentries] at hknown

theorem setAvailable (available : Bool) :
  (r.setAvailable available).Remembers engine pairs start
  := { h with }

end Remembers

/-! ### Single steps -/

section Steps

variable {display : Option Bool} {ns : List Node} {markup : Text} {step : RenderStep}
  {steps : List RenderStep}

theorem answer_unavailable :
  r.answer t config (.render false display ns)
    = (some (.ok { error := some (r.engine.name ++ " not available".toList) }),
      r.setAvailable false)
  := rfl

theorem answer_written (h : toMarkup t config.write ns = .ok markup) :
  r.answer t config (.render true display ns)
    = (some (.ok ((r.setAvailable true).renderMarkup display markup).1),
      ((r.setAvailable true).renderMarkup display markup).2)
  := by
  have hrender : (r.setAvailable true).render t config display ns
      = .ok ((r.setAvailable true).renderMarkup display markup) := by
    rw [render, h]
    rfl
  rw [answer, hrender]

theorem answer_unwritten {fault : Fault} (h : toMarkup t config.write ns = .error fault) :
  r.answer t config (.render true display ns) = (some (.error fault), r)
  := by
  have hrender : (r.setAvailable true).render t config display ns = .error fault := by
    rw [render, h]
    rfl
  rw [answer, hrender]

/-- A renderer with the engine answers as expected when what it is asked for gives what the
engine makes of it. -/
theorem answer_eq_expected (hname : r.engine.name = engine.name)
    (h : ∀ p ∈ step.asked? t config,
      ((r.setAvailable true).renderMarkup p.1 p.2).1 = p.result engine) :
  (r.answer t config step).1 = step.expected t config engine
  := by
  cases step with
  | clear => rfl
  | render available display ns =>
    cases available with
    | false => rw [answer_unavailable, hname, expected]
    | true =>
      cases hwrite : toMarkup t config.write ns with
      | error fault =>
        rw [answer_unwritten hwrite, expected, hwrite]
        rfl
      | ok markup =>
        rw [answer_written hwrite, h _ (asked?_of_ok _ _ _ hwrite), expected, hwrite]
        rfl

end Steps

/-! ### Runs -/

section Runs

variable {step : RenderStep} {steps before since : List RenderStep} {all : Finset Drawing}

theorem asked_cons (step : RenderStep) (steps : List RenderStep) :
  asked t config (step :: steps) = asked t config [step] ++ asked t config steps
  := List.filterMap_append (l := [step])

theorem mem_asked_singleton {p : Drawing} :
  p ∈ asked t config [step] ↔ p ∈ step.asked? t config
  := by
  simp [asked]

theorem drawings_cons :
  drawings t config engine (step :: steps)
    = drawings t config engine [step] ∪ drawings t config engine steps
  := by
  rw [drawings, asked_cons, List.filter_append, List.toFinset_append]
  rfl

theorem drawings_subset (h : ∀ p ∈ asked t config steps, p ∈ all) :
  drawings t config engine steps ⊆ all
  := by
  intro p hp
  simp only [drawings, List.mem_toFinset, List.mem_filter] at hp
  apply h p hp.1

theorem drawings_singleton {p : Drawing} (h : step.asked? t config = some p) :
  drawings t config engine [step] = if p.isDrawn engine = true then {p} else ∅
  := by
  simp only [drawings, asked, List.filterMap_cons, h, List.filterMap_nil, List.filter_cons,
    List.filter_nil]
  split <;> simp

theorem drawings_singleton_of_none (h : step.asked? t config = none) :
  drawings t config engine [step] = ∅
  := by
  simp [drawings, asked, h]

/-- If no step fails, everything that was asked for was drawn. -/
theorem drawings_eq_asked (h : ∀ step ∈ steps, step.failure? t config engine = none) :
  drawings t config engine steps = (asked t config steps).toFinset
  := by
  rw [drawings, List.filter_eq_self.2]
  intro p hp
  obtain ⟨step, hstep, hasked⟩ := List.mem_filterMap.1 hp
  have hfailure := h step hstep
  rcases step with ⟨_ | _, display, ns⟩ | _
  · cases hasked
  · simp only [asked?, failure?] at hasked hfailure
    cases hwrite : toMarkup t config.write ns with
    | error fault => simp [hwrite] at hasked
    | ok markup =>
      simp only [hwrite, Option.some.injEq] at hasked hfailure
      subst hasked
      rw [isDrawn]
      cases hdraw : engine.draw (Layout.wrap display markup) with
      | ok picture => rfl
      | error message => simp [Drawing.result, hdraw] at hfailure
  · cases hasked

variable (hfree : ∀ p ∈ all, ∀ q ∈ all, cacheKey p.1 p.2 = cacheKey q.1 q.2 → p = q)

include hfree

/-- A step answers as expected. -/
theorem Remembers.answer (h : r.Remembers engine pairs start) (hpairs : pairs ⊆ all)
    (hstep : ∀ p ∈ asked t config [step], p ∈ all) :
  (r.answer t config step).1 = step.expected t config engine
  := by
  apply answer_eq_expected h.name
  intro p hp
  apply ((h.setAvailable true).renderMarkup _).1
  intro q hq
  apply hfree q (hpairs hq) p (hstep p (mem_asked_singleton.2 hp))

/-- A request adds what it draws to what is remembered. -/
theorem Remembers.after_request (h : r.Remembers engine pairs start) (hpairs : pairs ⊆ all)
    (hstep : ∀ p ∈ asked t config [step], p ∈ all) (hclear : step ≠ .clear) :
  (r.answer t config step).2.Remembers engine (pairs ∪ drawings t config engine [step]) start
  := by
  rcases step with ⟨_ | _, display, ns⟩ | _
  · rw [drawings_singleton_of_none rfl, Finset.union_empty]
    apply h.setAvailable
  · cases hwrite : toMarkup t config.write ns with
    | error fault =>
      have hasked : (RenderStep.render true display ns).asked? t config = none := by
        rw [asked?, hwrite]
      rw [drawings_singleton_of_none hasked, Finset.union_empty, answer_unwritten hwrite]
      exact h
    | ok markup =>
      have hasked := asked?_of_ok t config display hwrite
      have hrender := ((h.setAvailable true).renderMarkup (p := (display, markup)) fun q hq =>
        hfree q (hpairs hq) _ (hstep _ (mem_asked_singleton.2 hasked))).2
      rw [drawings_singleton hasked, answer_written hwrite]
      split at hrender
      · rename_i hdrawn
        rwa [if_pos hdrawn, Finset.union_comm]
      · rename_i hdrawn
        rwa [if_neg hdrawn, Finset.union_empty]
  · contradiction

/-- The steps answer as expected, whether or not the renderer is told to forget. -/
theorem Remembers.answers (h : r.Remembers engine pairs start) (hpairs : pairs ⊆ all)
    (hsteps : ∀ p ∈ asked t config steps, p ∈ all) :
  r.answers t config steps = steps.map (·.expected t config engine)
    ∧ ∃ pairs' ⊆ all, ∃ start', (r.after t config steps).Remembers engine pairs' start'
  := by
  induction steps generalizing r pairs start with
  | nil => exact ⟨rfl, pairs, hpairs, start, h⟩
  | cons step steps ih =>
    simp only [asked_cons step steps, List.mem_append, or_imp, forall_and] at hsteps
    obtain ⟨hstep, hrest⟩ := hsteps
    obtain ⟨pairs', hpairs', start', h'⟩ : ∃ pairs' ⊆ all, ∃ start',
        (r.answer t config step).2.Remembers engine pairs' start' := by
      by_cases hclear : step = .clear
      · subst hclear
        exact ⟨∅, Finset.empty_subset _, _, h.clear⟩
      · exact ⟨_, Finset.union_subset hpairs (drawings_subset hstep), _,
          h.after_request hfree hpairs hstep hclear⟩
    obtain ⟨hanswers, hafter⟩ := ih h' hpairs' hrest
    refine ⟨?_, hafter⟩
    rw [Renderer.answers, h.answer hfree hpairs hstep, hanswers, List.map_cons]

/-- While the renderer is not told to forget, it remembers everything that it draws. -/
theorem Remembers.after (h : r.Remembers engine pairs start) (hpairs : pairs ⊆ all)
    (hsteps : ∀ p ∈ asked t config steps, p ∈ all) (hclear : RenderStep.clear ∉ steps) :
  (r.after t config steps).Remembers engine (pairs ∪ drawings t config engine steps) start
  := by
  induction steps generalizing r pairs with
  | nil => simpa [drawings, asked, Renderer.after] using h
  | cons step steps ih =>
    simp only [asked_cons step steps, List.mem_append, or_imp, forall_and] at hsteps
    obtain ⟨hstep, hrest⟩ := hsteps
    rw [List.mem_cons, not_or] at hclear
    rw [drawings_cons, ← Finset.union_assoc]
    apply ih (h.after_request hfree hpairs hstep (Ne.symm hclear.1))
      (Finset.union_subset hpairs (drawings_subset hstep)) hrest hclear.2

/-- A failing step answers with its error and leaves what is remembered as it is. -/
theorem Remembers.answer_of_failure {message : Text} (h : r.Remembers engine pairs start)
    (hpairs : pairs ⊆ all) (hstep : ∀ p ∈ asked t config [step], p ∈ all)
    (hfailure : step.failure? t config engine = some message) :
  (r.answer t config step).1 = some (.ok { error := some message })
    ∧ (r.answer t config step).2.cache = r.cache
  := by
  rcases step with ⟨_ | _, display, ns⟩ | _
  · cases hfailure
    rw [answer_unavailable, h.name]
    exact ⟨rfl, rfl⟩
  · simp only [failure?] at hfailure
    cases hwrite : toMarkup t config.write ns with
    | error fault => simp [hwrite] at hfailure
    | ok markup =>
      have hasked := asked?_of_ok t config display hwrite
      cases hdraw : engine.draw (Layout.wrap display markup) with
      | ok picture => simp [hwrite, Drawing.result, hdraw] at hfailure
      | error found =>
        have hresult : Drawing.result engine (display, markup) = { error := some found } := by
          rw [Drawing.result, hdraw]
        have hrender := (h.setAvailable true).renderMarkup_of_not_isDrawn
          (p := (display, markup)) (by simp [isDrawn, hdraw, Except.toBool])
          fun q hq => hfree q (hpairs hq) _ (hstep _ (mem_asked_singleton.2 hasked))
        simp only [hwrite, hresult, Option.some.injEq] at hfailure
        rw [answer_written hwrite, hrender, hresult, hfailure]
        exact ⟨rfl, rfl⟩
  · cases hfailure

end Runs

namespace Forgets

variable (h : r.Forgets engine)

include h

theorem setAvailable (available : Bool) :
  (r.setAvailable available).Forgets engine
  := { h with }

/-- A request answers what the engine makes of it. -/
theorem renderMarkup {p : Drawing} :
  (r.renderMarkup p.1 p.2).1 = p.result engine ∧ (r.renderMarkup p.1 p.2).2.Forgets engine
  := by
  have hnone : r.known? (cacheKey p.1 p.2) = none := by
    rw [known?, h.caches, Option.bind_none]
  rw [Renderer.renderMarkup]
  simp only [hnone, h.draw, Drawing.result]
  cases engine.draw (Layout.wrap p.1 p.2) with
  | ok picture => exact ⟨rfl, ⟨h.draw, h.name, by simp [remember, h.caches]⟩⟩
  | error message => exact ⟨rfl, h⟩

theorem answer {step : RenderStep} :
  (r.answer t config step).1 = step.expected t config engine
    ∧ (r.answer t config step).2.Forgets engine
  := by
  constructor
  · apply answer_eq_expected h.name
    intro p _
    apply ((h.setAvailable true).renderMarkup).1
  · rcases step with ⟨_ | _, display, ns⟩ | _
    · apply h.setAvailable
    · cases hwrite : toMarkup t config.write ns with
      | error fault =>
        rw [answer_unwritten hwrite]
        exact h
      | ok markup =>
        rw [answer_written hwrite]
        apply ((h.setAvailable true).renderMarkup (p := (display, markup))).2
    · exact ⟨h.draw, h.name, by simp [Renderer.answer, Renderer.clear, h.caches]⟩

/-- The steps answer as expected. -/
theorem answers {steps : List RenderStep} :
  r.answers t config steps = steps.map (·.expected t config engine)
  := by
  induction steps generalizing r with
  | nil => rfl
  | cons step steps ih =>
    rw [Renderer.answers, h.answer.1, ih h.answer.2, List.map_cons]

end Forgets

theorem after_append (r : Renderer) (steps steps' : List RenderStep) :
  r.after t config (steps ++ steps') = (r.after t config steps).after t config steps'
  := List.foldl_append

/-- A new renderer has drawn nothing. -/
theorem remembers_new (engine : Engine) :
  ({ engine } : Renderer).Remembers engine ∅ 0
  := ⟨rfl, rfl, rfl, by simp [known?], by simp, rfl⟩

/-- After a start, or after it is told to forget, a renderer remembers nothing. -/
theorem remembers_none {before : List RenderStep} {all : Finset Drawing}
    (hfree : ∀ p ∈ all, ∀ q ∈ all, cacheKey p.1 p.2 = cacheKey q.1 q.2 → p = q)
    (hbefore : ∀ p ∈ asked t config before, p ∈ all)
    (h : before = [] ∨ ∃ earlier, before = earlier ++ [.clear]) :
  (({ engine } : Renderer).after t config before).Remembers engine ∅
    (({ engine } : Renderer).after t config before).drawn
  := by
  obtain rfl | ⟨earlier, rfl⟩ := h
  · apply remembers_new
  · rw [asked, List.filterMap_append] at hbefore
    obtain ⟨-, pairs, -, start, hearlier⟩ := (remembers_new engine).answers hfree
      (Finset.empty_subset _) fun p hp => hbefore p (List.mem_append_left _ hp)
    rw [after_append]
    apply hearlier.clear

/-- Remembering drawings cannot be told from the answers, and saves all drawings but the first of
each layout and markup, if no two of the texts that the results of a run are remembered under
share a digest.  The engine makes the same of the same text whenever it is there; it may fail
on texts, and may be there in some steps only.

For every run of requests and clearings:
the answers are those of a renderer that remembers nothing;
since the start or the last clearing, the engine has drawn every pair of a layout and a markup
that was asked for and can be drawn once, and these are all that were asked for if no
request failed;
and a request that fails answers with its error and leaves what is remembered as it is. -/
theorem answers_eq_uncached (t : SymbolTable) (config : Config) (engine : Engine)
    (steps : List RenderStep)
    (hfree : ∀ p ∈ asked t config steps, ∀ q ∈ asked t config steps,
      Digest.ofText p.keyText = Digest.ofText q.keyText → p.keyText = q.keyText) :
  ({ engine } : Renderer).answers t config steps
      = ({ engine, cache := none } : Renderer).answers t config steps
    ∧ (∀ before since : List RenderStep, steps = before ++ since →
      (before = [] ∨ ∃ earlier, before = earlier ++ [.clear]) → .clear ∉ since →
      (({ engine } : Renderer).after t config steps).drawn
          = (({ engine } : Renderer).after t config before).drawn
            + (drawings t config engine since).card
        ∧ ((∀ step ∈ since, step.failure? t config engine = none) →
          drawings t config engine since = (asked t config since).toFinset))
    ∧ ∀ (before : List RenderStep) (step : RenderStep) (rest : List RenderStep)
      (message : Text),
      steps = before ++ step :: rest → step.failure? t config engine = some message →
      ((({ engine } : Renderer).after t config before).answer t config step).1
          = some (.ok { error := some message })
        ∧ ((({ engine } : Renderer).after t config before).answer t config step).2.cache
          = (({ engine } : Renderer).after t config before).cache
  := by
  have hkeys : ∀ p ∈ (asked t config steps).toFinset, ∀ q ∈ (asked t config steps).toFinset,
      cacheKey p.1 p.2 = cacheKey q.1 q.2 → p = q := by
    intro p hp q hq hkey
    rw [cacheKey_eq, cacheKey_eq] at hkey
    apply keyText_injective
    apply hfree p (List.mem_toFinset.1 hp) q (List.mem_toFinset.1 hq) hkey
  have hnew := remembers_new engine
  have hnone := Finset.empty_subset (asked t config steps).toFinset
  refine ⟨?_, ?_, ?_⟩
  · have hforgets : ({ engine, cache := none } : Renderer).Forgets engine := ⟨rfl, rfl, rfl⟩
    rw [(hnew.answers hkeys hnone fun p hp => List.mem_toFinset.2 hp).1, hforgets.answers]
  · rintro before since rfl hbefore hsince
    have hasked : ∀ p, p ∈ asked t config before ∨ p ∈ asked t config since →
        p ∈ (asked t config (before ++ since)).toFinset := by
      simp [asked]
    have hstart : (({ engine } : Renderer).after t config before).Remembers engine ∅ _ :=
      remembers_none hkeys (fun p hp => hasked p (.inl hp)) hbefore
    have hend := hstart.after hkeys hnone (fun p hp => hasked p (.inr hp)) hsince
    rw [Finset.empty_union, ← after_append] at hend
    exact ⟨hend.drawn, drawings_eq_asked⟩
  · rintro before step rest message rfl hfailure
    have hasked : ∀ p, p ∈ asked t config before ∨ p ∈ asked t config [step] →
        p ∈ (asked t config (before ++ step :: rest)).toFinset := by
      intro p hp
      rw [List.mem_toFinset, asked, List.filterMap_append, List.mem_append]
      refine hp.imp_right fun hp => ?_
      rw [← asked, asked_cons]
      apply List.mem_append_left _ hp
    obtain ⟨-, pairs, hpairs, start, hbefore⟩ :=
      hnew.answers hkeys hnone fun p hp => hasked p (.inl hp)
    apply hbefore.answer_of_failure hkeys hpairs (fun p hp => hasked p (.inr hp)) hfailure

/-- An engine that puts a text between angle brackets, and fails on texts with the letter z. -/
def bracketing : Engine where
  name := "bracketing".toList
  draw s := if s.contains 'z' then .error "letter".toList else .ok ('<' :: s ++ ['>'])

/-- Requests for a character in two layouts and for a character that the engine fails on, one of
them without the engine. -/
def mixedRequests : List RenderStep :=
  [.render true none [charNode 'x'], .render true (some true) [charNode 'x'],
    .render false none [charNode 'x'], .render true none [charNode 'z'],
    .render true none [charNode 'x'], .render true none [charNode 'z']]

/-- The same requests before and after the renderer is told to forget. -/
def repeatedRequests : List RenderStep := mixedRequests ++ [.clear] ++ mixedRequests

theorem answers_eq_uncached_repeated :
  (∀ p ∈ asked .builtin {} repeatedRequests, ∀ q ∈ asked .builtin {} repeatedRequests,
      Digest.ofText p.keyText = Digest.ofText q.keyText → p.keyText = q.keyText)
    ∧ ({ engine := bracketing } : Renderer).answers .builtin {} repeatedRequests
      = ({ engine := bracketing, cache := none } : Renderer).answers .builtin {} repeatedRequests
    ∧ (({ engine := bracketing } : Renderer).after .builtin {} repeatedRequests).drawn
      = (({ engine := bracketing } : Renderer).after .builtin {}
          (mixedRequests ++ [.clear])).drawn + 2
    ∧ ((({ engine := bracketing } : Renderer).after .builtin {}
          (mixedRequests ++ [.clear] ++ mixedRequests.dropLast)).answer .builtin {}
            (.render true none [charNode 'z'])).1
      = some (.ok { error := some "letter".toList })
  := by
  have hx : toMarkup .builtin {} [charNode 'x'] = .ok ['x'] :=
    toMarkup_of_plainText? rfl (by decide)
  have hz : toMarkup .builtin {} [charNode 'z'] = .ok ['z'] :=
    toMarkup_of_plainText? rfl (by decide)
  have hasked : asked .builtin {} mixedRequests
      = [(none, ['x']), (some true, ['x']), (none, ['z']), (none, ['x']), (none, ['z'])] := by
    have hnone : (RenderStep.render false none [charNode 'x']).asked? .builtin {} = none := rfl
    have hasked := asked?_of_ok .builtin {}
    simp only [asked, mixedRequests, List.filterMap_cons, List.filterMap_nil, hasked _ hx,
      hasked _ hz, hnone]
  -- the requests are for three pairs only, so that few digests are compared
  have hfree : ∀ p ∈ asked .builtin {} repeatedRequests,
      ∀ q ∈ asked .builtin {} repeatedRequests,
      Digest.ofText p.keyText = Digest.ofText q.keyText → p.keyText = q.keyText := by
    have hmem : ∀ p ∈ asked .builtin {} repeatedRequests,
        p ∈ [(none, ['x']), (some true, ['x']), (none, ['z'])] := by
      have happend : asked .builtin {} repeatedRequests
          = asked .builtin {} mixedRequests ++ [] ++ asked .builtin {} mixedRequests := by
        rw [repeatedRequests, asked, List.filterMap_append, List.filterMap_append]
        rfl
      rw [happend, hasked]
      decide
    have hkeys : ∀ p ∈ [(none, ['x']), (some true, ['x']), (none, ['z'])],
        ∀ q ∈ [(none, ['x']), (some true, ['x']), (none, ['z'])],
        Digest.ofText (keyText p) = Digest.ofText (keyText q) → keyText p = keyText q := by
      decide +kernel
    intro p hp q hq
    apply hkeys p (hmem p hp) q (hmem q hq)
  obtain ⟨hanswers, hdrawn, hfails⟩ :=
    answers_eq_uncached .builtin {} bracketing repeatedRequests hfree
  refine ⟨hfree, hanswers, ?_, ?_⟩
  · have hcard : (drawings .builtin {} bracketing mixedRequests).card = 2 := by
      rw [drawings, hasked]
      decide
    have hclear : RenderStep.clear ∉ mixedRequests := by simp [mixedRequests]
    have hlast := hdrawn (mixedRequests ++ [.clear]) mixedRequests rfl
      (.inr ⟨mixedRequests, rfl⟩) hclear
    rw [hcard] at hlast
    exact hlast.1
  · have hlist : repeatedRequests = mixedRequests ++ [.clear] ++ mixedRequests.dropLast
        ++ [.render true none [charNode 'z']] := by
      simp [repeatedRequests, mixedRequests]
    have hfailure : (RenderStep.render true none [charNode 'z']).failure? .builtin {} bracketing
        = some "letter".toList := by
      rw [failure?_of_ok .builtin {} hz]
      decide
    exact (hfails _ _ _ _ hlist hfailure).1

end Renderer

end Formula
