import Formula.Proofs.Legible

/-!
# Written siblings

Siblings are written in groups that share their wrappers, and a group in runs of text and
single constructs.  If every construct is read as it is written, then so are the siblings.
-/

namespace Formula

open Markup Writing

/-! ### Splitting lists -/

section Lists

variable {α β : Type}

/-- Splitting commutes with a function on the elements. -/
theorem splitBy_map (f : α → β) (r : β → β → Bool) (l : List α) :
  (l.map f).splitBy r = (l.splitBy fun a b => r (f a) (f b)).map (List.map f)
  := by
  obtain ⟨hflatten, hne, hchain, hbreaks⟩ := List.splitBy_eq_iff.1
    (rfl : l.splitBy (fun a b => r (f a) (f b)) = l.splitBy fun a b => r (f a) (f b))
  apply List.splitBy_eq_iff.2
  refine ⟨?_, ?_, ?_, ?_⟩
  · rw [← List.map_flatten, ← hflatten]
  · intro hnil
    obtain ⟨g, hg, hnil⟩ := List.mem_map.1 hnil
    rw [List.map_eq_nil_iff.1 hnil] at hg
    apply hne hg
  · intro g hg
    obtain ⟨g', hg', rfl⟩ := List.mem_map.1 hg
    apply (List.isChain_map f).2 (hchain g' hg')
  · apply (List.isChain_map _).2
    apply hbreaks.imp
    rintro a b ⟨ha, hb, h⟩
    refine ⟨by simpa using ha, by simpa using hb, ?_⟩
    rw [List.getLast_map, List.head_map, h]

theorem flatten_map_flatMap (gs : List (List α)) (f : α → List β) :
  (gs.map (List.flatMap f)).flatten = gs.flatten.flatMap f
  := by
  induction gs with
  | nil => rfl
  | cons g gs ih => rw [List.map_cons, List.flatten_cons, ih, List.flatten_cons, List.flatMap_append]

/-- A computation for every element succeeds if each of them does. -/
theorem exists_mapM {ε : Type} {f : α → Except ε β} {R : α → β → Prop} {l : List α}
    (h : ∀ a ∈ l, ∃ b, f a = .ok b ∧ R a b) :
  ∃ bs, l.mapM f = .ok bs ∧ List.Forall₂ R l bs
  := by
  induction l with
  | nil =>
    refine ⟨[], ?_, List.Forall₂.nil⟩
    rw [List.mapM_nil]
    rfl
  | cons a l ih =>
    obtain ⟨b, hb, hR⟩ := h a List.mem_cons_self
    obtain ⟨bs, hbs, hRs⟩ := ih fun a ha => h a (List.mem_cons_of_mem _ ha)
    refine ⟨b :: bs, ?_, List.Forall₂.cons hR hRs⟩
    rw [List.mapM_cons, hb, hbs]
    rfl

theorem mapM_eq_ok {ε : Type} {f : α → Except ε β} {g : α → β} {l : List α}
    (h : ∀ a ∈ l, f a = .ok (g a)) :
  l.mapM f = .ok (l.map g)
  := by
  obtain ⟨bs, hbs, hall⟩ := exists_mapM (f := f) (R := fun a b => b = g a)
    fun a ha => ⟨g a, h a ha, rfl⟩
  have heq : l.map g = bs := by
    rw [← List.forall₂_eq_eq_eq, List.forall₂_map_left_iff]
    apply hall.imp
    intro _ _ h
    exact h.symm
  rw [hbs, heq]

end Lists

/-! ### Pieces -/

/-- Whether a construct is text. -/
def Shape.isText {α : Type} : Shape α → Bool
  | .text .. => true
  | _ => false

section Pieces

variable (settings : Settings)

theorem piece_mk (l : Label) (s : Shape Node) :
  (piece settings (.mk l s)).outer = outerWrappers l.wrapping s
    ∧ (s.isText = false → (piece settings (.mk l s)).body
      = .construct fun tm => writeShape settings tm (s.map (piece settings)))
  := by
  rw [piece, Tree.fold_mk]
  constructor
  · apply outerWrappers_map
  · cases s with
    | text => intro h; contradiction
    | _ => intro _; rfl

theorem piece_construct (l : Label) {s : Shape Node} (hs : s.isText = false) :
  piece settings (.mk l s) =
    { outer := outerWrappers l.wrapping s
      body := .construct fun tm => writeShape settings tm (s.map (piece settings)) }
  := by
  obtain ⟨houter, hbody⟩ := piece_mk settings l s
  rw [← houter, ← hbody hs]

theorem piece_text (l : Label) (v : Text) (f : TextFormat) (scale : Option Scale) :
  (piece settings (.mk l (.text v f scale))).run? = some (v, ⟨f, l.wrapping⟩)
  := by
  rw [piece, Tree.fold_mk]
  rfl

theorem sameRun_piece (n n' : Node) :
  (piece settings n).sameRun (piece settings n') = (n.run?.isSome && n.run? = n'.run?)
  := by
  have hrun : ∀ n : Node, (piece settings n).run?.map (·.2) = n.run? := by
    intro n
    obtain ⟨l, s⟩ := n
    cases hs : s.isText with
    | true =>
      cases s with
      | text v f scale =>
        rw [piece_text]
        rfl
      | _ => contradiction
    | false =>
      rw [Piece.run?, (piece_mk settings l s).2 hs]
      cases s with
      | text => contradiction
      | _ => rfl
  rw [← hrun n, ← hrun n', Piece.sameRun]
  cases (piece settings n).run? <;> cases (piece settings n').run? <;> simp

theorem piece_outer (n : Node) :
  (piece settings n).outer = n.outer
  := by
  cases n
  apply (piece_mk settings _ _).1

end Pieces

section Written

variable (settings : Settings)

/-- Whether an ampersand is a delimiter in a construct and no braces are around it. -/
def Shape.isExposed (structural : Bool) (s : Shape Node) : Bool :=
  (s.map (Node.exposes structural)).exposes structural

/-- A construct is written, and what is written is read as the construct. -/
def ShapeWritten (s : Shape Node) : Prop :=
  ∀ tm cell, (cell = true → s.isExposed settings.structural = false) →
    ∃ core, writeShape settings tm (s.map (piece settings)) = .ok core
      ∧ Spells .builtin cell core (s.reread id Node.reread)

/-- Siblings are written, and what is written is read as the siblings. -/
def Written (ns : List Node) : Prop :=
  ∀ tm keep cell, (keep = true → tm = true) →
    (cell = true → ∀ n ∈ ns, Node.exposes settings.structural n = false) →
    ∃ m, writePieces settings tm (ns.map (piece settings)) = .ok m
      ∧ Spelled .builtin keep cell m (ns.flatMap Node.reread)

variable {settings} {keep cell tm : Bool}

/-- Parts that are read as what they are written for are joined to such a part. -/
theorem spelled_parts (hkeep : keep = true → tm = true) {out : Node → List Node}
    {write : List Piece → Except Fault Text} {gs : List (List Node)}
    (h : ∀ g ∈ gs, ∃ m, write (g.map (piece settings)) = .ok m
      ∧ Spelled .builtin keep cell m (g.flatMap out)) :
  ∃ parts, (gs.map (List.map (piece settings))).mapM write = .ok parts
    ∧ Spelled .builtin keep cell (join (separator tm) parts) (gs.flatten.flatMap out)
  := by
  obtain ⟨parts, hparts, hspelled⟩ := exists_mapM h
  refine ⟨parts, ?_, ?_⟩
  · rw [List.mapM_map]
    apply hparts
  · rw [← flatten_map_flatMap]
    apply Spelled.join (separator_separator hkeep)
    rw [List.forall₂_map_right_iff]
    apply hspelled.flip

/-! ### Runs -/

/-- A text of which text mode is the innermost attribute has no other. -/
theorem eq_of_head?_attributeCommandsOf {f : TextFormat} {w : Wrapper}
    (h : w ∈ (attributeCommandsOf f).head?) (hw : w.1 = .textMode) :
  f = { bold := f.bold, italic := f.italic, textMode := true }
  := by
  obtain ⟨bold, italic, underline, strikethrough, color, textMode⟩ := f
  rcases underline with _ | style
  · cases strikethrough with
    | true =>
      obtain rfl := Option.some.inj h
      contradiction
    | false =>
      rcases color with _ | c
      · cases textMode with
        | true => rfl
        | false => contradiction
      · obtain rfl := Option.some.inj h
        contradiction
  · obtain rfl := Option.some.inj h
    contradiction

/-- A run of text is read as its characters. -/
theorem spelled_textRun {t : SymbolTable} [t.IsExtension] {f : TextFormat} {value : Text}
    (hvalue : ∀ c ∈ value, t.Writes c) (hcolor : ∀ c ∈ f.color, CleanColor c)
    (hlone : t.commandFor? ['＆'] = none → f = { textMode := true } → value ≠ ['＆'])
    (hkeep : keep = true → tm = true) :
  Spelled t keep cell (textRun t tm f value) (textReread value f)
  := by
  rw [textRun]
  split
  · rename_i hempty
    rw [List.isEmpty_iff.1 hempty]
    apply Spelled.nil
  · have hbody := spelled_emphasized f (@spelled_escapeText t (tm || f.textMode) _ _ hvalue)
    have hmode : ∀ w ∈ attributeCommandsOf f, w.1 = .textMode → f.textMode = true := by
      intro w hw hw'
      simp only [attributeCommandsOf, List.mem_append, List.mem_map, Option.mem_toList] at hw
      rcases hw with ((⟨s, -, rfl⟩ | hw) | ⟨c, -, rfl⟩) | hw
      · contradiction
      · split at hw
        · rw [List.mem_singleton.1 hw] at hw'
          contradiction
        · contradiction
      · contradiction
      · split at hw
        · rename_i h
          apply h
        · contradiction
    have hall :=
      @spelled_foldl_wrap _ _ _ cell _ _ _ keep (attributeCommandsOf f) ?_ hbody ?_ ?_ ?_
    · rw [List.map_map] at hall
      apply hall
    · intro w hw
      simp only [attributeCommandsOf, List.mem_append, List.mem_map, Option.mem_toList] at hw
      rcases hw with ((⟨s, -, rfl⟩ | hw) | ⟨c, hc, rfl⟩) | hw
      · apply Wrapper.Clean.underline
      · split at hw
        · rw [List.mem_singleton.1 hw]
          apply Wrapper.Clean.cancel
        · contradiction
      · apply Wrapper.Clean.color (hcolor c hc)
      · split at hw
        · rw [List.mem_singleton.1 hw]
          apply Wrapper.Clean.textMode
        · contradiction
    · intro w hw hw'
      rw [hmode w hw hw', Bool.or_true]
    · intro w hw hw' heq
      have hnodes :
          value.map (charWith { bold := f.bold, italic := f.italic }) = [charNode '＆'] := by
        by_contra hne
        apply hbody.trimMarkup.ne_ampersand hne heq
      obtain ⟨c, rfl, hchar⟩ := List.map_eq_singleton_iff.1 hnodes
      simp only [charWith, charNode, Node.plain, Tree.mk.injEq, Shape.text.injEq,
        List.cons.injEq, TextFormat.mk.injEq] at hchar
      obtain ⟨-, ⟨rfl, -⟩, ⟨hbold, hitalic, -⟩, -⟩ := hchar
      have hformat := eq_of_head?_attributeCommandsOf hw hw'
      rw [hbold, hitalic] at hformat
      cases hcommand : t.commandFor? ['＆'] with
      | none => apply hlone hcommand hformat rfl
      | some command =>
        rw [emphasized, hbold, hitalic] at heq
        apply trimMarkup_escapeText_ne (by decide) (by decide) rfl hcommand heq
    · intro _
      constructor
      · intro h
        rw [hkeep h, Bool.true_or]
      · intro _
        rfl

/-- Texts in a chain of one run have one format. -/
theorem run?_of_isChain {p : Piece} {ps : List Piece} {F : RunFormat} {v : Text}
    (h : List.IsChain (fun p q => p.sameRun q = true) (p :: ps)) (hp : p.run? = some (v, F)) :
  ∀ q ∈ p :: ps, ∃ v, q.run? = some (v, F)
  := by
  induction ps generalizing p v with
  | nil =>
    intro q hq
    rw [List.mem_singleton.1 hq]
    exact ⟨v, hp⟩
  | cons q ps ih =>
    obtain ⟨hsame, hrest⟩ := List.isChain_cons_cons.1 h
    rw [Piece.sameRun, hp] at hsame
    have hq : ∃ v, q.run? = some (v, F) := by
      cases hrun : q.run? with
      | none => simp [hrun] at hsame
      | some r =>
        obtain ⟨v', F'⟩ := r
        rw [hrun] at hsame
        exact ⟨v', by rw [of_decide_eq_true hsame]⟩
    obtain ⟨v', hv'⟩ := hq
    intro k hk
    rcases List.mem_cons.1 hk with rfl | hk
    · exact ⟨v, hp⟩
    · apply ih hrest hv' k hk

/-- A construct is no run with others. -/
theorem eq_nil_of_isChain {p : Piece} {ps : List Piece}
    (h : List.IsChain (fun p q => p.sameRun q = true) (p :: ps)) (hp : p.run? = none) :
  ps = []
  := by
  cases ps with
  | nil => rfl
  | cons q ps =>
    have hsame := (List.isChain_cons_cons.1 h).1
    rw [Piece.sameRun, hp] at hsame
    contradiction

variable {n : Node} {ns g : List Node} (htable : settings.table = .builtin)

/-- A node that is text has its text and its format. -/
theorem exists_text_of_run? {F : RunFormat} {v : Text}
    (h : (piece settings n).run? = some (v, F)) :
  ∃ scale, n.shape = .text v F.format scale
  := by
  obtain ⟨l, s⟩ := n
  cases hs : s.isText with
  | true =>
    cases s with
    | text v' f scale =>
      rw [piece_text] at h
      cases h
      exact ⟨scale, rfl⟩
    | _ => contradiction
  | false =>
    rw [Piece.run?, (piece_mk settings l s).2 hs] at h
    contradiction

/-- The value of a run is that of its nodes, and all of them have its format. -/
theorem writeRun_text {l : Label} {v : Text} {f : TextFormat} {scale : Option Scale}
    (hchain : List.IsChain (fun n n' => (piece settings n).sameRun (piece settings n') = true)
      (.mk l (.text v f scale) :: g)) (tm : Bool) :
  (∀ n ∈ Tree.mk l (.text v f scale) :: g, ∃ v' scale', n.shape = .text v' f scale')
    ∧ writeRun settings tm ((Tree.mk l (.text v f scale) :: g).map (piece settings))
      = .ok (textRun settings.table tm f
          ((Tree.mk l (.text v f scale) :: g).flatMap (·.shape.value)))
  := by
  have hpieces := (List.isChain_map (R := fun p q => Piece.sameRun p q = true)
    (piece settings)).2 hchain
  have hall := run?_of_isChain hpieces (piece_text settings l v f scale)
  have hshape : ∀ n ∈ Tree.mk l (.text v f scale) :: g, ∃ v' scale',
      (piece settings n).run? = some (v', ⟨f, l.wrapping⟩) ∧ n.shape = .text v' f scale' := by
    intro n hn
    obtain ⟨v', hv'⟩ := hall _ (List.mem_map_of_mem hn)
    obtain ⟨scale', hscale⟩ := exists_text_of_run? hv'
    exact ⟨v', scale', hv', hscale⟩
  have hvalue : ((Tree.mk l (.text v f scale) :: g).map (piece settings)).flatMap
      (fun q => ((q.run?).map (·.1)).getD [])
        = (Tree.mk l (.text v f scale) :: g).flatMap (·.shape.value) := by
    rw [List.flatMap_map]
    apply List.flatMap_congr
    intro n hn
    obtain ⟨v', scale', hv', hscale⟩ := hshape n hn
    rw [hv', hscale]
    rfl
  constructor
  · intro n hn
    obtain ⟨v', scale', -, hscale⟩ := hshape n hn
    exact ⟨v', scale', hscale⟩
  · have hbody : (piece settings (.mk l (.text v f scale))).body = .run v ⟨f, l.wrapping⟩ := by
      rw [piece, Tree.fold_mk]
      rfl
    rw [← hvalue, List.map_cons]
    simp only [writeRun, hbody]
    rfl

/-- A construct is written as it is, and no siblings are in one run with it. -/
theorem writeRun_construct {l : Label} {s : Shape Node} (htext : s.isText = false)
    (hchain : List.IsChain (fun n n' => (piece settings n).sameRun (piece settings n') = true)
      (.mk l s :: g)) (tm : Bool) :
  g = [] ∧ writeRun settings tm ((Tree.mk l s :: g).map (piece settings))
    = writeShape settings tm (s.map (piece settings))
  := by
  have hbody := (piece_mk settings l s).2 htext
  have hnone : (piece settings (.mk l s)).run? = none := by
    rw [Piece.run?, hbody]
  have hpieces := (List.isChain_map (R := fun p q => Piece.sameRun p q = true)
    (piece settings)).2 hchain
  rw [List.map_cons] at hpieces
  obtain rfl := List.map_eq_nil_iff.1 (eq_nil_of_isChain hpieces hnone)
  refine ⟨rfl, ?_⟩
  simp only [List.map_cons, List.map_nil, writeRun, hbody]

/-- A run is read as its characters inside of the wrappers, each in the format of the run. -/
theorem inside_run {f : TextFormat} (h : ∀ n ∈ g, ∃ v scale, n.shape = .text v f scale) :
  g.flatMap Node.inside = textReread (g.flatMap (·.shape.value)) f
  := by
  rw [textReread, List.map_flatMap]
  apply List.flatMap_congr
  intro n hn
  obtain ⟨v, scale, hshape⟩ := h n hn
  rw [Node.inside, hshape]
  rfl

include htable

/-- A run, or a single construct, is read as it is written. -/
theorem spelled_writeRun (hkeep : keep = true → tm = true) (hne : g ≠ [])
    (hchain : List.IsChain (fun n n' => (piece settings n).sameRun (piece settings n') = true) g)
    (hlone : ∀ n ∈ g.head?, ∀ F ∈ n.run?,
      F.format = { textMode := true } → g.flatMap (·.shape.value) ≠ ['＆'])
    (hlegible : ∀ n ∈ g, n.Legible settings.structural)
    (hwritten : ∀ n ∈ g, n.shape.isText = false → ShapeWritten settings n.shape)
    (hcell : cell = true → ∀ n ∈ g, n.shape.isExposed settings.structural = false) :
  ∃ m, writeRun settings tm (g.map (piece settings)) = .ok m
    ∧ Spelled .builtin keep cell m (g.flatMap Node.inside)
  := by
  obtain ⟨⟨l, s⟩, rest, rfl⟩ := List.exists_cons_of_ne_nil hne
  cases htext : s.isText with
  | false =>
    obtain ⟨rfl, hwrite⟩ := writeRun_construct htext hchain tm
    obtain ⟨core, hcore, hspells⟩ := hwritten _ List.mem_cons_self htext tm cell
      fun h => hcell h _ List.mem_cons_self
    refine ⟨core, hwrite.trans hcore, ?_⟩
    rw [List.flatMap_cons, List.flatMap_nil, List.append_nil]
    apply hspells.spelled
  | true =>
    cases s with
    | text v f scale =>
      obtain ⟨hshapes, hwrite⟩ := writeRun_text hchain tm
      refine ⟨_, hwrite, ?_⟩
      rw [inside_run hshapes, htable]
      apply spelled_textRun _ (hlegible _ List.mem_cons_self).shape.2 _ hkeep
      · intro c hc
        obtain ⟨n, hn, hc⟩ := List.mem_flatMap.1 hc
        obtain ⟨v', scale', hshape⟩ := hshapes n hn
        have htext := (hlegible n hn).shape
        rw [hshape] at htext hc
        apply Or.inr (htext.1 c hc)
      · intro _ hformat
        apply hlone _ rfl _ rfl hformat
    | _ => contradiction

/-! ### Groups -/

/-- A group of siblings inside of its wrappers is read as it is written. -/
theorem spelled_writePlain (hkeep : keep = true → tm = true)
    (hlone : ∀ r ∈ runs g, ∀ n ∈ r.head?, ∀ F ∈ n.run?,
      F.format = { textMode := true } → r.flatMap (·.shape.value) ≠ ['＆'])
    (hlegible : ∀ n ∈ g, n.Legible settings.structural)
    (hwritten : ∀ n ∈ g, n.shape.isText = false → ShapeWritten settings n.shape)
    (hcell : cell = true → ∀ n ∈ g, n.shape.isExposed settings.structural = false) :
  ∃ m, writePlain settings tm (g.map (piece settings)) = .ok m
    ∧ Spelled .builtin keep cell m (g.flatMap Node.inside)
  := by
  have hruns : ∀ r ∈ g.splitBy fun n n' => (piece settings n).sameRun (piece settings n'),
      ∃ m, writeRun settings tm (r.map (piece settings)) = .ok m
        ∧ Spelled .builtin keep cell m (r.flatMap Node.inside) := by
    intro r hr
    have hmem : ∀ n ∈ r, n ∈ g := by
      intro n hn
      rw [← List.flatten_splitBy
        (fun n n' => (piece settings n).sameRun (piece settings n')) g]
      apply List.mem_flatten_of_mem hr hn
    apply spelled_writeRun htable hkeep (List.ne_nil_of_mem_splitBy hr)
      (List.isChain_of_mem_splitBy hr)
    · apply hlone r
      simpa only [runs, sameRun_piece] using hr
    · intro n hn
      apply hlegible n (hmem n hn)
    · intro n hn
      apply hwritten n (hmem n hn)
    · intro h n hn
      apply hcell h n (hmem n hn)
  obtain ⟨parts, hparts, hspelled⟩ := spelled_parts hkeep hruns
  rw [List.flatten_splitBy] at hspelled
  refine ⟨_, ?_, hspelled⟩
  rw [writePlain, splitBy_map, hparts]
  rfl

/-- A group of siblings with its wrappers is read as it is written. -/
theorem spelled_writeWrapped (hkeep : keep = true → tm = true) {ws : List Wrapper}
    (hne : g ≠ []) (houter : ∀ n ∈ g, n.outer = ws)
    (hlone : ∀ w ∈ ws.head?, w.1 = .textMode → g.flatMap Node.inside ≠ [charNode '＆'])
    (hruns : ∀ r ∈ runs g, ∀ n ∈ r.head?, ∀ F ∈ n.run?,
      F.format = { textMode := true } → r.flatMap (·.shape.value) ≠ ['＆'])
    (hlegible : ∀ n ∈ g, n.Legible settings.structural)
    (hwritten : ∀ n ∈ g, n.shape.isText = false → ShapeWritten settings n.shape)
    (hcell : cell = true → ∀ n ∈ g, Node.exposes settings.structural n = false) :
  ∃ m, writeWrapped settings tm (g.map (piece settings)) = .ok m
    ∧ Spelled .builtin keep cell m (g.flatMap Node.reread)
  := by
  obtain ⟨n, ns, rfl⟩ := List.exists_cons_of_ne_nil hne
  have hbare : (ws.isEmpty && cell) = true →
      ∀ k ∈ n :: ns, k.shape.isExposed settings.structural = false := by
    intro h k hk
    rw [Bool.and_eq_true] at h
    have hk' := hcell h.2 k hk
    have hkouter := houter k hk
    obtain ⟨l, s⟩ := k
    rw [Node.exposes_mk] at hk'
    rw [Node.outer, Tree.shape, Tree.wrapping, Tree.label] at hkouter
    rw [hkouter, h.1, Bool.true_and] at hk'
    apply hk'
  obtain ⟨body, hbody, hspelled⟩ := spelled_writePlain htable id hruns hlegible hwritten hbare
  have hreread : (n :: ns).flatMap Node.reread
      = ((n :: ns).flatMap Node.inside).map (Node.enwrap ws) := by
    rw [List.map_flatMap]
    apply List.flatMap_congr
    intro k hk
    rw [Node.reread_eq, houter k hk]
  refine ⟨ws.foldl wrap body, ?_, ?_⟩
  · rw [writeWrapped, List.map_cons]
    simp only [List.head?_cons, Option.map_some, Option.getD_some, piece_outer,
      houter n List.mem_cons_self]
    rw [← List.map_cons, hbody]
    rfl
  · rw [hreread]
    apply spelled_foldl_wrap _ hspelled _
      fun w hw htext => hspelled.trimMarkup.ne_ampersand (hlone w hw htext)
    · rintro rfl
      constructor
      · intro h
        rw [hkeep h, Bool.true_or]
      · intro h
        rw [h, List.isEmpty_nil, Bool.true_and]
    · intro w hw
      apply (hlegible n List.mem_cons_self).outer
      rw [houter n List.mem_cons_self]
      apply hw
    · intro w hw htext
      have hany : ws.any (·.1 = .textMode) = true :=
        List.any_eq_true.2 ⟨w, hw, decide_eq_true htext⟩
      rw [hany, Bool.or_true]

/-- Siblings are read as they are written if their constructs are. -/
theorem Written.of_shapes (hspares : SparesAmpersand ns)
    (hlegible : ∀ n ∈ ns, n.Legible settings.structural)
    (hwritten : ∀ n ∈ ns, n.shape.isText = false → ShapeWritten settings n.shape) :
  Written settings ns
  := by
  intro tm keep cell hkeep hcell
  have hgroups : ∀ g ∈ groups ns, ∃ m, writeWrapped settings tm (g.map (piece settings)) = .ok m
      ∧ Spelled .builtin keep cell m (g.flatMap Node.reread) := by
    intro g hg
    have hmem : ∀ n ∈ g, n ∈ ns := fun n hn => mem_of_mem_groups hg hn
    obtain ⟨n, rest, rfl⟩ := List.exists_cons_of_ne_nil (List.ne_nil_of_mem_splitBy hg)
    have houter : ∀ k ∈ n :: rest, Node.outer k = Node.outer n := fun k hk =>
      outer_eq_of_mem_groups hg hk List.mem_cons_self
    apply spelled_writeWrapped htable hkeep (List.cons_ne_nil _ _) houter
    · apply hspares.group _ hg n rfl
    · apply hspares.run _ hg
    · intro k hk
      apply hlegible k (hmem k hk)
    · intro k hk
      apply hwritten k (hmem k hk)
    · intro h k hk
      apply hcell h k (hmem k hk)
  obtain ⟨parts, hparts, hspelled⟩ := spelled_parts hkeep hgroups
  rw [groups, List.flatten_splitBy] at hspelled
  refine ⟨_, ?_, hspelled⟩
  rw [writePieces, splitBy_map]
  simp only [piece_outer]
  rw [← groups, hparts]
  rfl

end Written

end Formula
