import Formula.Proofs.View

/-!
# What writing sees of siblings

Pieces are written by groups of equal wrappers, and by runs of equal format.  A text that is
cut in two stays in one run, so that it is written as before.  A construct is written without
regard to how its slots are cut, since it is written by what each slot is written as; and
unless brackets are sized by their depths, it is written without regard to those.
-/

namespace Formula

open Writing

/-! ### Groups with an element cut in two -/

section Groups

variable {α : Type} {r : α → α → Bool} {p p₁ p₂ : α} {gs gs' : List (List α)}

/-- Groups with an element before them: in the first group if it is related to the first element
there, and else in a group of its own. -/
def enter (r : α → α → Bool) (a : α) : List (List α) → List (List α)
  | (b :: g) :: gs => if r a b then (a :: b :: g) :: gs else [a] :: (b :: g) :: gs
  | gs => [a] :: gs

theorem splitBy_cons (a : α) (l : List α) :
  (a :: l).splitBy r = enter r a (l.splitBy r)
  := by
  cases l with
  | nil => rfl
  | cons b l =>
    obtain ⟨hflatten, hne, hchain, hbreaks⟩ := List.splitBy_eq_iff.1
      (rfl : (b :: l).splitBy r = (b :: l).splitBy r)
    match hgs : (b :: l).splitBy r with
    | [] => simp at hgs
    | [] :: gs => simp [hgs] at hne
    | (c :: g) :: gs =>
      rw [hgs] at hflatten hne hchain hbreaks
      obtain ⟨rfl, hl⟩ := List.cons.inj hflatten
      rw [enter]
      split
      · rename_i hab
        apply List.splitBy_eq_iff.2
        refine ⟨congrArg _ hflatten, by simpa using hne, ?_, ?_⟩
        · obtain ⟨hfirst, hrest⟩ := List.forall_mem_cons.1 hchain
          refine List.forall_mem_cons.2 ⟨?_, hrest⟩
          exact List.isChain_cons_cons.2 ⟨hab, hfirst⟩
        · cases gs with
          | nil => apply List.IsChain.singleton
          | cons h hs =>
            obtain ⟨⟨_, hh, hbreak⟩, hrest⟩ := List.isChain_cons_cons.1 hbreaks
            apply List.isChain_cons_cons.2 ⟨⟨List.cons_ne_nil _ _, hh, ?_⟩, hrest⟩
            rwa [List.getLast_cons (List.cons_ne_nil b g)]
      · rename_i hab
        have happend := List.splitBy_append_cons (r := r) (l := [a]) (a := b) l (by simpa using hab)
        rw [hgs] at happend
        exact happend

/-- The second groups are the first ones, with `p₁` and `p₂` in the place of `p`. -/
inductive Cut (p p₁ p₂ : α) : List (List α) → List (List α) → Prop
  | intro (before : List (List α)) (g g' : List α) (after : List (List α)) :
    Cut p p₁ p₂ (before ++ (g ++ p :: g') :: after) (before ++ (g ++ p₁ :: p₂ :: g') :: after)

theorem Cut.enter (h : Cut p p₁ p₂ gs gs') (hleft : ∀ a, r a p₁ = r a p) (a : α) :
  Cut p p₁ p₂ (enter r a gs) (enter r a gs')
  := by
  obtain ⟨before, g, g', after⟩ := h
  match before, g with
  | [], [] =>
    simp only [List.nil_append, Formula.enter, hleft]
    split
    · exact .intro [] [a] g' after
    · exact .intro [[a]] [] g' after
  | [], b :: g =>
    simp only [List.nil_append, List.cons_append, Formula.enter]
    split
    · exact .intro [] (a :: b :: g) g' after
    · exact .intro [[a]] (b :: g) g' after
  | [] :: before, g => exact .intro ([a] :: [] :: before) g g' after
  | (b :: h) :: before, g =>
    simp only [List.cons_append, Formula.enter]
    split
    · exact .intro ((a :: b :: h) :: before) g g' after
    · exact .intro ([a] :: (b :: h) :: before) g g' after

/-- Two elements that stay together, and that are related to others as one is, stand in the place
of that one in the groups of a list. -/
theorem cut_splitBy (hleft : ∀ a, r a p₁ = r a p) (hright : ∀ a, r p₂ a = r p a)
    (htogether : r p₁ p₂ = true) (before after : List α) :
  Cut p p₁ p₂ ((before ++ p :: after).splitBy r) ((before ++ p₁ :: p₂ :: after).splitBy r)
  := by
  induction before with
  | nil =>
    simp only [List.nil_append, splitBy_cons]
    match after.splitBy r with
    | [] =>
      simp only [enter, htogether, if_true]
      exact .intro [] [] [] []
    | [] :: gs =>
      simp only [enter, htogether, if_true]
      exact .intro [] [] [] ([] :: gs)
    | (b :: g) :: gs =>
      simp only [enter, hright]
      split
      · simp only [htogether, if_true]
        exact .intro [] [] (b :: g) gs
      · simp only [htogether, if_true]
        exact .intro [] [] [] ((b :: g) :: gs)
  | cons a before ih =>
    simp only [List.cons_append, splitBy_cons]
    apply ih.enter hleft

theorem Cut.mapM_eq {ε β : Type} {f : List α → Except ε β} (h : Cut p p₁ p₂ gs gs')
    (hf : ∀ g g', f (g ++ p₁ :: p₂ :: g') = f (g ++ p :: g')) :
  gs'.mapM f = gs.mapM f
  := by
  obtain ⟨before, g, g', after⟩ := h
  simp only [List.mapM_append, List.mapM_cons, hf]

end Groups

/-! ### Texts that are cut in two -/

namespace Writing

variable (settings : Settings) (tm : Bool)

/-- The piece of a text. -/
def Piece.ofText (outer : List Wrapper) (format : RunFormat) (value : Text) : Piece where
  outer
  body := .run value format

section Texts

variable (outer : List Wrapper) (format : RunFormat) (value value' : Text)

theorem writeRun_cut (g g' : List Piece) :
  writeRun settings tm (g ++ .ofText outer format value :: .ofText outer format value' :: g')
    = writeRun settings tm (g ++ .ofText outer format (value ++ value') :: g')
  := by
  have hvalue : ∀ v, ((Piece.ofText outer format v).run?.map (·.1)).getD [] = v := fun _ => rfl
  cases g with
  | nil => simp [writeRun, Piece.ofText, Piece.run?]
  | cons p g =>
    rw [List.cons_append, List.cons_append, writeRun, writeRun]
    split
    · rfl
    · simp [hvalue]

/-- Which run a text is in does not depend on its value. -/
theorem sameRun_ofText (p : Piece) :
  p.sameRun (.ofText outer format value) = p.sameRun (.ofText outer format value')
    ∧ (Piece.ofText outer format value).sameRun p = (Piece.ofText outer format value').sameRun p
  := by
  unfold Piece.sameRun
  cases p.run? <;> exact ⟨rfl, rfl⟩

theorem writePlain_cut (before after : List Piece) :
  writePlain settings tm
      (before ++ .ofText outer format value :: .ofText outer format value' :: after)
    = writePlain settings tm (before ++ .ofText outer format (value ++ value') :: after)
  := by
  have hcut := @cut_splitBy _ Piece.sameRun (.ofText outer format (value ++ value'))
    (.ofText outer format value) (.ofText outer format value')
    (fun p => (sameRun_ofText outer format _ _ p).1) (fun p => (sameRun_ofText outer format _ _ p).2)
    (decide_eq_true rfl) before after
  rw [writePlain, hcut.mapM_eq (writeRun_cut settings tm outer format value value'), writePlain]

theorem writeWrapped_cut (before after : List Piece) :
  writeWrapped settings tm
      (before ++ .ofText outer format value :: .ofText outer format value' :: after)
    = writeWrapped settings tm (before ++ .ofText outer format (value ++ value') :: after)
  := by
  simp only [writeWrapped, writePlain_cut]
  cases before <;> rfl

/-- A text that is cut in two is written as before. -/
theorem writePieces_cut (before after : List Piece) :
  writePieces settings tm
      (before ++ .ofText outer format value :: .ofText outer format value' :: after)
    = writePieces settings tm (before ++ .ofText outer format (value ++ value') :: after)
  := by
  have hcut := @cut_splitBy _ (fun p q : Piece => p.outer = q.outer)
    (.ofText outer format (value ++ value')) (.ofText outer format value)
    (.ofText outer format value') (fun _ => rfl) (fun _ => rfl) (decide_eq_true rfl) before after
  rw [writePieces, hcut.mapM_eq (writeWrapped_cut settings tm outer format value value'),
    writePieces]

end Texts

/-! ### Slots as one piece -/

section Slots

/-- A slot as one piece, which is written as the slot is. -/
def sealed (slot : List Piece) : Piece where
  outer := []
  body := .construct fun tm => writePieces settings tm slot

theorem join_singleton (separator part : Text) :
  join separator [part] = part
  := by
  simp [join, endsInCommand, endsInCommandReversed]

@[simp]
theorem writePieces_sealed (slot : List Piece) :
  writePieces settings tm [sealed settings slot] = writePieces settings tm slot
  := by
  have hplain : writePlain settings tm [sealed settings slot] = writePieces settings tm slot := by
    simp only [writePlain, List.splitBy, List.splitBy.loop, List.reverse_singleton,
      List.mapM_cons, List.mapM_nil, writeRun, sealed]
    cases writePieces settings tm slot with
    | error => rfl
    | ok m => exact congrArg _ (join_singleton _ m)
  have hwrapped : writeWrapped settings tm [sealed settings slot] = writePieces settings tm slot := by
    simp only [writeWrapped, sealed, List.head?_cons, Option.map_some, Option.getD_some,
      List.any_nil, Bool.or_false]
    rw [← sealed, hplain]
    cases writePieces settings tm slot <;> rfl
  rw [writePieces]
  simp only [List.splitBy, List.splitBy.loop, List.reverse_singleton,
    List.mapM_cons, List.mapM_nil, hwrapped]
  cases writePieces settings tm slot with
  | error => rfl
  | ok m => exact congrArg _ (join_singleton _ m)

@[simp]
theorem writeGroup_sealed (slot : List Piece) :
  writeGroup settings tm [sealed settings slot] = writeGroup settings tm slot
  := by
  rw [writeGroup, writePieces_sealed, writeGroup]

@[simp]
theorem writeContent_sealed (slot : List Piece) :
  writeContent settings tm [sealed settings slot] = writeContent settings tm slot
  := by
  rw [writeContent, writePieces_sealed, writeContent]

@[simp]
theorem writeScript_sealed (side : ScriptSide) (script : Option (List Piece)) :
  writeScript settings tm side (script.map fun slot => [sealed settings slot])
    = writeScript settings tm side script
  := by
  cases script with
  | none => rfl
  | some slot => rw [Option.map_some, writeScript, writeGroup_sealed, writeScript]

theorem writeGrid_sealed (name specification : Text) (g : Grid Piece) :
  writeGrid settings tm name specification
      (Shape.mapSlotsOr.grid (fun slot => [sealed settings slot]) (fun slot => [sealed settings slot])
        g.visible)
    = writeGrid settings tm name specification g
  := by
  have hcell : ∀ row ∈ List.range g.rows.toNat, ∀ col ∈ List.range g.cols.toNat,
      writeContent settings tm ((Shape.mapSlotsOr.grid (fun slot => [sealed settings slot])
        (fun slot => [sealed settings slot]) g.visible).cell row col)
        = writeContent settings tm (g.cell row col) := by
    intro row hrow col hcol
    have hmem : (row, col) ∈ g.coordinates :=
      List.mem_flatMap.2 ⟨row, hrow, List.mem_map.2 ⟨col, hcol, rfl⟩⟩
    rw [Grid.mapSlotsOr_self, Grid.visible, Grid.cell, List.map_map]
    simp only [Function.comp_def]
    rw [lookup_map_self hmem fun k => [sealed settings (g.cell k.1 k.2)], Option.getD_some,
      writeContent_sealed]
  have hrows : ((List.range g.rows.toNat).mapM fun row => (List.range g.cols.toNat).mapM fun col =>
      writeContent settings tm ((Shape.mapSlotsOr.grid (fun slot => [sealed settings slot])
        (fun slot => [sealed settings slot]) g.visible).cell row col))
      = (List.range g.rows.toNat).mapM fun row => (List.range g.cols.toNat).mapM fun col =>
        writeContent settings tm (g.cell row col) := by
    apply mapM_congr
    intro row hrow
    apply mapM_congr
    apply hcell row hrow
  rw [writeGrid, writeGrid, ← hrows]
  rfl

theorem writeOrder_sealed (order : Order Piece) :
  writeOrder settings tm (Shape.mapSlotsOr.order (fun slot => [sealed settings slot]) order)
    = writeOrder settings tm order
  := by
  cases order with
  | number => rfl
  | sequence slot => rw [Shape.mapSlotsOr.order, writeOrder, writeContent_sealed, writeOrder]

theorem isFirstOrder_sealed (order : Order Piece) :
  isFirstOrder (Shape.mapSlotsOr.order (fun slot => [sealed settings slot]) order)
    = isFirstOrder order
  := by
  cases order <;> rfl

theorem writeIntegral_sealed (type : IntegralType) (style : DifferentialStyle)
    (limitMode : LimitMode) (mode : DisplayMode) (integrand differentials : List Piece)
    (lower upper : Option (List Piece)) :
  writeIntegral settings tm type style limitMode mode [sealed settings integrand]
      [sealed settings differentials] (lower.map fun slot => [sealed settings slot])
      (upper.map fun slot => [sealed settings slot])
    = writeIntegral settings tm type style limitMode mode integrand differentials lower upper
  := by
  have hgroup : ∀ bound : Option (List Piece),
      writeGroup settings tm ((bound.map fun slot => [sealed settings slot]).getD [])
        = writeGroup settings tm (bound.getD []) := by
    intro bound
    cases bound with
    | none => rfl
    | some slot => exact writeGroup_sealed settings tm slot
  simp only [writeIntegral, Option.isSome_map]
  cases IntegralForm.hasLower _ <;> cases IntegralForm.hasUpper _ <;>
    simp [hgroup]

/-- A construct is written by what its slots are written as. -/
theorem writeShape_outline (hauto : settings.sizing = .auto) (s : Shape Piece) :
  writeShape settings tm (s.outline (sealed settings)) = writeShape settings tm s
  := by
  cases s with
  | stack g =>
    simp only [Shape.outline, Shape.withoutLook, Shape.essential, Shape.mapSlots, Shape.mapSlotsOr,
      writeShape, writeGrid_sealed]
    rfl
  | derivative o l p m a b =>
    simp only [Shape.outline, Shape.withoutLook, Shape.essential, Shape.mapSlots,
      Shape.mapSlotsOr, writeShape, writeStructural, writeAsFraction, writeOrder_sealed,
      isFirstOrder_sealed, writeGroup_sealed, writeContent_sealed]
  | accent t p a l =>
    cases l <;>
      simp only [Shape.outline, Shape.withoutLook, Shape.essential, Shape.mapSlots,
        Shape.mapSlotsOr, writeShape, Option.map_some, Option.map_none, Option.getD_some,
        writeGroup_sealed]
  | _ =>
    simp only [Shape.outline, Shape.withoutLook, Shape.essential, Shape.mapSlots, Shape.mapSlotsOr,
      writeShape, writeFunction, writeIntegral_sealed, writeGroup_sealed, writeContent_sealed,
      writeScript_sealed, writeGrid_sealed, bracketSizes_auto settings hauto]

end Slots

/-! ### The view of pieces -/

theorem piece_ofText (l : Label) (value : Text) (format : TextFormat) (scale : Option Scale) :
  piece settings (.mk l (.text value format scale))
    = .ofText (outerWrappers l.wrapping (.text [] format none : Shape Node))
        ⟨format, l.wrapping⟩ value
  := rfl

theorem outerWrappers_outline {δ : Type} (F : List Node → δ) (w : Wrapping) (s : Shape Node) :
  outerWrappers w (s.outline F) = outerWrappers w s
  := by
  cases s <;> rfl

/-- Unless brackets are sized by their depths, a piece is a view of a node, where a slot shows what
it is written as. -/
theorem view_piece (hauto : settings.sizing = .auto) :
  View (piece settings) fun ns => sealed settings (ns.map (piece settings))
  where
  slot h := congrArg _ h
  node := by
    intro l l' s s' hwrapping houtline
    let F := fun ns : List Node => sealed settings (ns.map (piece settings))
    have houter : outerWrappers l'.wrapping s' = outerWrappers l.wrapping s := by
      rw [hwrapping, ← outerWrappers_outline F, houtline, outerWrappers_outline]
    have hwrite : ∀ (tm : Bool) (s : Shape Node),
        writeShape settings tm (s.map (piece settings)) = writeShape settings tm (s.outline F) := by
      intro tm s
      have hmap : (s.map (piece settings)).outline (sealed settings) = s.outline F :=
        Shape.outline_mapSlotsOr rfl fun _ _ => rfl
      rw [← writeShape_outline settings tm hauto, hmap]
    obtain ⟨htext', htext⟩ | ⟨v, fmt, scale, scale', rfl, rfl⟩ := Shape.text_of_outline houtline
    · change s'.outline F = s.outline F at houtline
      rw [piece_construct settings l' htext', piece_construct settings l htext, houter]
      simp only [hwrite, houtline]
    · rw [piece_ofText, piece_ofText, hwrapping]

/-- Unless brackets are sized by their depths, the greatest depth does not matter. -/
theorem piece_maxDepth (hauto : settings.sizing = .auto) (depth : Int) (n : Node) :
  piece { settings with maxDepth := depth } n = piece settings n
  := by
  induction n using Tree.induction with
  | h l s ih =>
    have hmap : s.map (piece { settings with maxDepth := depth }) = s.map (piece settings) :=
      Shape.map_congr ih
    cases htext : s.isText with
    | false =>
      rw [piece_construct _ l htext, piece_construct _ l htext, hmap]
      simp only [writeShape_maxDepth settings hauto]
    | true =>
      cases s with
      | text v f scale => rw [piece_ofText, piece_ofText]
      | _ => contradiction

theorem writePieces_maxDepth (depth : Int) (pieces : List Piece) :
  writePieces { settings with maxDepth := depth } tm pieces = writePieces settings tm pieces
  := rfl

end Writing

/-- What stays the same while an equation is written without regard to depths. -/
def autoSettings (t : SymbolTable) (structural : Bool) : Settings where
  table := t
  structural
  sizing := .auto
  maxDepth := -1

/-- Without regard to depths, the markup of an equation is what it is written as as a slot. -/
theorem toMarkup_auto (t : SymbolTable) (structural : Bool) (ns : List Node) :
  toMarkup t { structural, sizing := .auto } ns
    = (writePieces (autoSettings t structural) false
        (ns.map (piece (autoSettings t structural)))).map trimMarkup
  := by
  have hpieces : ns.map (piece { autoSettings t structural with maxDepth := maxBracketDepth ns })
      = ns.map (piece (autoSettings t structural)) := by
    apply List.map_congr_left
    intro n _
    apply piece_maxDepth _ rfl
  change (do
    let m ← writePieces { autoSettings t structural with maxDepth := maxBracketDepth ns } false
      (ns.map (piece { autoSettings t structural with maxDepth := maxBracketDepth ns }))
    pure (trimMarkup m)) = _
  rw [writePieces_maxDepth, hpieces]
  cases writePieces (autoSettings t structural) false _ <;> rfl

end Formula
