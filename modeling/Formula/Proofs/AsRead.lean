import Formula.Proofs.Decoration
import Formula.Proofs.Sound
import Formula.Proofs.Yield
import Formula.Reading.Grid

/-!
# Nodes as they are read

What reading makes of markup, whatever the markup is: a text is one character or the glyph of
a symbol and has no format but weight and slant, a delimiter is one character, and a function
has no slots but those of its form.  This holds of a node by itself; `AllRead` says it of all
nodes that a walk meets.
-/

namespace Formula

variable {α β : Type} {t : SymbolTable}

/-! ### Constructs -/

/-- A text that is read at once: a character that may stand in text, or the glyph of a
symbol. -/
def SymbolTable.Gives (t : SymbolTable) (value : Text) : Prop :=
  (∃ c, value = [c] ∧ isTextChar c = true) ∨ ∃ command, t.glyphOf? command = some value

/-- A delimiter that is one character, and neither blank nor a backslash. -/
def Delimiter.IsGlyph (glyph : Text) : Prop :=
  ∃ c, glyph = [c] ∧ Text.isBlank c = false ∧ c ≠ '\\'

/-- A function of a known type that has no slots but those of its form, and a name only where
it has no command. -/
def FunctionAsRead (type : Text) (name base constraint : List α) : Prop :=
  ∃ info, FunctionInfo.find? type = some info
    ∧ (info.command.isSome → name = [])
    ∧ (info.form ≠ .withBase → base = [])
    ∧ (info.form ≠ .withConstraint → constraint = [])

/-- An order that is read: a number has few enough digits to be written. -/
def Order.AsRead : Order α → Prop
  | .number k => Numeral.isWritable k = true
  | .sequence _ => True

/-- The fields of a construct that is read. -/
def Shape.AsRead (t : SymbolTable) : Shape α → Prop
  | .text v f scale => t.Gives v ∧ f = { bold := f.bold, italic := f.italic } ∧ scale = none
  | .bracket l r _ _ scale _ _ => Delimiter.IsGlyph l ∧ Delimiter.IsGlyph r ∧ scale = none
  | .derivative o _ _ _ _ _ => o.AsRead
  | .matrix d _ => d.isSome
  | .function u a _ c d => FunctionAsRead u a c d
  | _ => True

theorem Shape.asRead_mapSlotsOr_iff {f : α → β} {g : List α → List β} {s : Shape α} :
  (s.mapSlotsOr (List.map f) g).AsRead t ↔ s.AsRead t
  := by
  cases s with
  | derivative o => cases o <;> rfl
  | function => simp [mapSlotsOr, AsRead, FunctionAsRead]
  | _ => rfl

/-! ### Nodes -/

/-- The wrapping of a node that is read: a color is a text that is neither empty nor has blanks
at its ends. -/
structure Wrapping.AsRead (w : Wrapping) : Prop where
  sound : w.Sound
  color : ∀ p ∈ w.params.color, ∃ c, p = .text c ∧ c ≠ [] ∧ Text.strip c = c

/-- A node as it is read, as far as it alone decides. -/
structure Node.AsRead (t : SymbolTable) (n : Node) : Prop where
  wrapping : n.wrapping.AsRead
  sound : n.shape.Sound
  shape : n.shape.AsRead t

/-- All nodes that a walk meets are as they are read. -/
def AllRead (t : SymbolTable) (ns : List Node) : Prop := ∀ n ∈ walk ns, n.AsRead t

theorem Wrapping.AsRead.empty : AsRead {} where
  sound := .empty
  color _ h := by contradiction

section AllRead

variable {l : Label} {s : Shape Node} {n : Node} {ns ns' : List Node}

@[simp]
theorem allRead_nil : AllRead t []
  := fun _ h => by contradiction

@[simp]
theorem allRead_append : AllRead t (ns ++ ns') ↔ AllRead t ns ∧ AllRead t ns'
  := by
  simp only [AllRead, walk_append, List.mem_append, or_imp, forall_and]

theorem allRead_cons : AllRead t (n :: ns) ↔ AllRead t [n] ∧ AllRead t ns
  := @allRead_append _ [n] ns

@[simp]
theorem allRead_mk :
  AllRead t [.mk l s] ↔ Node.AsRead t (.mk l s) ∧ AllRead t s.children
  := by
  rw [AllRead, walk, List.flatMap_singleton, Tree.walk_mk, List.forall_mem_cons]
  rfl

theorem allRead_iff_forall : AllRead t ns ↔ ∀ n ∈ ns, AllRead t [n]
  := by
  induction ns with
  | nil => simp
  | cons n ns ih => rw [allRead_cons, ih, List.forall_mem_cons]

@[simp]
theorem allRead_reverse : AllRead t ns.reverse ↔ AllRead t ns
  := by
  rw [allRead_iff_forall, allRead_iff_forall]
  simp only [List.mem_reverse]

theorem allRead_map {f : Node → Node} (h : ∀ n ∈ ns, AllRead t [n] → AllRead t [f n])
    (hns : AllRead t ns) :
  AllRead t (ns.map f)
  := by
  rw [allRead_iff_forall] at hns ⊢
  rintro _ hfn
  obtain ⟨n, hn, rfl⟩ := List.mem_map.1 hfn
  apply h n hn (hns n hn)

end AllRead

/-! ### Emphasis -/

theorem Shape.children_emphasize (e : TextEmphasis) (s : Shape α) :
  (s.emphasize e).children = s.children
  := by
  cases s <;> rfl

/-- Emphasis changes weight and slant only. -/
theorem Node.AsRead.emphasize {e : TextEmphasis} {l : Label} {s : Shape Node} {f : Node → Node}
    (h : AsRead t (.mk l s)) :
  AsRead t (.mk l ((s.map f).emphasize e))
  := by
  obtain ⟨hwrapping, hsound, hshape⟩ := h
  have hsound' : (s.map f).Sound := Shape.sound_mapSlotsOr_iff.2 hsound
  have hshape' : (s.map f).AsRead t := Shape.asRead_mapSlotsOr_iff.2 hshape
  refine ⟨hwrapping, ?_, ?_⟩
  · cases s <;> exact hsound'
  · cases s with
    | text v format scale =>
      obtain ⟨hv, hformat, hscale⟩ := hshape'
      refine ⟨hv, ?_, hscale⟩
      rw [hformat]
      rfl
    | _ => exact hshape'

theorem ids_emphasize (e : TextEmphasis) (n : Node) :
  ids [n.emphasize e] = ids [n]
  := by
  induction n using Tree.induction with
  | h l s ih =>
    rw [Node.emphasize_mk, ids_mk, ids_mk, Shape.children_emphasize, Shape.children_map,
      ids_map fun n hn => ih n (s.children_subset hn)]

theorem allRead_emphasize {e : TextEmphasis} {n : Node} (h : AllRead t [n]) :
  AllRead t [n.emphasize e]
  := by
  induction n using Tree.induction with
  | h l s ih =>
    rw [allRead_mk] at h
    rw [Node.emphasize_mk, allRead_mk, Shape.children_emphasize, Shape.children_map]
    constructor
    · apply h.1.emphasize
    · apply allRead_map (fun n hn => ih n (s.children_subset hn)) h.2

/-! ### Wrappers -/

/-- Wrapping as a wrapper command does keeps a wrapping as it is read. -/
theorem Wrapping.AsRead.wrap {w : Wrapping} {kind : WrapperKind} {p : WrapperParam}
    (h : w.AsRead) (hcolor : kind = .color → ∃ c, p = .text c ∧ c ≠ [] ∧ Text.strip c = c)
    (hother : kind ≠ .color → p = .none) :
  (w.wrap kind p).AsRead
  := by
  have hunderline : ∀ style, (w.put .underline (.style style)).AsRead := by
    intro style
    constructor
    · apply h.sound.put (fun _ => ⟨style, rfl⟩) <;> rintro ⟨⟩
    · apply h.color
  rw [Wrapping.wrap]
  split
  · split
    · apply hunderline
    · split
      · apply hunderline
      · apply h
  · rename_i hkind
    constructor
    · apply h.sound.put
      · intro hk
        exact absurd hk hkind
      · rintro rfl
        apply hother (by decide)
      · rintro rfl
        apply hother (by decide)
    · intro q hq
      cases kind with
      | color =>
        obtain rfl := Option.some.inj hq
        apply hcolor rfl
      | _ => apply h.color q hq

@[simp]
theorem ids_withWrapping (n : Node) (w : Wrapping) :
  ids [n.withWrapping w] = ids [n]
  := by
  obtain ⟨l, s⟩ := n
  rw [ids_mk]
  exact ids_mk _ _

theorem allRead_withWrapping {n : Node} {w : Wrapping} (hw : w.AsRead) (h : AllRead t [n]) :
  AllRead t [n.withWrapping w]
  := by
  obtain ⟨l, s⟩ := n
  rw [allRead_mk] at h
  apply allRead_mk.2
  exact ⟨⟨hw, h.1.sound, h.1.shape⟩, h.2⟩

/-! ### Display modes -/

/-- Setting the display mode changes nothing else. -/
theorem Shape.of_withMode? {mode : DisplayMode} {s s' : Shape α} (h : s.withMode? mode = some s') :
  s'.children = s.children ∧ (s.Sound → s'.Sound) ∧ (s.AsRead t → s'.AsRead t)
  := by
  cases s with
  | derivative o =>
    obtain rfl := Option.some.inj h
    cases o <;> exact ⟨rfl, id, id⟩
  | _ =>
    first
    | (obtain rfl := Option.some.inj h; exact ⟨rfl, id, id⟩)
    | contradiction

/-! ### Grids -/

theorem Grid.nodup_coordinates (g : Grid α) :
  g.coordinates.Nodup
  := List.Nodup.product List.nodup_range List.nodup_range

/-- Where every key occurs once, each entry is found. -/
theorem lookup_eq_some_of_mem {κ : Type} [BEq κ] [LawfulBEq κ] {l : List (κ × α)} {k : κ} {a : α}
    (hnodup : (l.map (·.1)).Nodup) (h : (k, a) ∈ l) :
  l.lookup k = some a
  := by
  obtain ⟨front, back, rfl⟩ := List.append_of_mem h
  refine List.lookup_eq_some_iff.2 ⟨front, back, rfl, ?_⟩
  intro entry hentry
  rw [List.map_append, List.nodup_append] at hnodup
  rw [bne_iff_ne]
  apply Ne.symm
  apply hnodup.2.2 _ (List.mem_map_of_mem hentry)
  apply List.mem_cons_self

/-- A walk over a sound grid meets what stands in its cells. -/
theorem Grid.Sound.flatMap_slots {g : Grid α} (h : g.Sound) :
  (Shape.slots.ofGrid g).flatMap (·.2) = g.cells.flatMap (·.2)
  := by
  have hnodup : (g.cells.map (·.1)).Nodup := by
    rw [h.cells]
    apply g.nodup_coordinates
  simp only [Shape.slots.ofGrid, ← h.cells, List.flatMap_map]
  apply List.flatMap_congr
  rintro ⟨at_, content⟩ hmem
  rw [cell, lookup_eq_some_of_mem hnodup hmem]
  rfl

/-- A row that is filled up holds what it held before. -/
theorem flatMap_range_getD {row : List (List α)} {cols : Nat} (h : row.length ≤ cols) :
  (List.range cols).flatMap (fun j => (row[j]?).getD []) = row.flatten
  := by
  induction row generalizing cols with
  | nil => simp
  | cons cell row ih =>
    obtain ⟨k, rfl⟩ : ∃ k, cols = k + 1 := ⟨cols - 1, by simp only [List.length_cons] at h; omega⟩
    have hrow := @ih k (by simpa using h)
    simp only [List.range_succ_eq_map, List.flatMap_cons, List.flatMap_map,
      List.getElem?_cons_zero, List.getElem?_cons_succ, Option.getD_some, hrow,
      List.flatten_cons]

/-- The grid of some rows holds the rows one after the other. -/
theorem Grid.flatMap_cells_ofRows {cols : Nat} {rows : List (List (List α))}
    (h : ∀ row ∈ rows, row.length ≤ cols) :
  (ofRows cols rows).cells.flatMap (·.2) = rows.flatten.flatten
  := by
  have hrow : ∀ entry ∈ rows.zipIdx,
      (List.range cols).flatMap (fun j => (entry.1[j]?).getD []) = entry.1.flatten := by
    rintro ⟨row, i⟩ hentry
    apply flatMap_range_getD (h row (List.fst_mem_of_mem_zipIdx hentry))
  simp only [ofRows, List.flatMap_assoc, List.flatMap_map]
  rw [List.flatMap_congr hrow, ← List.flatMap_map, List.zipIdx_map_fst, List.flatten_flatten,
    List.flatMap_def]

/-- The grid of some rows is sound when it has a row and a column. -/
theorem Grid.sound_ofRows {cols : Nat} {rows : List (List (List α))} (hrows : rows ≠ [])
    (hcols : 1 ≤ cols) :
  (ofRows cols rows).Sound
  where
  rows := by
    have := List.length_pos_of_ne_nil hrows
    simp only [ofRows]
    omega
  cols := Int.ofNat_le.2 hcols
  cells := by
    have hindex : rows.zipIdx.map (·.2) = List.range rows.length := by
      simp [List.zipIdx_map_snd, List.range_eq_range']
    simp only [ofRows, coordinates, Int.toNat_natCast, ← hindex, List.map_flatMap, List.map_map,
      List.flatMap_map]
    rfl

end Formula
