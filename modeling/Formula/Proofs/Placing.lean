import Formula.Proofs.Surgery
import Formula.Session.Edit

/-!
# Placing nodes

Where the nodes of a session have different identifiers, an identifier addresses one node.
Putting a node into a list of siblings or taking one out then changes that list only: every
other list keeps its members, and every node keeps its label and its fields.
-/

namespace Formula

/-! ### Identifiers of a list -/

section Identifiers

variable {ns ns' : List Node} {n : Node} {i : Nat}

theorem surfaces_perm (h : ns.Perm ns') :
  surfaces ns = surfaces ns'
  := Multiset.coe_eq_coe.2 ((h.flatMap_right _).map _)

theorem ids_perm (h : ns.Perm ns') :
  ids ns = ids ns'
  := Multiset.coe_eq_coe.2 ((h.flatMap_right _).map _)

/-- Where identifiers are different, a search for one finds its node. -/
theorem find?_walk_eq_some_iff (hnodup : (ids ns).Nodup) :
  (walk ns).find? (·.id == i) = some n ↔ n ∈ walk ns ∧ n.id = i
  := by
  constructor
  · intro h
    exact ⟨List.mem_of_find?_eq_some h, by simpa using List.find?_some h⟩
  · rintro ⟨hn, hi⟩
    have hfound : ((walk ns).find? (·.id == i)).isSome := by
      rw [List.find?_isSome]
      exact ⟨n, hn, by simpa using hi⟩
    obtain ⟨m, hm⟩ := Option.isSome_iff_exists.1 hfound
    have hid : m.id = i := by simpa using List.find?_some hm
    rw [hm, List.inj_on_of_nodup_map hnodup (List.mem_of_find?_eq_some hm) hn (hid.trans hi.symm)]

/-- Siblings have different identifiers where all nodes have. -/
theorem nodup_map_id (hnodup : (ids ns).Nodup) :
  (ns.map Tree.id).Nodup
  := by
  induction ns with
  | nil => apply List.nodup_nil
  | cons n ns ih =>
    rw [ids_cons, Multiset.nodup_add] at hnodup
    obtain ⟨-, hns, hdisjoint⟩ := hnodup
    apply List.nodup_cons.2 ⟨?_, ih hns⟩
    intro hmem
    obtain ⟨m, hm, hid⟩ := List.mem_map.1 hmem
    apply Multiset.disjoint_left.1 hdisjoint
    · exact mem_ids.2 ⟨n, mem_walk_of_mem List.mem_cons_self, rfl⟩
    · exact mem_ids.2 ⟨m, mem_walk_of_mem hm, hid⟩

theorem AllSound.of_surfaces_le (h : AllSound ns) (hle : surfaces ns' ⊆ surfaces ns) :
  AllSound ns'
  := by
  rw [allSound_iff_surfaces] at h ⊢
  intro x hx
  apply h x (hle hx)

theorem allSound_perm (h : ns.Perm ns') :
  AllSound ns ↔ AllSound ns'
  := by
  rw [allSound_iff_surfaces, allSound_iff_surfaces, surfaces_perm h]

variable {m m' : Node}

/-- Replacing a node by one with the same identifiers below it keeps all identifiers. -/
theorem Replaced.ids_eq (h : Replaced ns ns' m m') (hids : ids [m'] = ids [m]) :
  ids ns' = ids ns
  := by
  have hmap := congrArg (Multiset.map (·.1.id)) h.surfaces
  rw [Multiset.map_add, Multiset.map_add, ← ids_eq_map_surfaces, ← ids_eq_map_surfaces,
    ← ids_eq_map_surfaces, ← ids_eq_map_surfaces, hids] at hmap
  apply add_right_cancel hmap

theorem Replaced.allSound (h : Replaced ns ns' m m') (hns : AllSound ns) (hm' : AllSound [m']) :
  AllSound ns'
  := by
  rw [allSound_iff_surfaces] at hns hm' ⊢
  intro x hx
  have hmem : x ∈ Formula.surfaces ns + Formula.surfaces [m'] := by
    rw [← h.surfaces]
    apply Multiset.mem_add.2 (Or.inl hx)
  rcases Multiset.mem_add.1 hmem with hx | hx
  · apply hns x hx
  · apply hm' x hx

end Identifiers

/-! ### Slots by name -/

section Named

variable {α β : Type} {s : Shape α} {name : Text} {p : SlotName} {old new : List α}

theorem Shape.named?_map (f : α → β) (s : Shape α) (name : Text) :
  (s.map f).named? name = (s.named? name).map fun slot => (slot.1, slot.2.map f)
  := by
  rw [named?, named?, map, mapSlots, slots_mapSlotsOr List.map_nil, List.find?_map]
  rfl

theorem Shape.mem_slots_of_named? (h : s.named? name = some (p, old)) :
  (p, old) ∈ s.slots ∧ p.text.toList = name
  := by
  constructor
  · apply List.mem_of_find?_eq_some h
  · simpa using List.find?_some h

/-- The siblings in the slot of a name, or the fault that there is no such slot. -/
def Shape.siblings (s : Shape α) (name : Text) : Except Fault (List α) :=
  match s.named? name with
  | some (_, nodes) => .ok nodes
  | none => .error (.noSlot name)

theorem Shape.siblings_eq_ok_iff :
  s.siblings name = .ok old ↔ ∃ p, s.named? name = some (p, old)
  := by
  rw [siblings]
  cases s.named? name with
  | none => simp
  | some slot =>
    obtain ⟨p, nodes⟩ := slot
    simp

theorem Shape.siblings_map (f : α → β) (s : Shape α) (name : Text) :
  (s.map f).siblings name = (s.siblings name).map (List.map f)
  := by
  rw [siblings, siblings, named?_map]
  cases s.named? name <;> rfl

/-- A slot that is replaced is found under its name, and the others under theirs. -/
theorem Shape.named?_setSlot {other : Text} (h : s.named? name = some (p, old)) :
  (s.setSlot p new).named? other
    = if other = name then some (p, new) else s.named? other
  := by
  obtain ⟨hmem, hp⟩ := mem_slots_of_named? h
  rw [named?] at h
  rw [named?, slots_setSlot hmem, List.find?_map]
  have hname : ((fun slot : SlotName × List α => decide (slot.1.text.toList = other))
      ∘ fun slot => if slot.1 = p then (p, new) else slot)
      = fun slot => decide (slot.1.text.toList = other) := by
    funext slot
    simp only [Function.comp]
    split
    · rename_i hslot
      rw [hslot]
    · rfl
  rw [hname]
  split
  · rename_i hother
    subst hother
    rw [h, Option.map_some, if_pos rfl]
  · rename_i hother
    rw [named?]
    cases hfound : s.slots.find? fun slot => decide (slot.1.text.toList = other) with
    | none => rfl
    | some slot =>
      have hslot : slot.1.text.toList = other := by simpa using List.find?_some hfound
      have hne : slot.1 ≠ p := by
        rintro rfl
        apply hother (hslot.symm.trans hp)
      rw [Option.map_some, if_neg hne]

end Named

/-! ### Fields -/

/-- What a node has besides its children: its label, and its construct with empty slots. -/
def Node.frame (n : Node) : Label × Shape Nat := (n.label, n.shape.mapSlots fun _ => [])

section Frame

variable {α : Type} {s : Shape α} {p : SlotName} {old new : List α}

theorem Shape.frame_setSlot {β : Type} (h : (p, old) ∈ s.slots) (hs : s.Sound) (new : List α) :
  (s.setSlot p new).mapSlots (fun _ => ([] : List β)) = s.mapSlots fun _ => []
  := by
  have hgrid : ∀ (g : Grid α) (k : Nat × Nat), g.Sound → k ∈ g.coordinates →
      mapSlotsOr.grid (fun _ => ([] : List β)) (fun _ => []) (g.setCell k.1 k.2 new)
        = mapSlotsOr.grid (fun _ => []) (fun _ => []) g := by
    intro g k hg hk
    rw [mapSlotsOr.grid, Grid.cells_setCell new (hg.isSome_lookup hk), List.map_map,
      mapSlotsOr.grid]
    have hcells : ∀ entry ∈ g.cells, ((fun (cell : (Nat × Nat) × List α) =>
        (cell.1, if (g.setCell k.1 k.2 new).inside cell.1 then ([] : List β) else []))
          ∘ fun entry => if entry.1 = k then (entry.1, new) else entry) entry
        = (entry.1, if g.inside entry.1 then [] else []) := by
      intro entry _
      simp only [Function.comp, ite_self]
      split <;> rfl
    rw [List.map_congr_left hcells]
    rfl
  cases s with
  | matrix t g =>
    obtain ⟨k, hk, rfl⟩ := of_mem_ofGrid h
    simp only [setSlot, mapGrid, if_pos hk]
    exact congrArg (Shape.matrix t) (hgrid g k hs hk)
  | stack g =>
    obtain ⟨k, hk, rfl⟩ := of_mem_ofGrid h
    simp only [setSlot, mapGrid, if_pos hk]
    exact congrArg Shape.stack (hgrid g k hs hk)
  | cases g =>
    obtain ⟨k, hk, rfl⟩ := of_mem_ofGrid h
    simp only [setSlot, mapGrid, if_pos hk]
    exact congrArg Shape.cases (hgrid g k hs hk)
  | text => contradiction
  | derivative o =>
    cases o <;>
      simp only [slots, Order.slot?, List.mem_cons, List.mem_append, mem_present, Prod.mk.injEq,
        List.not_mem_nil, or_false, reduceCtorEq, and_false, false_or, Option.some.injEq] at h <;>
      casesm* _ ∨ _, _ ∧ _ <;> subst_vars <;> rfl
  | _ =>
    simp only [slots, List.mem_cons, List.mem_append, mem_present, Prod.mk.injEq,
      List.not_mem_nil, or_false] at h
    casesm* _ ∨ _, _ ∧ _ <;> subst_vars <;> rfl

/-- The frame of a node shows in its surface. -/
theorem Node.frame_eq (n : Node) :
  n.frame = (n.surface.1, n.surface.2.mapSlots fun _ => [])
  := by
  obtain ⟨l, s⟩ := n
  have hshape : ∀ s : Shape Node, (s.map Tree.id).mapSlots (fun _ => ([] : List Nat))
      = s.mapSlots fun _ => [] := by
    intro s
    cases s with
    | derivative o => cases o <;> rfl
    | matrix t g =>
      simp [Shape.map, Shape.mapSlots, Shape.mapSlotsOr, Shape.mapSlotsOr.grid]
    | stack g => simp [Shape.map, Shape.mapSlots, Shape.mapSlotsOr, Shape.mapSlotsOr.grid]
    | cases g => simp [Shape.map, Shape.mapSlots, Shape.mapSlotsOr, Shape.mapSlotsOr.grid]
    | script a q r => cases q <;> cases r <;> rfl
    | bracket l r c d s q r => cases q <;> cases r <;> rfl
    | integral t st l m a b q r => cases q <;> cases r <;> rfl
    | accent t q a l => cases l <;> rfl
    | _ => rfl
  exact congrArg (l, ·) (hshape s).symm

end Frame

namespace Session

variable {s s' : Session} {i : Nat} {n m : Node} {place : Place} {old new : List Node}
  {position : Int}

/-- The nodes of a session are sound, and they have different identifiers, which are issued
already. -/
structure Sound (s : Session) : Prop where
  sound : AllSound s.tops
  nodup : (Formula.ids s.tops).Nodup
  lt : ∀ i ∈ Formula.ids s.tops, i < s.supply.next

/-! ### Addresses -/

theorem Sound.node_eq_ok_iff (h : s.Sound) :
  s.node i = .ok n ↔ n ∈ walk s.tops ∧ n.id = i
  := by
  rw [← find?_walk_eq_some_iff h.nodup, ← h.sound.flatMap_all, node, nodes]
  split
  · rename_i found hfound
    rw [hfound]
    simp
  · rename_i hfound
    rw [hfound]
    simp

/-- The surface of the node of an identifier. -/
def surface (s : Session) (i : Nat) : Except Fault (Label × Shape Nat) :=
  (s.node i).map Node.surface

theorem Sound.surface_eq_ok_iff {x : Label × Shape Nat} (h : s.Sound) :
  s.surface i = .ok x ↔ x ∈ surfaces s.tops ∧ x.1.id = i
  := by
  rw [surface, mem_surfaces]
  constructor
  · intro hx
    cases hnode : s.node i with
    | error fault =>
      rw [hnode] at hx
      contradiction
    | ok n =>
      rw [hnode] at hx
      obtain rfl := Except.ok.inj hx
      rw [h.node_eq_ok_iff] at hnode
      exact ⟨⟨n, hnode.1, rfl⟩, hnode.2⟩
  · rintro ⟨⟨n, hn, rfl⟩, hi⟩
    rw [h.node_eq_ok_iff.2 ⟨hn, hi⟩]
    rfl

/-- An identifier that has no node is refused in one way. -/
theorem node_error {fault : Fault} (h : s.node i = .error fault) :
  fault = .noNode i
  := by
  rw [node] at h
  split at h
  · contradiction
  · exact (Except.error.inj h).symm

/-- Two sessions show the same at an identifier where they have the same surfaces of it. -/
theorem Sound.surface_congr (h : s.Sound) (h' : s'.Sound)
    (hiff : ∀ x, x.1.id = i → (x ∈ surfaces s'.tops ↔ x ∈ surfaces s.tops)) :
  s'.surface i = s.surface i
  := by
  have hrefused : ∀ r : Session, ∀ fault, r.surface i = .error fault → fault = .noNode i := by
    intro r fault hr
    rw [surface] at hr
    cases hnode : r.node i with
    | ok n =>
      rw [hnode] at hr
      contradiction
    | error =>
      rw [hnode] at hr
      obtain rfl := Except.error.inj hr
      apply node_error hnode
  cases hx : s.surface i with
  | ok x =>
    rw [h.surface_eq_ok_iff] at hx
    rw [h'.surface_eq_ok_iff]
    exact ⟨(hiff x hx.2).2 hx.1, hx.2⟩
  | error fault =>
    cases hx' : s'.surface i with
    | error fault' => rw [hrefused s fault hx, hrefused s' fault' hx']
    | ok x =>
      rw [h'.surface_eq_ok_iff] at hx'
      rw [h.surface_eq_ok_iff.2 ⟨(hiff x hx'.2).1 hx'.1, hx'.2⟩] at hx
      contradiction

theorem slot_slot (s : Session) (owner : Nat) (name : Text) :
  s.slot (.slot owner name) = (s.node owner).bind fun n => n.shape.siblings name
  := by
  apply bind_congr (m := Except Fault)
  intro n
  rw [Shape.siblings]
  cases n.shape.named? name <;> rfl

theorem slot_eq_ok_iff {owner : Nat} {name : Text} :
  s.slot (.slot owner name) = .ok old
    ↔ ∃ m p, s.node owner = .ok m ∧ m.shape.named? name = some (p, old)
  := by
  rw [slot_slot]
  cases s.node owner with
  | error fault =>
    constructor
    · intro h
      contradiction
    · rintro ⟨m, p, h, -⟩
      contradiction
  | ok m =>
    refine Iff.trans Shape.siblings_eq_ok_iff ?_
    constructor
    · rintro ⟨p, h⟩
      exact ⟨m, p, rfl, h⟩
    · rintro ⟨m', p, hm, h⟩
      obtain rfl := Except.ok.inj hm
      exact ⟨p, h⟩

/-- The members of a slot show in the surface of its owner. -/
theorem map_ids_slot (s : Session) (owner : Nat) (name : Text) :
  (s.slot (.slot owner name)).map ids = (s.surface owner).bind fun x => x.2.siblings name
  := by
  rw [slot_slot, surface]
  cases s.node owner with
  | error => rfl
  | ok m => exact (Shape.siblings_map Tree.id m.shape name).symm

/-! ### Replacing a list -/

/-- From one session to another, the list of siblings at an address became this one.  Every
other list has the members that it had, and every node its label and its fields. -/
structure Relists (place : Place) (new : List Node) (s s' : Session) : Prop where
  slot : s'.slot place = .ok new
  others : ∀ other, other ≠ place → (s'.slot other).map ids = (s.slot other).map ids
  frames : ∀ i, (s'.node i).map Node.frame = (s.node i).map Node.frame

theorem map_frame_node (s : Session) (i : Nat) :
  (s.node i).map Node.frame
    = (s.surface i).map fun x => (x.1, x.2.mapSlots fun _ => [])
  := by
  rw [surface]
  cases s.node i with
  | error => rfl
  | ok n => exact congrArg Except.ok n.frame_eq

/-- Where the root is replaced and all surfaces stay, nothing else changes. -/
theorem relists_root (h : s.Sound) (h' : s'.Sound) (hroot : s'.root = new)
    (hsurfaces : surfaces s'.tops = surfaces s.tops) :
  Relists .root new s s'
  := by
  have hsurface : ∀ i, s'.surface i = s.surface i := by
    intro i
    apply h.surface_congr h'
    intro x _
    rw [hsurfaces]
  constructor
  · exact congrArg Except.ok hroot
  · rintro (_ | ⟨owner, name⟩) hother
    · contradiction
    · rw [map_ids_slot, map_ids_slot, hsurface]
  · intro i
    rw [map_frame_node, map_frame_node, hsurface]

/-- Where one slot of a node is replaced, nothing else changes. -/
theorem relists_slot {owner : Nat} {name : Text} {p : SlotName} (h : s.Sound) (h' : s'.Sound)
    (hm : s.node owner = .ok m) (hnamed : m.shape.named? name = some (p, old))
    (hmem : m.withShape (m.shape.setSlot p new) ∈ walk s'.tops)
    (hroot : ids s'.root = ids s.root)
    (hsurfaces : surfaces s'.tops + {m.surface}
      = surfaces s.tops + {Node.surface (m.withShape (m.shape.setSlot p new))}) :
  Relists (.slot owner name) new s s'
  := by
  obtain ⟨hwalk, rfl⟩ := h.node_eq_ok_iff.1 hm
  have hsound := h.sound m hwalk
  have hm' : s'.node m.id = .ok (m.withShape (m.shape.setSlot p new)) :=
    h'.node_eq_ok_iff.2 ⟨hmem, rfl⟩
  have hsurface : ∀ i, i ≠ m.id → s'.surface i = s.surface i := by
    intro i hi
    apply h.surface_congr h'
    intro x hx
    have hne : x ≠ m.surface ∧ x ≠ Node.surface (m.withShape (m.shape.setSlot p new)) := by
      constructor <;>
      · rintro rfl
        apply hi hx.symm
    have hiff : x ∈ surfaces s'.tops + {m.surface}
        ↔ x ∈ surfaces s.tops + {Node.surface (m.withShape (m.shape.setSlot p new))} := by
      rw [hsurfaces]
    simpa [hne] using hiff
  constructor
  · apply slot_eq_ok_iff.2
    refine ⟨_, p, hm', ?_⟩
    rw [show (m.withShape (m.shape.setSlot p new)).shape = m.shape.setSlot p new from rfl,
      Shape.named?_setSlot hnamed, if_pos rfl]
  · rintro (_ | ⟨other, otherName⟩) hother
    · exact congrArg Except.ok hroot
    · rw [map_ids_slot, map_ids_slot]
      by_cases howner : other = m.id
      · subst howner
        have hname : otherName ≠ name := by
          rintro rfl
          apply hother rfl
        rw [surface, surface, hm, hm']
        change ((m.shape.setSlot p new).map Tree.id).siblings otherName
          = (m.shape.map Tree.id).siblings otherName
        rw [Shape.siblings_map, Shape.siblings_map, Shape.siblings, Shape.siblings,
          Shape.named?_setSlot hnamed, if_neg hname]
      · rw [hsurface other howner]
  · intro i
    by_cases hi : i = m.id
    · subst hi
      rw [hm, hm']
      apply congrArg Except.ok
      exact Prod.ext rfl (Shape.frame_setSlot (Shape.mem_slots_of_named? hnamed).1 hsound new)
    · rw [map_frame_node, map_frame_node, hsurface i hi]

/-! ### Soundness after a step -/

/-- From one session to another no node is lost, and the nodes that are new have the identifiers
that were taken, each one of them. -/
structure Keeps (s s' : Session) : Prop where
  next_le : s.supply.next ≤ s'.supply.next
  ids_eq : Formula.ids s'.tops = Formula.ids s.tops + Multiset.Ico s.supply.next s'.supply.next

theorem Keeps.of_eq (hnext : s'.supply = s.supply)
    (hids : Formula.ids s'.tops = Formula.ids s.tops) :
  Keeps s s'
  := by
  constructor
  · rw [hnext]
  · rw [hnext, Multiset.Ico_self, add_zero, hids]

/-- A session is sound after a step that keeps the nodes. -/
theorem Sound.of_keeps (h : s.Sound) (hkeeps : Keeps s s') (hsound : AllSound s'.tops) :
  s'.Sound
  where
  sound := hsound
  nodup := by
    rw [hkeeps.ids_eq, Multiset.nodup_add]
    refine ⟨h.nodup, Multiset.nodup_Ico, ?_⟩
    rw [Multiset.disjoint_left]
    intro i hi hnew
    have hlt := h.lt i hi
    have hge := (Multiset.mem_Ico.1 hnew).1
    omega
  lt i hi := by
    have hle := hkeeps.next_le
    rw [hkeeps.ids_eq, Multiset.mem_add, Multiset.mem_Ico] at hi
    rcases hi with hi | hi
    · have hlt := h.lt i hi
      omega
    · apply hi.2

/-- The nodes of a part of a sound session are sound and differ. -/
theorem Sound.of_perm (h : s.Sound) (hnext : s'.supply = s.supply) {out : List Node}
    (hperm : s.tops.Perm (s'.tops ++ out)) :
  s'.Sound
  where
  sound := by
    apply h.sound.of_surfaces_le
    rw [surfaces_perm hperm, surfaces_append]
    apply Multiset.subset_of_le (Multiset.le_add_right _ _)
  nodup := by
    have hnodup := h.nodup
    rw [ids_perm hperm, ids_append, Multiset.nodup_add] at hnodup
    apply hnodup.1
  lt i hi := by
    rw [hnext]
    apply h.lt
    rw [ids_perm hperm, ids_append]
    apply Multiset.mem_add.2 (Or.inl hi)

/-! ### Setting a slot -/

theorem tops_alter (f : Node → Node) :
  (s.alter i f).tops = s.tops.map (Node.alter i f)
  := List.map_append.symm

/-- The owner of a slot is replaced by the node with the other slot. -/
theorem Sound.replaced_setSlot {owner : Nat} {name : Text} {p : SlotName} (h : s.Sound)
    (new : List Node) (hm : s.node owner = .ok m) (hnamed : m.shape.named? name = some (p, old)) :
  Replaced s.tops (s.setSlot (.slot owner name) new).tops m
    (m.withShape (m.shape.setSlot p new))
  := by
  obtain ⟨hwalk, hid⟩ := h.node_eq_ok_iff.1 hm
  obtain ⟨fill, hset, hfill, hm'⟩ : ∃ fill : Node → Node,
      s.setSlot (.slot owner name) new = s.alter owner fill ∧ (∀ n, (fill n).id = n.id) ∧
      fill m = m.withShape (m.shape.setSlot p new) := by
    refine ⟨_, rfl, ?_, ?_⟩
    · intro n
      split <;> rfl
    · simp only [hnamed]
  rw [hset, tops_alter, ← hm']
  apply replaced_map_alter hfill h.sound h.nodup hwalk hid

/-- Where a slot of a node is replaced, what stood in it goes and the new nodes come. -/
theorem surfaces_withSlot {name : Text} {p : SlotName} (new : List Node)
    (hnamed : m.shape.named? name = some (p, old)) :
  surfaces [m.withShape (m.shape.setSlot p new)] + surfaces old + {m.surface}
    = surfaces [m] + surfaces new + {Node.surface (m.withShape (m.shape.setSlot p new))}
  := by
  have hslots := surfaces_setSlot (Shape.mem_slots_of_named? hnamed).1 new
  have hsurface : ∀ n : Node, surfaces [n] = {n.surface} + surfaces n.shape.children :=
    fun ⟨l, s⟩ => surfaces_mk
  have hshape : (m.withShape (m.shape.setSlot p new)).shape = m.shape.setSlot p new := rfl
  rw [hsurface m, hsurface (m.withShape _), hshape, add_assoc {_}, hslots]
  abel

theorem Sound.surfaces_setSlot_slot {owner : Nat} {name : Text} {p : SlotName} (h : s.Sound)
    (new : List Node) (hm : s.node owner = .ok m) (hnamed : m.shape.named? name = some (p, old)) :
  surfaces (s.setSlot (.slot owner name) new).tops + surfaces old + {m.surface}
    = surfaces s.tops + surfaces new
      + {Node.surface (m.withShape (m.shape.setSlot p new))}
  := by
  have hslot := surfaces_withSlot new hnamed
  have hreplaced := (h.replaced_setSlot new hm hnamed).surfaces
  apply add_right_cancel (b := surfaces [m])
  calc
    _ = surfaces (s.setSlot (.slot owner name) new).tops + surfaces [m]
          + (surfaces old + {m.surface}) := by abel
    _ = surfaces s.tops + (surfaces [m.withShape (m.shape.setSlot p new)] + surfaces old
          + {m.surface}) := by rw [hreplaced]; abel
    _ = _ := by rw [hslot]; abel

theorem ids_root_setSlot_slot {owner : Nat} {name : Text} :
  ids (s.setSlot (.slot owner name) new).root = ids s.root
  := by
  apply (List.map_map).trans
  apply List.map_congr_left
  intro n _
  apply Node.id_alter
  intro n
  split <;> rfl

/-- A list of siblings in the session `base` is replaced.  The nodes `front` were added to
`base` before and `back` are added afterwards; together with the lists they keep all nodes. -/
theorem Sound.relists_setSlot {base : Session} (h : s.Sound) (front back : List Node)
    (hbase : base.Sound) (hslot : base.slot place = .ok old)
    (hroot : base.root = s.root) (hfront : s.tops.Perm (base.tops ++ front))
    (hnext : s'.supply = s.supply) (hroot' : s'.root = (base.setSlot place new).root)
    (hback : s'.tops = (base.setSlot place new).tops ++ back)
    (hbalance : surfaces new + surfaces back = surfaces old + surfaces front) :
  s'.Sound ∧ Keeps s s' ∧ Relists place new s s'
  := by
  have hs : surfaces s.tops = surfaces base.tops + surfaces front := by
    rw [surfaces_perm hfront, surfaces_append]
  have hs' : surfaces s'.tops = surfaces (base.setSlot place new).tops + surfaces back := by
    rw [hback, surfaces_append]
  cases place with
  | root =>
    obtain rfl := Except.ok.inj hslot
    have hsurfaces : surfaces s'.tops = surfaces s.tops := by
      rw [hs', hs]
      change surfaces (new ++ base.loose) + _ = surfaces (base.root ++ base.loose) + _
      rw [surfaces_append, surfaces_append, add_right_comm, hbalance, add_right_comm]
    have hkeeps : Keeps s s' := by
      apply Keeps.of_eq hnext
      rw [ids_eq_map_surfaces, hsurfaces, ← ids_eq_map_surfaces]
    have hsound' : s'.Sound := by
      apply h.of_keeps hkeeps
      rw [allSound_iff_surfaces, hsurfaces, ← allSound_iff_surfaces]
      apply h.sound
    exact ⟨hsound', hkeeps, relists_root h hsound' hroot' hsurfaces⟩
  | slot owner name =>
    obtain ⟨m, p, hm, hnamed⟩ := slot_eq_ok_iff.1 hslot
    have hwalk := hbase.node_eq_ok_iff.1 hm
    have hwalk' : m ∈ walk s.tops := by
      have hmem : m ∈ walk (base.tops ++ front) := by
        rw [walk_append]
        apply List.mem_append_left _ hwalk.1
      apply (hfront.flatMap_right Tree.walk).mem_iff.2 hmem
    have hsurfaces : surfaces s'.tops + {m.surface}
        = surfaces s.tops + {Node.surface (m.withShape (m.shape.setSlot p new))} := by
      have hset := hbase.surfaces_setSlot_slot new hm hnamed
      apply add_right_cancel (b := surfaces old)
      calc
        _ = surfaces (base.setSlot (.slot owner name) new).tops + surfaces old + {m.surface}
              + surfaces back := by rw [hs']; abel
        _ = surfaces base.tops + {Node.surface (m.withShape (m.shape.setSlot p new))}
              + (surfaces new + surfaces back) := by rw [hset]; abel
        _ = _ := by rw [hbalance, hs]; abel
    have hkeeps : Keeps s s' := by
      apply Keeps.of_eq hnext
      have hids := congrArg (Multiset.map (·.1.id)) hsurfaces
      rw [Multiset.map_add, Multiset.map_add, ← ids_eq_map_surfaces,
        ← ids_eq_map_surfaces] at hids
      apply add_right_cancel hids
    have hsound' : s'.Sound := by
      apply h.of_keeps hkeeps
      rw [allSound_iff_surfaces]
      intro x hx
      have hmem : x ∈ surfaces s.tops
          + {Node.surface (m.withShape (m.shape.setSlot p new))} := by
        rw [← hsurfaces]
        apply Multiset.mem_add.2 (Or.inl hx)
      rcases Multiset.mem_add.1 hmem with hx | hx
      · apply allSound_iff_surfaces.1 h.sound x hx
      · obtain rfl := Multiset.mem_singleton.1 hx
        apply Shape.sound_mapSlotsOr_iff.2
        apply Shape.sound_setSlot (Shape.mem_slots_of_named? hnamed).1 (h.sound m hwalk')
    refine ⟨hsound', hkeeps, relists_slot h hsound' (h.node_eq_ok_iff.2 ⟨hwalk', hwalk.2⟩) hnamed ?_ ?_
      hsurfaces⟩
    · rw [hback, walk_append]
      apply List.mem_append_left _ (hbase.replaced_setSlot new hm hnamed).mem
    · rw [hroot', ids_root_setSlot_slot, hroot]

/-! ### Inserting -/

/-- A node may be put into the list at an address: it is in no list, and the list is not inside
the node. -/
structure Fits (s : Session) (n : Node) (place : Place) (slot : List Node) : Prop where
  loose : n ∈ s.loose
  slot : s.slot place = .ok slot
  outside : ∀ owner name, place = .slot owner name → owner ∉ Formula.ids [n]

theorem mem_tops_of_mem_loose (hn : n ∈ s.loose) :
  n ∈ s.tops
  := List.mem_append_right _ hn

theorem Sound.node_of_mem_tops (h : s.Sound) (hn : n ∈ s.tops) :
  s.node n.id = .ok n
  := h.node_eq_ok_iff.2 ⟨mem_walk_of_mem hn, rfl⟩

/-- The session without a loose node. -/
def without (s : Session) (i : Nat) : Session :=
  { s with loose := s.loose.filter (·.id != i) }

theorem pick_of_mem (hn : n ∈ s.loose) :
  s.pick n.id = .ok (s.without n.id)
  := if_pos (List.any_eq_true.2 ⟨n, hn, by simp⟩)

theorem exists_of_pick (h : s.pick i = .ok s') :
  (∃ n ∈ s.loose, n.id = i) ∧ s' = s.without i
  := by
  rw [pick] at h
  split at h
  · rename_i hany
    obtain ⟨n, hn, hid⟩ := List.any_eq_true.1 hany
    exact ⟨⟨n, hn, by simpa using hid⟩, (Except.ok.inj h).symm⟩
  · contradiction

/-- Taking out a loose node takes out that node only. -/
theorem perm_without (hnodup : (s.loose.map Tree.id).Nodup) (hn : n ∈ s.loose) :
  s.loose.Perm (n :: (s.without n.id).loose)
  := by
  obtain ⟨front, back, hloose⟩ := List.append_of_mem hn
  have hrest : (s.without n.id).loose = front ++ back := by
    rw [hloose, List.map_append, List.map_cons, List.nodup_append, List.nodup_cons] at hnodup
    obtain ⟨-, ⟨hback, -⟩, hdisjoint⟩ := hnodup
    rw [without, hloose, List.filter_append, List.filter_cons_of_neg (by simp),
      List.filter_eq_self.2, List.filter_eq_self.2]
    · intro k hk
      simp only [bne_iff_ne]
      intro hid
      apply hback (hid ▸ List.mem_map_of_mem hk)
    · intro k hk
      simp only [bne_iff_ne]
      apply hdisjoint _ (List.mem_map_of_mem hk) _ List.mem_cons_self
  rw [hrest, hloose]
  apply List.perm_middle

theorem Sound.nodup_loose (h : s.Sound) :
  (s.loose.map Tree.id).Nodup
  := by
  have hall := nodup_map_id h.nodup
  rw [tops, List.map_append, List.nodup_append] at hall
  apply hall.2.1

theorem Sound.perm_tops_without (h : s.Sound) (hn : n ∈ s.loose) :
  s.tops.Perm ((s.without n.id).tops ++ [n])
  := by
  have hperm := (perm_without h.nodup_loose hn).trans (List.perm_append_singleton n _).symm
  rw [tops, tops, List.append_assoc]
  apply hperm.append_left s.root

theorem Sound.without (h : s.Sound) (hn : n ∈ s.loose) :
  (s.without n.id).Sound
  := h.of_perm rfl (h.perm_tops_without hn)

/-- The list that a node is put into is there when the node is taken out. -/
theorem Fits.slot_without {slot : List Node} (hfits : s.Fits n place slot) (h : s.Sound) :
  (s.without n.id).slot place = .ok slot
  := by
  cases place with
  | root => exact hfits.slot
  | slot owner name =>
    obtain ⟨m, p, hm, hnamed⟩ := slot_eq_ok_iff.1 hfits.slot
    apply slot_eq_ok_iff.2 ⟨m, p, ?_, hnamed⟩
    rw [h.node_eq_ok_iff] at hm
    rw [(h.without hfits.loose).node_eq_ok_iff]
    refine ⟨?_, hm.2⟩
    have hwalk : m ∈ walk ((s.without n.id).tops ++ [n]) :=
      ((h.perm_tops_without hfits.loose).flatMap_right Tree.walk).mem_iff.1 hm.1
    rw [walk_append, List.mem_append] at hwalk
    apply hwalk.resolve_right
    intro hin
    apply hfits.outside owner name rfl (mem_ids.2 ⟨m, hin, hm.2⟩)

/-- A node that fits is put in exactly at the positions from the start to the end of the
list. -/
theorem Fits.insert_eq {slot : List Node} (hfits : s.Fits n place slot) (h : s.Sound) :
  s.insert n.id place position
    = if 0 ≤ position ∧ position ≤ slot.length then
        .ok ((s.without n.id).setSlot place (slot.insertIdx position.toNat n))
      else .error (.insertRange position slot.length)
  := by
  have hnode := h.node_of_mem_tops (mem_tops_of_mem_loose hfits.loose)
  rw [insert, hfits.slot, hnode]
  change (do
    if position < 0 || slot.length < position then throw (.insertRange position slot.length)
    let rest ← s.pick n.id
    let slot ← rest.slot place
    return rest.setSlot place (slot.insertIdx position.toNat n) : Except Fault Session) = _
  rw [pick_of_mem hfits.loose]
  by_cases hrange : 0 ≤ position ∧ position ≤ slot.length
  · have hok : ¬ (decide (position < 0) || decide ((slot.length : Int) < position)) = true := by
      simp only [Bool.or_eq_true, decide_eq_true_eq]
      omega
    rw [if_pos hrange, if_neg hok]
    change (do
      let slot ← (s.without n.id).slot place
      return (s.without n.id).setSlot place (slot.insertIdx position.toNat n)
        : Except Fault Session) = _
    rw [hfits.slot_without h]
    rfl
  · have hbad : (decide (position < 0) || decide ((slot.length : Int) < position)) = true := by
      simp only [Bool.or_eq_true, decide_eq_true_eq]
      omega
    rw [if_neg hrange, if_pos hbad]
    rfl

/-- Only a node that fits is put in. -/
theorem Sound.fits_of_insert (h : s.Sound) (hinsert : s.insert i place position = .ok s') :
  ∃ n slot, n.id = i ∧ s.Fits n place slot ∧ 0 ≤ position ∧ position ≤ slot.length
  := by
  have hsteps := hinsert
  obtain ⟨slot, hslot, hsteps⟩ := exists_of_bind_eq_ok hsteps
  obtain ⟨n, hn, hsteps⟩ := exists_of_bind_eq_ok hsteps
  dsimp only at hsteps
  split at hsteps
  · contradiction
  obtain ⟨rest, hpick, hsteps⟩ := exists_of_bind_eq_ok hsteps
  obtain ⟨slot', hslot', -⟩ := exists_of_bind_eq_ok hsteps
  obtain ⟨⟨k, hk, hid⟩, rfl⟩ := exists_of_pick hpick
  obtain rfl : k = n := by
    have hnode := h.node_of_mem_tops (mem_tops_of_mem_loose hk)
    rw [hid, hn] at hnode
    exact (Except.ok.inj hnode).symm
  have hfits : s.Fits k place slot := by
    refine ⟨hk, hslot, ?_⟩
    rintro owner name rfl hmem
    obtain ⟨m, -, hm, -⟩ := slot_eq_ok_iff.1 hslot'
    rw [← hid, (h.without hk).node_eq_ok_iff] at hm
    have hnodup := h.nodup
    rw [ids_perm (h.perm_tops_without hk), ids_append, Multiset.nodup_add] at hnodup
    apply Multiset.disjoint_left.1 hnodup.2.2 (mem_ids.2 ⟨m, hm.1, hm.2⟩) hmem
  refine ⟨k, slot, hid, hfits, ?_⟩
  rw [← hid, hfits.insert_eq h] at hinsert
  by_contra hrange
  rw [if_neg hrange] at hinsert
  contradiction

theorem supply_setSlot (s : Session) (place : Place) (nodes : List Node) :
  (s.setSlot place nodes).supply = s.supply
  := by
  cases place <;> rfl

/-- Putting in a node changes the list at the address only. -/
theorem Fits.relists {slot : List Node} (hfits : s.Fits n place slot) (h : s.Sound)
    {k : Nat} (hk : k ≤ slot.length)
    (hs' : s' = (s.without n.id).setSlot place (slot.insertIdx k n)) :
  s'.Sound ∧ Keeps s s' ∧ Relists place (slot.insertIdx k n) s s'
  := by
  apply h.relists_setSlot [n] [] (h.without hfits.loose) (hfits.slot_without h) rfl
    (h.perm_tops_without hfits.loose)
  · rw [hs', supply_setSlot, Session.without]
  · rw [hs']
  · rw [hs', List.append_nil]
  rw [surfaces_nil, add_zero, surfaces_perm (List.perm_insertIdx n slot hk), surfaces_cons,
    add_comm]

/-! ### Removing -/

/-- A node is taken out at every position of the list. -/
theorem remove_eq {slot : List Node} (hslot : s.slot place = .ok slot) {k : Nat}
    (hk : k < slot.length) :
  s.remove place k
    = .ok (slot[k], (s.setSlot place (slot.eraseIdx k)).addLoose [slot[k]])
  := by
  have htaken : (if (k : Int) < 0 then none else slot[(k : Int).toNat]?) = some slot[k] := by
    rw [if_neg (by omega), Int.toNat_natCast, List.getElem?_eq_getElem hk]
  rw [remove, hslot]
  dsimp only [bind, Except.bind]
  rw [htaken]
  rfl

/-- No node is taken out elsewhere. -/
theorem remove_eq_error {slot : List Node} (hslot : s.slot place = .ok slot)
    (hrange : ¬ (0 ≤ position ∧ position < slot.length)) :
  s.remove place position = .error (.removeRange position slot.length)
  := by
  have htaken : (if position < 0 then none else slot[position.toNat]?) = none := by
    split
    · rfl
    · rw [List.getElem?_eq_none]
      omega
  rw [remove, hslot]
  dsimp only [bind, Except.bind]
  rw [htaken]
  rfl

/-- Only a node of an existing list is taken out. -/
theorem exists_of_remove (hremove : s.remove place position = .ok (n, s')) :
  ∃ slot, s.slot place = .ok slot ∧ 0 ≤ position ∧ position < slot.length
  := by
  obtain ⟨slot, hslot, -⟩ := exists_of_bind_eq_ok hremove
  refine ⟨slot, hslot, ?_⟩
  by_contra hrange
  rw [remove_eq_error hslot hrange] at hremove
  contradiction

/-- Taking out a node changes the list at the address only. -/
theorem Sound.relists_remove {slot : List Node} (h : s.Sound) (hslot : s.slot place = .ok slot)
    {k : Nat} (hk : k < slot.length)
    (hs' : s' = (s.setSlot place (slot.eraseIdx k)).addLoose [slot[k]]) :
  s'.Sound ∧ Keeps s s' ∧ Relists place (slot.eraseIdx k) s s'
  := by
  apply h.relists_setSlot [] [slot[k]] h hslot rfl
  · rw [List.append_nil]
  · rw [hs', addLoose, supply_setSlot]
  · rw [hs', addLoose]
  · rw [hs', addLoose, tops, tops, List.append_assoc]
  rw [surfaces_nil, add_zero, ← surfaces_append]
  apply surfaces_perm
  apply (List.perm_append_singleton _ _).trans
  apply List.getElem_cons_eraseIdx_perm

end Session

end Formula
