import Formula.Proofs.Placing
import Formula.Proofs.Reading
import Formula.Session.Request

/-!
# Runs of requests

Every session that arises from requests is sound: each request keeps the nodes there are, and
the nodes that it makes have the identifiers that it takes.  From this follows what a user of a
session relies on, which `Session.Safe` collects.
-/

namespace Formula

/-! ### Blueprints -/

theorem Blueprint.runOn_node (shape : Shape Node) (supply : Supply) :
  (Build.node shape).runOn supply
    = (.ok (.plain supply.next shape), { supply with next := supply.next + 1 })
  := rfl

/-- A blueprint is refused, or it makes a node with a new identifier from the nodes that go into
it.  An identifier is taken for every node that is made and for an empty grid. -/
theorem Blueprint.runOn_build (blueprint : Blueprint) (supply : Supply) :
  (∃ shape, blueprint.build.runOn supply
      = (.ok (.plain supply.next shape), { supply with next := supply.next + 1 })
    ∧ blueprint.isEmptyGrid = false ∧ shape.children = blueprint.parts)
  ∨ ∃ fault, blueprint.build.runOn supply
      = (.error fault,
        { supply with next := supply.next + if blueprint.isEmptyGrid then 1 else 0 })
  := by
  have hgrid : ∀ {rows cols : Int} (shape : Grid Node → Shape Node),
      (∀ g : Grid Node, g.Sound → (shape g).children = g.cells.flatMap (·.2)) →
      (∃ s, (grid rows cols shape).runOn supply
          = (.ok (.plain supply.next s), { supply with next := supply.next + 1 })
        ∧ (decide (rows < 1) || decide (cols < 1)) = false ∧ s.children = [])
      ∨ ∃ fault, (grid rows cols shape).runOn supply
          = (.error fault, { supply with
              next := supply.next + if decide (rows < 1) || decide (cols < 1) then 1 else 0 }) := by
    intro rows cols shape hshape
    cases hsize : decide (rows < 1) || decide (cols < 1) with
    | true =>
      refine Or.inr ⟨.emptyGrid rows cols, ?_⟩
      simp only [grid, hsize, if_true]
      rfl
    | false =>
      refine Or.inl ⟨shape (.blank rows.toNat cols.toNat), ?_, rfl, ?_⟩
      · simp only [grid, hsize]
        rfl
      · simp only [Bool.or_eq_false_iff, decide_eq_false_iff_not] at hsize
        rw [hshape _ (Grid.sound_blank (by omega) (by omega))]
        simp [Grid.blank, Grid.visible, Grid.cell]
  cases blueprint with
  | script hasSuperscript hasSubscript =>
    rw [build]
    split
    · refine Or.inl ⟨_, runOn_node _ _, rfl, ?_⟩
      cases hasSuperscript <;> cases hasSubscript <;> rfl
    · exact Or.inr ⟨_, rfl⟩
  | evaluationBracket style =>
    rw [build]
    split
    · exact Or.inl ⟨_, runOn_node _ _, rfl, rfl⟩
    · exact Or.inr ⟨_, rfl⟩
  | largeOperator operator =>
    rw [build]
    split
    · exact Or.inl ⟨_, runOn_node _ _, rfl, rfl⟩
    · exact Or.inr ⟨_, rfl⟩
  | derivative order =>
    rw [build]
    split
    · refine Or.inl ⟨_, runOn_node _ _, rfl, ?_⟩
      cases order with
      | number => rfl
      | sequence nodes => simp [Shape.children, Shape.slots, Order.slot?, parts]
    · exact Or.inr ⟨_, rfl⟩
  | integral type style bounds =>
    refine Or.inl ⟨_, runOn_node _ _, rfl, ?_⟩
    cases bounds <;> rfl
  | matrix rows cols delimiters => apply hgrid (.matrix delimiters) fun g hg => hg.flatMap_slots
  | stack rows cols => apply hgrid .stack fun g hg => hg.flatMap_slots
  | cases rows cols => apply hgrid .cases fun g hg => hg.flatMap_slots
  | accent type =>
    refine Or.inl ⟨_, runOn_node _ _, rfl, ?_⟩
    cases type <;> rfl
  | function type =>
    rw [build]
    split
    · exact Or.inl ⟨_, runOn_node _ _, rfl, rfl⟩
    · exact Or.inr ⟨_, rfl⟩
  | _ => exact Or.inl ⟨_, runOn_node _ _, rfl, rfl⟩

/-- Below a node that a walk meets all nodes are met. -/
theorem AllSound.of_mem_walk {ns : List Node} {n : Node} (h : AllSound ns) (hn : n ∈ walk ns) :
  AllSound [n]
  := by
  obtain ⟨m, hm, hn⟩ := List.mem_flatMap.1 hn
  intro k hk
  rw [walk, List.flatMap_singleton] at hk
  apply h k (List.mem_flatMap.2 ⟨m, hm, Tree.walk_subset hn hk⟩)

namespace Session

variable {t : SymbolTable} {config : Config} {s s' : Session} {i : Nat} {n m : Node}
  {place : Place}

/-! ### Steps -/

/-- The nodes that go into a new node are taken out of the loose ones. -/
theorem perm_of_foldlM_pick {parts : List Node} (hnodup : (s.loose.map Tree.id).Nodup)
    (hparts : ∀ k ∈ parts, ∀ l ∈ s.loose, l.id = k.id → l = k)
    (hpick : parts.foldlM (fun s n => s.pick n.id) s = .ok s') :
  s'.root = s.root ∧ s'.supply = s.supply ∧ s.loose.Perm (s'.loose ++ parts)
  := by
  induction parts generalizing s with
  | nil =>
    obtain rfl := Except.ok.inj hpick
    exact ⟨rfl, rfl, by rw [List.append_nil]⟩
  | cons k parts ih =>
    rw [List.foldlM_cons] at hpick
    obtain ⟨rest, hrest, hpick⟩ := exists_of_bind_eq_ok hpick
    obtain ⟨⟨l, hl, hid⟩, rfl⟩ := exists_of_pick hrest
    obtain rfl := hparts k List.mem_cons_self l hl hid
    have hperm := perm_without hnodup hl
    have hsub : (s.without l.id).loose.Sublist s.loose := List.filter_sublist
    obtain ⟨hroot, hsupply, hloose⟩ := ih (hnodup.sublist (hsub.map _))
      (fun k hk l hl => hparts k (List.mem_cons_of_mem _ hk) l (hsub.subset hl)) hpick
    refine ⟨hroot, hsupply, hperm.trans ?_⟩
    exact (hloose.cons l).trans List.perm_middle.symm

/-- Making a node takes one identifier for it, or none if it is refused, except for an empty
grid. -/
theorem Sound.create (h : s.Sound) {blueprint : Blueprint}
    (hparts : ∀ n ∈ blueprint.parts, n ∈ s.loose) :
  (∃ n s', s.create blueprint = (.ok n, s') ∧ blueprint.isEmptyGrid = false ∧ s'.Sound
    ∧ Keeps s s')
  ∨ ∃ fault, s.create blueprint
      = (.error fault, { s with supply := { s.supply with
          next := s.supply.next + if blueprint.isEmptyGrid then 1 else 0 } })
  := by
  have hagree : ∀ k ∈ blueprint.parts, ∀ l ∈ s.loose, l.id = k.id → l = k :=
    fun k hk l hl hid => List.inj_on_of_nodup_map h.nodup_loose hl (hparts k hk) hid
  rw [Session.create]
  cases hpick : blueprint.parts.foldlM (fun s n => s.pick n.id) s with
  | error fault =>
    have hgrid : blueprint.isEmptyGrid = false := by
      cases blueprint with
      | derivative => rfl
      | _ => contradiction
    refine Or.inr ⟨fault, ?_⟩
    rw [hgrid]
    rfl
  | ok rest =>
    obtain ⟨hroot, -, hperm⟩ := perm_of_foldlM_pick h.nodup_loose hagree hpick
    dsimp only [build]
    rcases blueprint.runOn_build s.supply with ⟨shape, hbuild, hgrid, hchildren⟩ | ⟨fault, hbuild⟩
    · refine Or.inl ⟨_, _, by rw [hbuild], hgrid, ?_⟩
      have htops : s.tops.Perm (rest.root ++ rest.loose ++ blueprint.parts) := by
        rw [hroot, List.append_assoc]
        apply hperm.append_left s.root
      set s' : Session := { rest with
          supply := { s.supply with next := s.supply.next + 1 } }.addLoose
        [.plain s.supply.next shape] with hs'
      have htops' : s'.tops = rest.root ++ rest.loose ++ [.plain s.supply.next shape] :=
        (List.append_assoc _ _ _).symm
      have hkeeps : Keeps s s' := by
        constructor
        · apply Nat.le_succ
        · have hsingle : Multiset.Ico s.supply.next (s.supply.next + 1) = {s.supply.next} :=
            congrArg Finset.val (Nat.Ico_succ_singleton s.supply.next)
          change _ = _ + Multiset.Ico s.supply.next (s.supply.next + 1)
          simp only [htops', ids_perm htops, hsingle, ids_append, ids_mk, hchildren]
          abel
      refine ⟨h.of_keeps hkeeps ?_, hkeeps⟩
      have hshape :=
        Build.Meets.of_ok (Blueprint.sound_build blueprint) (congrArg Prod.fst hbuild)
      have hsound := (allSound_perm htops).1 h.sound
      rw [allSound_append] at hsound
      rw [htops', allSound_append, allSound_mk, hchildren]
      exact ⟨hsound.1, hshape, hsound.2⟩
    · refine Or.inr ⟨fault, ?_⟩
      rw [hbuild]

/-- Reading markup makes the nodes that are read, and keeps the nodes of the old root. -/
theorem Sound.read (h : s.Sound) (t : SymbolTable) (config : Config) (markup : Text) :
  (∃ s', s.read t config markup = (.ok (), s') ∧ s'.Sound ∧ Keeps s s')
  ∨ ∃ fault next, s.supply.next ≤ next.next
    ∧ s.read t config markup = (.error fault, { s with supply := next })
  := by
  have hyields := yields_ofMarkup t config markup s.supply
  rw [Session.read, build]
  rcases hr : (ofMarkup t config markup).runOn s.supply with ⟨fault | ns, rest⟩
  · rw [hr] at hyields
    exact Or.inr ⟨fault, rest, hyields.1, rfl⟩
  · rw [hr] at hyields
    obtain ⟨hle, hids, hread, -⟩ := hyields
    refine Or.inl ⟨_, rfl, ?_⟩
    set s' : Session := { s with supply := rest, root := ns }.addLoose s.root
    have htops' : s'.tops.Perm (s.tops ++ ns) := by
      apply List.perm_append_comm.trans
      apply List.Perm.append_right ns List.perm_append_comm
    have hkeeps : Keeps s s' := by
      refine ⟨hle, ?_⟩
      rw [ids_perm htops', ids_append]
      rw [zero_add] at hids
      exact congrArg _ hids
    refine ⟨h.of_keeps hkeeps ?_, hkeeps⟩
    rw [allSound_perm htops', allSound_append]
    exact ⟨h.sound, fun n hn => (hread n hn).sound⟩

/-- Changing the wrapping of a node keeps all nodes. -/
theorem Sound.alter_wrapping (h : s.Sound) (hn : s.node i = .ok n) (w : Wrapping) :
  (s.alter i (·.withWrapping w)).Sound ∧ Keeps s (s.alter i (·.withWrapping w))
  := by
  obtain ⟨hwalk, hid⟩ := h.node_eq_ok_iff.1 hn
  have hreplaced := replaced_map_alter (f := fun n => n.withWrapping w) (fun _ => rfl) h.sound
    h.nodup hwalk hid
  rw [← tops_alter] at hreplaced
  have hsound : AllSound [n] := h.sound.of_mem_walk hwalk
  have hkeeps : Keeps s (s.alter i (·.withWrapping w)) := 
    Keeps.of_eq rfl (hreplaced.ids_eq (ids_withWrapping n w))
  refine ⟨h.of_keeps hkeeps (hreplaced.allSound h.sound ?_), hkeeps⟩
  obtain ⟨l, shape⟩ := n
  exact allSound_mk.2 (allSound_mk.1 hsound)

/-! ### Requests -/

theorem exists_of_map_eq_ok {ε α β : Type} {x : Except ε α} {f : α → β} {b : β}
    (h : x.map f = .ok b) :
  ∃ a, x = .ok a ∧ f a = b
  := by
  cases x with
  | error => contradiction
  | ok a => exact ⟨a, rfl, Except.ok.inj h⟩

/-- An edit that is refused leaves the session, and one that is carried out leads to another. -/
theorem after_cases (s : Session) (r : Except Fault Session) :
  (∃ s', r = .ok s' ∧ s.after r = (.ok (), s'))
  ∨ ∃ fault, r = .error fault ∧ s.after r = (.error fault, s)
  := by
  cases r with
  | ok s' => exact Or.inl ⟨s', rfl, rfl⟩
  | error fault => exact Or.inr ⟨fault, rfl, rfl⟩

theorem Sound.insert (h : s.Sound) {position : Int}
    (hinsert : s.insert i place position = .ok s') :
  s'.Sound ∧ Keeps s s'
  := by
  obtain ⟨n, slot, rfl, hfits, hrange⟩ := h.fits_of_insert hinsert
  rw [hfits.insert_eq h, if_pos hrange] at hinsert
  obtain ⟨hsound, hkeeps, -⟩ := hfits.relists h (k := position.toNat) (by omega)
    (Except.ok.inj hinsert).symm
  exact ⟨hsound, hkeeps⟩

theorem Sound.remove (h : s.Sound) {position : Int}
    (hremove : s.remove place position = .ok (n, s')) :
  s'.Sound ∧ Keeps s s'
  := by
  obtain ⟨slot, hslot, hnonneg, hlt⟩ := exists_of_remove hremove
  obtain ⟨k, rfl⟩ := Int.eq_ofNat_of_zero_le hnonneg
  have hk : k < slot.length := by omega
  rw [remove_eq hslot hk] at hremove
  obtain ⟨hsound, hkeeps, -⟩ := h.relists_remove hslot hk (Prod.mk.inj (Except.ok.inj hremove)).2.symm
  exact ⟨hsound, hkeeps⟩

theorem Sound.wrap (h : s.Sound) {kind : WrapperKind} {given : WrapperParam}
    (hwrap : s.wrap i kind given = .ok s') :
  s'.Sound ∧ Keeps s s'
  := by
  obtain ⟨n, hn, hwrap⟩ := exists_of_bind_eq_ok hwrap
  obtain ⟨w, -, hwrap⟩ := exists_of_bind_eq_ok hwrap
  obtain rfl := Except.ok.inj hwrap
  apply h.alter_wrapping hn

theorem Sound.unwrap (h : s.Sound) {kind : WrapperKind} (hunwrap : s.unwrap i kind = .ok s') :
  s'.Sound ∧ Keeps s s'
  := by
  obtain ⟨n, hn, hunwrap⟩ := exists_of_bind_eq_ok hunwrap
  obtain rfl := Except.ok.inj hunwrap
  apply h.alter_wrapping hn

/-- A request that is refused leaves the root and the loose nodes.  It takes no identifiers,
but for an empty grid that is asked for and for markup that is not read to the end. -/
structure Refuses (r : Request) (s s' : Session) : Prop where
  root : s'.root = s.root
  loose : s'.loose = s.loose
  next_le : s.supply.next ≤ s'.supply.next
  next : (∀ markup, r ≠ .read markup) →
    s'.supply.next = s.supply.next + if r.isEmptyGrid then 1 else 0

/-- A request is carried out, and the nodes are kept, or it is refused. -/
theorem Sound.perform (h : s.Sound) (t : SymbolTable) (config : Config) {r : Request}
    (hr : s.Admits r) :
  (∃ s', s.perform t config r = (.ok (), s') ∧ s'.Sound ∧ Keeps s s')
  ∨ ∃ fault s', s.perform t config r = (.error fault, s') ∧ Refuses r s s'
  := by
  have hafter : ∀ result : Except Fault Session, s.perform t config r = s.after result →
      r.isEmptyGrid = false → (∀ s', result = .ok s' → s'.Sound ∧ Keeps s s') →
      (∃ s', s.perform t config r = (.ok (), s') ∧ s'.Sound ∧ Keeps s s')
      ∨ ∃ fault s', s.perform t config r = (.error fault, s') ∧ Refuses r s s' := by
    intro result hperform hgrid hok
    rcases s.after_cases result with ⟨s', hs', heq⟩ | ⟨fault, -, heq⟩
    · exact Or.inl ⟨s', hperform.trans heq, hok s' hs'⟩
    · refine Or.inr ⟨fault, s, hperform.trans heq, rfl, rfl, le_rfl, ?_⟩
      rw [hgrid]
      intro _
      rfl
  cases r with
  | create blueprint =>
    rcases h.create hr with ⟨n, s', hcreate, -, hs'⟩ | ⟨fault, hcreate⟩
    · refine Or.inl ⟨s', ?_, hs'⟩
      rw [Session.perform, hcreate]
      rfl
    · have hperform : s.perform t config (.create blueprint) = (.error fault, { s with supply :=
          { s.supply with
            next := s.supply.next + if blueprint.isEmptyGrid then 1 else 0 } }) := by
        rw [Session.perform, hcreate]
        rfl
      exact Or.inr ⟨fault, _, hperform, rfl, rfl, Nat.le_add_right _ _, fun _ => rfl⟩
  | read markup =>
    rcases h.read t config markup with ⟨s', hread, hs'⟩ | ⟨fault, next, hle, hread⟩
    · exact Or.inl ⟨s', hread, hs'⟩
    · exact Or.inr ⟨fault, _, hread, rfl, rfl, hle, fun hno => absurd rfl (hno markup)⟩
  | insert i place position => apply hafter _ rfl rfl fun s' => h.insert
  | remove place position =>
    apply hafter _ rfl rfl
    intro s' hs'
    obtain ⟨⟨n, s'⟩, hremove, rfl⟩ := exists_of_map_eq_ok hs'
    apply h.remove hremove
  | wrap i kind given => apply hafter _ rfl rfl fun s' => h.wrap
  | unwrap i kind => apply hafter _ rfl rfl fun s' => h.unwrap

/-- Every session that arises is sound. -/
theorem Arises.sound (h : Arises t config s) :
  s.Sound
  := by
  induction h with
  | start => exact ⟨fun n hn => by contradiction, Multiset.nodup_zero, fun i hi => by contradiction⟩
  | @step s r _ hr ih =>
    rcases ih.perform t config hr with ⟨s', hs', hsound, -⟩ | ⟨fault, s', hs', hrefuses⟩
    · rw [hs']
      apply hsound
    · rw [hs']
      have htops : s'.tops = s.tops := by rw [tops, tops, hrefuses.root, hrefuses.loose]
      refine ⟨htops ▸ ih.sound, htops ▸ ih.nodup, ?_⟩
      intro i hi
      rw [htops] at hi
      apply (ih.lt i hi).trans_le hrefuses.next_le

/-! ### Safety -/

/-- What a user of a session relies on. -/
structure Safe (t : SymbolTable) (config : Config) (s : Session) : Prop where
  /-- No two nodes have one identifier. -/
  nodup : (Formula.ids s.tops).Nodup
  /-- The identifiers that are to come are greater than those of the nodes. -/
  lt : ∀ i ∈ Formula.ids s.tops, i < s.supply.next
  /-- A request that is carried out loses no node, and new nodes have new identifiers. -/
  keeps : ∀ r s', s.Admits r → s.perform t config r = (.ok (), s') → Keeps s s'
  /-- A request that is refused changes nothing. -/
  refuses : ∀ r fault s', s.Admits r → s.perform t config r = (.error fault, s') →
    Refuses r s s'
  /-- An empty grid is refused. -/
  emptyGrid : ∀ r, s.Admits r → r.isEmptyGrid = true →
    ∃ fault, (s.perform t config r).1 = .error fault
  /-- A node that fits is put in at the positions from the start to the end of the list, and
  taking it out again restores the list. -/
  insert : ∀ n place slot, s.Fits n place slot → ∀ position : Int,
    if 0 ≤ position ∧ position ≤ slot.length then
      ∃ s', s.insert n.id place position = .ok s'
        ∧ Relists place (slot.insertIdx position.toNat n) s s'
        ∧ ∃ s'', s'.remove place position = .ok (n, s'') ∧ Relists place slot s' s''
    else s.insert n.id place position = .error (.insertRange position slot.length)
  /-- The node at any position in a list is taken out, and is loose afterwards. -/
  remove : ∀ place slot, s.slot place = .ok slot → ∀ position : Int,
    if 0 ≤ position ∧ position < slot.length then
      ∃ n s', slot[position.toNat]? = some n ∧ s.remove place position = .ok (n, s')
        ∧ Relists place (slot.eraseIdx position.toNat) s s' ∧ n ∈ s'.loose
    else s.remove place position = .error (.removeRange position slot.length)
  /-- The node of an identifier is found where it stands in the equation, and only there. -/
  found : ∀ i n, findById s.root i = some n ↔ n.id = i ∧ ∃ depth, Stands s.root depth n

/-- Taking out a node at a position of a list in a sound session. -/
theorem Sound.exists_remove (h : s.Sound) {slot : List Node} (hslot : s.slot place = .ok slot)
    {k : Nat} (hk : k < slot.length) :
  ∃ s', s.remove place k = .ok (slot[k], s') ∧ Relists place (slot.eraseIdx k) s s'
    ∧ slot[k] ∈ s'.loose
  := by
  refine ⟨_, remove_eq hslot hk, (h.relists_remove hslot hk rfl).2.2, ?_⟩
  apply List.mem_append_right _ List.mem_cons_self

/-- Every session that arises is safe. -/
theorem Arises.safe (h : Arises t config s) :
  s.Safe t config
  := by
  have hs := h.sound
  constructor
  · apply hs.nodup
  · apply hs.lt
  · intro r s' hr hperform
    rcases hs.perform t config hr with ⟨s'', hs'', -, hkeeps⟩ | ⟨fault, s'', hs'', -⟩
    · rw [hperform] at hs''
      obtain rfl := (Prod.mk.inj hs'').2
      apply hkeeps
    · cases hperform.symm.trans hs''
  · intro r fault s' hr hperform
    rcases hs.perform t config hr with ⟨s'', hs'', -⟩ | ⟨fault', s'', hs'', hrefuses⟩
    · cases hperform.symm.trans hs''
    · rw [hperform] at hs''
      obtain rfl := (Prod.mk.inj hs'').2
      apply hrefuses
  · intro r hr hgrid
    cases r with
    | create blueprint =>
      rcases hs.create hr with ⟨n, s', -, hsome, -⟩ | ⟨fault, hcreate⟩
      · rw [Request.isEmptyGrid, hsome] at hgrid
        contradiction
      · refine ⟨fault, ?_⟩
        rw [Session.perform, hcreate]
        rfl
    | _ => contradiction
  · intro n place slot hfits position
    split
    · rename_i hrange
      obtain ⟨k, rfl⟩ := Int.eq_ofNat_of_zero_le hrange.1
      have hk : k ≤ slot.length := by omega
      obtain ⟨hs', -, hrelists⟩ := hfits.relists hs hk rfl
      refine ⟨_, (hfits.insert_eq hs).trans (if_pos hrange), hrelists, ?_⟩
      have hlength : k < (slot.insertIdx k n).length := by
        rw [List.length_insertIdx_of_le_length hk]
        omega
      obtain ⟨s'', hremove, hback, -⟩ := hs'.exists_remove hrelists.slot hlength
      rw [List.getElem_insertIdx_self, List.eraseIdx_insertIdx_self] at *
      exact ⟨s'', hremove, hback⟩
    · rename_i hrange
      rw [hfits.insert_eq hs, if_neg hrange]
  · intro place slot hslot position
    split
    · rename_i hrange
      obtain ⟨k, rfl⟩ := Int.eq_ofNat_of_zero_le hrange.1
      have hk : k < slot.length := by omega
      obtain ⟨s', hremove, hrelists, hloose⟩ := hs.exists_remove hslot hk
      exact ⟨slot[k], s', List.getElem?_eq_getElem hk, hremove, hrelists, hloose⟩
    · rename_i hrange
      apply remove_eq_error hslot hrange
  · intro i n
    have hnodup := hs.nodup
    rw [tops, ids_append, Multiset.nodup_add] at hnodup
    rw [findById, find?_walk_eq_some_iff hnodup.1, mem_walk_iff_exists_stands, and_comm]

/-- The requests that make the square root of a character and put it into the equation. -/
def rootRequests : List Request :=
  [.create (.text ['x'] {} none), .create .sqrt,
    .insert 1 (.slot 2 "radicand".toList) 0, .insert 2 .root 0]

/-- The session after some requests. -/
def run (t : SymbolTable) (config : Config) (rs : List Request) : Session :=
  rs.foldl (fun s r => (s.perform t config r).2) {}

theorem safe_squareRoot :
  Arises .builtin {} (run .builtin {} rootRequests)
    ∧ (run .builtin {} rootRequests).root
      = [.plain 2 (.sqrt [.plain 1 (.text ['x'] {} none)])]
    ∧ (run .builtin {} rootRequests).Safe .builtin {}
  := by
  have harises : Arises .builtin {} (run .builtin {} rootRequests) := by
    apply Arises.step (.insert 2 .root 0) _ trivial
    apply Arises.step (.insert 1 (.slot 2 "radicand".toList) 0) _ trivial
    apply Arises.step (.create .sqrt) _ (List.forall_mem_nil _)
    apply Arises.step (.create (.text ['x'] {} none)) .start (List.forall_mem_nil _)
  exact ⟨harises, by decide, harises.safe⟩

end Session

end Formula
