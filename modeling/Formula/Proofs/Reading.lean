import Formula.Proofs.Nesting
import Formula.Proofs.Ownership

/-!
# What is read

Whatever the markup is, reading it gives nodes as they are read, which own the identifiers
that were taken, each once; or it fails for a numeral of too many digits.  The induction is on
the length of the text: the readers of the insides of an item only read shorter texts.
-/

namespace Formula

open Build Markup

variable {t : SymbolTable} {n : Nat} {s u : Text} {E : Fault → Prop}

theorem TooLong.mono {m : Nat} (h : n ≤ m) {fault : Fault} (hfault : TooLong n fault) :
  TooLong m fault
  := by
  obtain ⟨digits, hfault, hlong, hlength⟩ := hfault
  exact ⟨digits, hfault, hlong, hlength.trans h⟩

/-! ### Adding items -/

namespace Item

/-- A new script owns its base and its content. -/
theorem yields_newScript {content : List Node} (base before : List Node) (side : ScriptSide)
    (hbase : AllRead t base) (hcontent : AllRead t content) (hbefore : AllRead t before) :
  Yields (do return (← newScript base side content) :: before) id
    (ids base + ids content + ids before) (AllRead t) E
  := by
  cases side <;>
  · apply Yields.node_bind
    intro i
    apply Yields.pure
    · rw [id, ids_cons]
      simp [Shape.children, Shape.slots, -Multiset.singleton_add]
      abel
    · refine allRead_cons.2 ⟨allRead_mk.2 ⟨⟨.empty, by simp [Shape.Sound, Tree.shape], trivial⟩, ?_⟩,
        hbefore⟩
      simpa [Shape.children, Shape.slots] using ⟨hbase, hcontent⟩

/-- A script that is put into a free slot is owned by the script node. -/
theorem of_fillScript? {side : ScriptSide} {content : List Node} {last filled : Node}
    (h : fillScript? side content last = some filled) :
  ids [filled] = ids [last] + ids content
    ∧ (AllRead t [last] → AllRead t content → AllRead t [filled])
  := by
  obtain ⟨l, s⟩ := last
  unfold fillScript? at h
  split at h
  · rename_i base sub hshape
    obtain rfl : s = .script base none sub := hshape
    obtain rfl := Option.some.inj h
    constructor
    · rw [Tree.withShape, ids_mk, ids_mk]
      simp [Shape.children, Shape.slots, Tree.label]
      abel
    · intro hlast hcontent
      obtain ⟨hnode, hchildren⟩ := allRead_mk.1 hlast
      refine allRead_mk.2 ⟨⟨hnode.wrapping, Or.inl rfl, trivial⟩, ?_⟩
      simp only [Shape.children, Shape.slots, List.flatMap_cons, List.flatMap_append,
        Shape.flatMap_present, Option.getD_none, Option.getD_some, allRead_append] at hchildren ⊢
      tauto
  · rename_i base sup hshape
    obtain rfl : s = .script base sup none := hshape
    obtain rfl := Option.some.inj h
    constructor
    · rw [Tree.withShape, ids_mk, ids_mk]
      simp [Shape.children, Shape.slots, Tree.label, add_assoc]
    · intro hlast hcontent
      obtain ⟨hnode, hchildren⟩ := allRead_mk.1 hlast
      refine allRead_mk.2 ⟨⟨hnode.wrapping, Or.inr rfl, trivial⟩, ?_⟩
      simp only [Shape.children, Shape.slots, List.flatMap_cons, List.flatMap_append,
        Shape.flatMap_present, Option.getD_none, Option.getD_some, allRead_append] at hchildren ⊢
      tauto
  · contradiction

/-- The siblings after an item own what the siblings and the item owned. -/
theorem yields_addTo {i : Item} {siblings : List Node} (hsiblings : AllRead t siblings)
    (hi : AllRead t i.content) :
  Yields (i.addTo siblings) id (ids siblings + ids i.content) (AllRead t) E
  := by
  cases i with
  | nodes ns =>
    apply Yields.pure
    · simp [content, add_comm]
    · simpa using ⟨hi, hsiblings⟩
  | script side content =>
    cases siblings with
    | nil =>
      have h := yields_newScript (E := E) [] [] side allRead_nil hi allRead_nil
      simpa [addTo, Item.content] using h
    | cons last before =>
      rw [allRead_cons] at hsiblings
      unfold addTo
      dsimp only
      split
      · rename_i filled hfilled
        obtain ⟨hids, hread⟩ := of_fillScript? (t := t) hfilled
        apply Yields.pure
        · rw [id, ids_cons filled, hids, ids_cons last before]
          simp only [Item.content]
          abel
        · apply allRead_cons.2 ⟨hread hsiblings.1 hi, hsiblings.2⟩
      · have h := yields_newScript (E := E) [last] before side hsiblings.1 hi hsiblings.2
        rw [ids_cons last before, add_right_comm]
        apply h

end Item

namespace Reading

/-! ### Items -/

/-- An item is given by the first reader that takes it, and as text if none does. -/
theorem yields_step {nested : Nested} {c : Char} {cs : Text} (hc : Text.isBlank c = false)
    (h : nested.Lawful t (TooLong n)) (hlength : (c :: cs).length ≤ n) :
  YieldsItem (step t nested c cs) t 0 (TooLong n)
  := by
  rw [step]
  cases hfound : readers.findSome? fun reader => reader t nested (c :: cs) with
  | none => apply yields_literal hc
  | some b =>
    obtain ⟨reader, hreader, hb⟩ := List.exists_of_findSome?_eq_some hfound
    apply lawful_readers reader hreader n nested h (c :: cs) hlength b hb

/-- The readers of shorter texts are lawful where reading the items of a shorter text is. -/
theorem lawful_nestedBelow
    (hitem : ∀ u : Text, u.length < n → Text.skipBlanks u = u →
      YieldsItem (item t u) t 0 (TooLong n))
    (hitems : ∀ u : Text, u.length < n → ∀ keep before, AllRead t before →
      Yields (items t keep before u) id (ids before) (AllRead t) (TooLong n)) :
  (nestedBelow t n).Lawful t (TooLong n)
  where
  sequence u := by
    by_cases hu : u.length < n
    · rw [sequence_nestedBelow hu]
      apply hitems u hu false [] allRead_nil
    · have hnone : (nestedBelow t n).sequence u = pure [] := dif_neg hu
      rw [hnone]
      apply Yields.pure rfl allRead_nil
  spaced u := by
    by_cases hu : u.length < n
    · rw [spaced_nestedBelow hu]
      apply hitems u hu true [] allRead_nil
    · have hnone : (nestedBelow t n).spaced u = pure [] := dif_neg hu
      rw [hnone]
      apply Yields.pure rfl allRead_nil
  item u hskip := by
    by_cases hu : u.length < n
    · rw [item_nestedBelow hu]
      apply Yields.bind (hitem u hu hskip)
      rintro ⟨i, rest⟩ hi
      have hadd := Item.yields_addTo (E := TooLong n) (allRead_nil (t := t)) hi
      rw [ids_nil, zero_add] at hadd
      rw [zero_add, ← zero_add (ids _)]
      apply Yields.bind_handing hadd
      intro ns hns
      apply Yields.pure
      · simp
      · simpa using hns
    · have hnone : (nestedBelow t n).item u = pure ([], u) := dif_neg hu
      rw [hnone]
      apply Yields.pure
      · rfl
      · apply allRead_nil

/-- Blanks are kept as spaces where they count. -/
theorem items_space {c : Char} (hc : Text.isBlank c = true) (before : List Node) (s : Text) :
  items t true before (c :: s) = (do items t true ((← Build.text [' ']) :: before) s)
  := by
  rw [items.eq_def]
  simp [hc]

/-- Reading a text gives nodes as they are read, which own what was given and what was taken. -/
theorem yields_items (s : Text) :
  (Text.skipBlanks s = s → YieldsItem (item t s) t 0 (TooLong s.length))
    ∧ ∀ keep before, AllRead t before →
      Yields (items t keep before s) id (ids before) (AllRead t) (TooLong s.length)
  := by
  induction hn : s.length using Nat.strong_induction_on generalizing s with
  | h n ih =>
    subst hn
    cases s with
    | nil =>
      constructor
      · intro _
        rw [item]
        apply yieldsItem_nodes rfl allRead_nil
      · intro keep before hbefore
        rw [items_nil]
        apply Yields.pure
        · simp
        · simpa using hbefore
    | cons c cs =>
      have hitems : ∀ u : Text, u.length < (c :: cs).length → ∀ keep before, AllRead t before →
          Yields (items t keep before u) id (ids before) (AllRead t) (TooLong (c :: cs).length) :=
        fun u hu keep before hbefore => ((ih _ hu u rfl).2 keep before hbefore).mono
          (fun _ h => h) fun _ => TooLong.mono hu.le
      have hlawful : (nestedBelow t (c :: cs).length).Lawful t (TooLong (c :: cs).length) :=
        lawful_nestedBelow (fun u hu hskip => ((ih _ hu u rfl).1 hskip).mono (fun _ h => h)
          fun _ => TooLong.mono hu.le) hitems
      have hitem : Text.isBlank c = false →
          YieldsItem (item t (c :: cs)) t 0 (TooLong (c :: cs).length) := by
        intro hc
        rw [item_cons]
        apply yields_step hc hlawful le_rfl
      constructor
      · intro hskip
        apply hitem
        cases hc : Text.isBlank c with
        | false => rfl
        | true =>
          rw [Text.skipBlanks, List.dropWhile_cons_of_pos hc] at hskip
          have hle := (List.dropWhile_sublist Text.isBlank (l := cs)).length_le
          rw [hskip, List.length_cons] at hle
          omega
      · intro keep before hbefore
        cases hc : Text.isBlank c with
        | true =>
          cases keep with
          | false =>
            rw [items_blank hc]
            apply hitems cs (by simp) false before hbefore
          | true =>
            rw [items_space hc]
            apply Yields.node_bind
            intro i
            have hspace : AllRead t [.plain i (.text [' '] {} none)] :=
              allRead_text (Or.inl ⟨' ', rfl, rfl⟩)
            have hmore := hitems cs (by simp) true _ (allRead_cons.2 ⟨hspace, hbefore⟩)
            rw [ids_cons, add_comm] at hmore
            simpa [Shape.children, Shape.slots] using hmore
        | false =>
          rw [items_cons hc]
          rw [← add_zero (ids before)]
          apply Yields.bind_handing (hitem hc)
          rintro ⟨i, rest⟩ hi
          rw [← zero_add (ids before + _)]
          apply Yields.bind_handing (Item.yields_addTo hbefore hi)
          intro siblings hsiblings
          rw [zero_add]
          split
          · rename_i hshort
            apply hitems rest hshort keep siblings hsiblings
          · apply Yields.pure
            · simp
            · simpa using hsiblings

/-- Reading a text gives nodes as they are read, each with an identifier of its own that was
taken meanwhile; or it fails for a numeral of too many digits. -/
theorem yields_sequence (s : Text) :
  Yields (sequence t s) id 0 (AllRead t) (TooLong s.length)
  := (yields_items s).2 false [] allRead_nil

end Reading

/-! ### Stored depths -/

/-- A node stands among siblings or below them, with so many brackets around it. -/
inductive Stands (ns : List Node) : (depth : Nat) → Node → Prop
  | top {n : Node} : n ∈ ns → Stands ns 0 n
  | inner {n k : Node} {depth : Nat} {slot : SlotName × List Node} : Stands ns depth n →
    slot ∈ n.shape.slots → k ∈ slot.2 → Stands ns (n.shape.innerDepth depth) k

/-- A bracket has the number of brackets around it as its stored depth. -/
def Shape.StoresDepth {α : Type} (depth : Nat) : Shape α → Prop
  | .bracket _ _ _ d _ _ _ => d = depth
  | _ => True

section Renest

variable {α β : Type}

theorem Shape.innerDepth_renested {f g : List α → List β} (s : Shape α) (depth : Int) (k : Nat) :
  ((s.mapSlotsOr f g).withDepth depth).innerDepth k = s.innerDepth k
  := by
  cases s <;> rfl

theorem Shape.storesDepth_withDepth (s : Shape α) (depth : Nat) :
  (s.withDepth depth).StoresDepth depth
  := by
  cases s <;> trivial

theorem Shape.children_renested {f : α → β} {g : List α → List β} (s : Shape α) (depth : Int) :
  ((s.mapSlotsOr (List.map f) g).withDepth depth).children = s.children.map f
  := by
  rw [children, slots_withDepth, slots_mapSlotsOr List.map_nil, children, List.flatMap_map,
    List.map_flatMap]

theorem Node.AsRead.renested {f : Node → Node} {g : List Node → List Node} {l : Label}
    {s : Shape Node} (depth : Int) (h : AsRead t (.mk l s)) :
  AsRead t (.mk l ((s.mapSlotsOr (List.map f) g).withDepth depth))
  := by
  have hsound := Shape.sound_mapSlotsOr_iff (f := List.map f) (g := g).2 h.sound
  have hshape := Shape.asRead_mapSlotsOr_iff (f := f) (g := g).2 h.shape
  obtain ⟨hwrapping, -, -⟩ := h
  cases s <;> exact ⟨hwrapping, hsound, hshape⟩

theorem ids_renest_node (n : Node) (depth : Nat) :
  ids [Node.renest n depth] = ids [n]
  := by
  induction n using Tree.induction generalizing depth with
  | h l s ih =>
    rw [Node.renest_mk, ids_mk, ids_mk, Shape.children_renested,
      ids_map fun n hn => ih n (s.children_subset hn) _]

theorem allRead_renest_node {n : Node} (h : AllRead t [n]) (depth : Nat) :
  AllRead t [Node.renest n depth]
  := by
  induction n using Tree.induction generalizing depth with
  | h l s ih =>
    rw [allRead_mk] at h
    rw [Node.renest_mk, allRead_mk, Shape.children_renested]
    constructor
    · apply h.1.renested
    · apply allRead_map (fun n hn hread => ih n (s.children_subset hn) hread _) h.2

theorem ids_renest (ns : List Node) :
  ids (renest ns) = ids ns
  := ids_map fun n _ => ids_renest_node n 0

theorem allRead_renest {ns : List Node} (h : AllRead t ns) :
  AllRead t (renest ns)
  := allRead_map (fun _ _ hn => allRead_renest_node hn 0) h

/-- What stands below nodes with stored depths is a node with stored depths. -/
theorem Stands.exists_renest {ns : List Node} {depth : Nat} {n : Node}
    (h : Stands (renest ns) depth n) :
  ∃ m, n = Node.renest m depth
  := by
  induction h with
  | top hn =>
    obtain ⟨m, -, rfl⟩ := List.mem_map.1 hn
    exact ⟨m, rfl⟩
  | inner _ hslot hk ih =>
    obtain ⟨⟨l, s⟩, rfl⟩ := ih
    rw [Node.renest_mk] at hslot ⊢
    simp only [Tree.shape, Shape.slots_withDepth, Shape.slots_mapSlotsOr List.map_nil,
      Shape.innerDepth_renested] at hslot ⊢
    obtain ⟨slot, -, rfl⟩ := List.mem_map.1 hslot
    obtain ⟨m, -, rfl⟩ := List.mem_map.1 hk
    exact ⟨m, rfl⟩

theorem Stands.storesDepth {ns : List Node} {depth : Nat} {n : Node}
    (h : Stands (renest ns) depth n) :
  n.shape.StoresDepth depth
  := by
  obtain ⟨⟨l, s⟩, rfl⟩ := h.exists_renest
  rw [Node.renest_mk]
  apply Shape.storesDepth_withDepth

end Renest

/-- A walk meets exactly the nodes that stand somewhere. -/
theorem mem_walk_iff_exists_stands {ns : List Node} {n : Node} :
  n ∈ walk ns ↔ ∃ depth, Stands ns depth n
  := by
  constructor
  · intro h
    have hbelow : ∀ m depth, Stands ns depth m → n ∈ Tree.walk m → ∃ depth, Stands ns depth n := by
      intro m
      induction m using Tree.induction with
      | h l s ih =>
        intro depth hm hn
        rw [Tree.walk_mk] at hn
        rcases List.mem_cons.1 hn with rfl | hn
        · exact ⟨depth, hm⟩
        · obtain ⟨child, hchild, hn⟩ := List.mem_flatMap.1 hn
          obtain ⟨slot, hslot, hmem⟩ := List.mem_flatMap.1 hchild
          apply ih child (s.children_subset hchild) _ (.inner hm hslot hmem) hn
    obtain ⟨m, hm, hn⟩ := List.mem_flatMap.1 h
    apply hbelow m 0 (.top hm) hn
  · rintro ⟨depth, h⟩
    induction h with
    | top hn => apply mem_walk_of_mem hn
    | inner _ hslot hk ih =>
      obtain ⟨m, hm, hn⟩ := List.mem_flatMap.1 ih
      apply List.mem_flatMap.2 ⟨m, hm, Tree.walk_subset hn _⟩
      apply walk_slot_subset hslot (mem_walk_of_mem hk)

/-! ### Markup -/

section Markup

variable {config : Config} {supply rest : Supply} {again : List Node}

theorem ids_store (config : Config) (ns : List Node) :
  ids (config.store ns) = ids ns
  := by
  rw [Config.store]
  split
  · apply ids_renest
  · rfl

theorem allRead_store (config : Config) {ns : List Node} (h : AllRead t ns) :
  AllRead t (config.store ns)
  := by
  rw [Config.store]
  split
  · apply allRead_renest h
  · apply h

/-- What is read from markup is as it is read, and owns the identifiers that were taken. -/
theorem yields_ofMarkup (t : SymbolTable) (config : Config) (s : Text) :
  Yields (ofMarkup t config s) id 0
    (fun again => AllRead t again ∧ ∃ made, again = config.store made) (TooLong s.length)
  := by
  apply Yields.bind (Reading.yields_sequence s)
  intro ns hns
  apply Yields.pure
  · rw [zero_add]
    apply ids_store config
  · exact ⟨allRead_store config hns, ns, rfl⟩

/-- Reading markup gives nodes, or it fails for a numeral in the markup that has too many
digits. -/
theorem exists_ok_or_tooLong_ofMarkup (t : SymbolTable) (config : Config) (s : Text)
    (supply : Supply) :
  (∃ again, ((ofMarkup t config s).runOn supply).1 = .ok again)
    ∨ ∃ fault, ((ofMarkup t config s).runOn supply).1 = .error fault ∧ TooLong s.length fault
  := by
  have h := yields_ofMarkup t config s supply
  rcases hr : (ofMarkup t config s).runOn supply with ⟨fault | again, rest⟩
  · rw [hr] at h
    exact Or.inr ⟨fault, rfl, h.2⟩
  · exact Or.inl ⟨again, rfl⟩

/-- Markup that is no longer than a numeral may be is read. -/
theorem exists_ofMarkup (t : SymbolTable) (config : Config) (hs : s.length ≤ Numeral.maxDigits)
    (supply : Supply) :
  ∃ again, ((ofMarkup t config s).runOn supply).1 = .ok again
  := by
  have h := yields_ofMarkup t config s supply
  rcases hr : (ofMarkup t config s).runOn supply with ⟨fault | again, rest⟩
  · rw [hr] at h
    obtain ⟨-, digits, -, hlong, hlength⟩ := h
    omega
  · exact ⟨again, rfl⟩

/-- A square, as reading numbers its nodes. -/
def squareNode : Node :=
  Node.plain 3 (.script [Node.plain 1 (.text ['x'] {} none)]
    (some [Node.plain 2 (.text ['2'] {} none)]) none)

/-- The identifiers of the nodes that are read are those that were taken, each once. -/
theorem perm_ids_ofMarkup (h : (ofMarkup t config s).runOn supply = (.ok again, rest)) :
  ((walk again).map Tree.id).Perm (List.range' supply.next (rest.next - supply.next))
  := by
  have hyields := yields_ofMarkup t config s supply
  rw [h] at hyields
  obtain ⟨-, hids, -⟩ := hyields
  rw [zero_add] at hids
  apply Multiset.coe_eq_coe.1 hids

/-- With no symbols, a character with a script is read as three nodes. -/
theorem perm_ids_ofMarkup_script :
  ∃ rest, (ofMarkup (.ofList []) {} "x^2".toList).runOn {} = (.ok [squareNode], rest)
    ∧ ((walk [squareNode]).map Tree.id).Perm (List.range' 1 3)
  := by
  have hread : ((ofMarkup (.ofList []) {} "x^2".toList).runOn {}).1 = .ok [squareNode]
      ∧ ((ofMarkup (.ofList []) {} "x^2".toList).runOn {}).2.next = 4 := by
    decide +kernel
  have hrun : (ofMarkup (.ofList []) {} "x^2".toList).runOn {}
      = (.ok [squareNode], ((ofMarkup (.ofList []) {} "x^2".toList).runOn {}).2) :=
    Prod.ext hread.1 rfl
  have hperm := perm_ids_ofMarkup hrun
  rw [hread.2] at hperm
  exact ⟨_, hrun, hperm⟩

/-- What is computed about the built-in glyphs: each is one character that may stand in
text. -/
theorem singleGlyphs_checked : ∀ info ∈ builtinSymbols,
    (match info.glyph with
      | [c] => isTextChar c
      | _ => false) = true
  := by decide +kernel

/-- With the built-in symbols, a text that is read is one character. -/
theorem SymbolTable.Gives.exists_char {value : Text} (h : builtin.Gives value) :
  ∃ c, value = [c] ∧ isTextChar c = true
  := by
  rcases h with h | ⟨command, hglyph⟩
  · exact h
  · obtain ⟨info, hinfo, rfl⟩ := Option.map_eq_some_iff.1 hglyph
    have hmem := List.mem_of_find?_eq_some hinfo
    rw [symbols_builtin] at hmem
    have hchecked := singleGlyphs_checked info hmem
    split at hchecked
    · rename_i c hglyph
      exact ⟨c, hglyph, hchecked⟩
    · exact absurd hchecked Bool.false_ne_true

/-- A node of an equation that is read from markup, where `depth` brackets are around it: its
fields fit together and are those that reading gives, a text is one character, and a bracket
stores its depth. -/
structure Node.IsRead (depth : Nat) (n : Node) : Prop where
  asRead : n.AsRead .builtin
  char : ∀ value format scale, n.shape = .text value format scale → ∃ c, value = [c]
  depth : n.shape.StoresDepth depth

/-- Every node of an equation that is read from markup satisfies the invariants of read
nodes. -/
theorem isRead_ofMarkup (hstore : config.storeNesting = true)
    (h : ((ofMarkup .builtin config s).runOn supply).1 = .ok again) :
  ∀ depth n, Stands again depth n → n.IsRead depth
  := by
  intro depth n hn
  have hyields := yields_ofMarkup .builtin config s supply
  rcases hr : (ofMarkup .builtin config s).runOn supply with ⟨fault | made, rest⟩
  · rw [hr] at h
    contradiction
  · rw [hr] at h hyields
    obtain rfl := Except.ok.inj h
    obtain ⟨-, -, hread, made', rfl⟩ := hyields
    have hnode := hread n (mem_walk_iff_exists_stands.2 ⟨depth, hn⟩)
    refine ⟨hnode, ?_, ?_⟩
    · intro value format scale hshape
      have hgives := hnode.shape
      rw [hshape] at hgives
      obtain ⟨c, hc, -⟩ := hgives.1.exists_char
      exact ⟨c, hc⟩
    · rw [Config.store, if_pos hstore] at hn
      apply hn.storesDepth

theorem exists_isRead_ofMarkup_bracket :
  ∃ again, ((ofMarkup .builtin {} "\\left(x^2\\right)".toList).runOn {}).1 = .ok again
    ∧ ∀ depth n, Stands again depth n → n.IsRead depth
  := by
  obtain ⟨again, h⟩ :=
    exists_ofMarkup .builtin {} (s := "\\left(x^2\\right)".toList) (by decide) {}
  exact ⟨again, h, isRead_ofMarkup rfl h⟩

end Markup

end Formula
