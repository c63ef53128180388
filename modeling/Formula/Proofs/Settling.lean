import Formula.Proofs.Appearance
import Formula.Proofs.Depths

/-!
# Settling

Two things are written alike though one of them is read as the other: an expression that spells
the numeral of an order, and a function of the user's that has the name of a built-in one.  An
equation is settled by putting what is read in place of what is written.  Its markup does not
change by that, except for the order one, which is written as an expression only, and for names
with a base, which a built-in function of that name does not have.
-/

namespace Formula

open Writing

variable {settings : Settings} {tm : Bool} {ns : List Node} {s : Shape Node}

/-! ### Settled orders and functions -/

/-- The number in place of an expression that spells it, if both are written alike. -/
def Order.settle : Order Node → Order Node
  | .number n => .number n
  | .sequence o =>
    match (numeral? o).filter fun digits => digits ≠ ['1'] ∧ digits.length ≤ Numeral.maxDigits with
    | some digits => .number (Nat.ofDigitChars 10 digits 0 : Nat)
    | none => .sequence o

/-- The command of an operator that has a name. -/
def operatorCommand (form : FunctionForm) (name : Text) : Text :=
  "\\operatorname".toList ++ (if form = .withConstraint then ['*'] else []) ++ ['{'] ++ name ++ ['}']

theorem operatorCommand_eq (form : FunctionForm) (name : Text) :
  operatorCommand form name = "\\operatorname".toList
    ++ ((if form = .withConstraint then ['*'] else []) ++ braced name)
  := by
  unfold operatorCommand braced
  simp only [List.append_assoc]

/-- The type of the built-in function that is written like a function of the user's. -/
def settledType? (type : Text) (name : List Node) : Option Text := do
  let info ← FunctionInfo.find? type
  let name ← plainText? name
  if info.command = none ∧ info.form ≠ .withBase then
    FunctionInfo.typeOf? (operatorCommand info.form name)
  else none

/-- The construct that is read where both are written alike. -/
def Shape.settle : Shape Node → Shape Node
  | .derivative o longForm isPartial mode a b => .derivative o.settle longForm isPartial mode a b
  | .function type name a b c =>
    match settledType? type name with
    | some type => .function type [] a b c
    | none => .function type name a b c
  | s => s

/-- The node with everything in it settled. -/
def Node.settle : Node → Node := Tree.fold fun l s => .mk l s.settle

theorem Node.settle_mk (l : Label) (s : Shape Node) :
  settle (.mk l s) = .mk l (s.map settle).settle
  := Tree.fold_mk _ l s

/-- What is computed about operators: without a base they are commands of built-in functions. -/
theorem operators_checked : ∀ form, form ≠ .withBase → ∀ w ∈ reservedNames form,
    ∃ info ∈ FunctionInfo.members, FunctionInfo.typeOf? (operatorCommand form w) = some info.type
      ∧ FunctionInfo.find? info.type = some info ∧ info.form = form
      ∧ info.command = some (operatorCommand form w)
  := by
  intro form
  cases form <;> decide

theorem settledType?_eq_some {type type' : Text} {name : List Node}
    (h : settledType? type name = some type') :
  ∃ info info' w, FunctionInfo.find? type = some info ∧ info.command = none
    ∧ plainText? name = some w ∧ w ∈ reservedNames info.form
    ∧ FunctionInfo.find? type' = some info' ∧ info'.form = info.form
    ∧ info'.command = some (operatorCommand info.form w)
  := by
  simp only [settledType?, Option.bind_eq_bind, Option.bind_eq_some_iff,
    Option.ite_none_right_eq_some] at h
  obtain ⟨info, hinfo, w, hname, ⟨hcommand, hform⟩, htype⟩ := h
  have hmem : w ∈ reservedNames info.form := by
    by_contra hmem
    have hnone : FunctionInfo.typeOf? (operatorCommand info.form w) = none := typeOf?_eq_none hmem
    rw [hnone] at htype
    apply Option.some_ne_none _ htype.symm
  obtain ⟨info', -, htype', hfind, hform', hcommand'⟩ := operators_checked _ hform w hmem
  rw [htype] at htype'
  obtain rfl := Option.some.inj htype'
  exact ⟨info, info', w, hinfo, hcommand, hname, hmem, hfind, hform', hcommand'⟩

/-- A function without a base that has no other type once it is settled has a name of its own. -/
theorem settledType?_eq_none {type : Text} {name : List Node} {info : FunctionInfo}
    (h : settledType? type name = none) (hinfo : FunctionInfo.find? type = some info)
    (hcommand : info.command = none) (hform : info.form ≠ .withBase) :
  ∀ w ∈ reservedNames info.form, plainText? name ≠ some w
  := by
  intro w hw hname
  obtain ⟨info', -, htype, -⟩ := operators_checked _ hform w hw
  simp [settledType?, hinfo, hname, hcommand, hform, htype] at h

/-- The number that an order becomes is not one, and has a numeral. -/
theorem Order.settle_sequence (o : List Node) :
  (Order.sequence o).settle = .sequence o
    ∧ (∀ digits, numeral? o = some digits →
        digits = ['1'] ∨ Numeral.maxDigits < digits.length)
  ∨ ∃ n : Nat, (Order.sequence o).settle = .number n ∧ 1 < n
    ∧ Numeral.isWritable n = true ∧ numeral? o = some (Numeral.write n)
  := by
  rw [settle]
  cases h : (numeral? o).filter fun digits =>
      digits ≠ ['1'] ∧ digits.length ≤ Numeral.maxDigits with
  | none =>
    refine .inl ⟨rfl, ?_⟩
    intro digits hdigits
    rw [hdigits, Option.filter_eq_none_iff] at h
    have := h digits rfl
    simp only [decide_eq_true_eq, not_and_or, not_not, Nat.not_le] at this
    exact this
  | some digits =>
    obtain ⟨hnumeral, hdigits⟩ := Option.filter_eq_some_iff.1 h
    obtain ⟨hne, hlength⟩ := of_decide_eq_true hdigits
    have hplain := (Option.filter_eq_some_iff.1 hnumeral).2
    obtain ⟨hpos, hwrite⟩ := Numeral.toDigits_ofDigitChars hplain
    have hone : Nat.ofDigitChars 10 digits 0 ≠ 1 := by
      intro hone
      rw [hone] at hwrite
      exact hne hwrite.symm
    refine .inr ⟨_, rfl, by omega, Numeral.isWritable_ofDigitChars hplain hlength, ?_⟩
    rw [hnumeral, Numeral.write_natCast, hwrite]

/-! ### Settling commutes with what keeps plain text -/

theorem Node.plainText?_settle (n : Node) :
  plainText? (settle n) = plainText? n
  := by
  obtain ⟨l, s⟩ := n
  rw [settle_mk]
  cases s with
  | function type name =>
    simp only [Shape.map, Shape.mapSlots, Shape.mapSlotsOr, Shape.settle]
    split <;> rfl
  | _ => rfl

theorem Node.plainText?_renest (n : Node) (depth : Nat) :
  plainText? (renest n depth) = plainText? n
  := by
  obtain ⟨l, s⟩ := n
  rw [renest_mk]
  cases s <;> rfl

theorem plainText?_map {f : Node → Node} (hf : ∀ n, Node.plainText? (f n) = Node.plainText? n)
    (ns : List Node) :
  plainText? (ns.map f) = plainText? ns
  := by
  induction ns with
  | nil => rfl
  | cons n ns ih => rw [List.map_cons, plainText?, plainText?, hf, ih]

theorem Order.settle_map {f : List Node → List Node} (hf : ∀ l, plainText? (f l) = plainText? l)
    (o : Order Node) :
  (Shape.mapSlotsOr.order f o).settle = Shape.mapSlotsOr.order f o.settle
  := by
  cases o with
  | number => rfl
  | sequence o =>
    simp only [Shape.mapSlotsOr.order, settle, numeral?, hf]
    split <;> rfl

/-- Settling commutes with what changes slots and keeps plain text. -/
theorem Shape.settle_mapSlotsOr {f g : List Node → List Node}
    (hf : ∀ l, plainText? (f l) = plainText? l) (hnil : f [] = []) (s : Shape Node) :
  (s.mapSlotsOr f g).settle = s.settle.mapSlotsOr f g
  := by
  cases s with
  | derivative o => simp only [mapSlotsOr, settle, Order.settle_map hf]
  | function type name =>
    simp only [mapSlotsOr, settle, settledType?, hf]
    split
    · simp only [hnil]
    · rfl
  | _ => rfl

theorem Shape.settle_map {f : Node → Node}
    (hf : ∀ n, Node.plainText? (f n) = Node.plainText? n) (s : Shape Node) :
  (s.map f).settle = s.settle.map f
  := settle_mapSlotsOr (plainText?_map hf) rfl s

theorem Shape.settle_withDepth (depth : Int) (s : Shape Node) :
  (s.withDepth depth).settle = s.settle.withDepth depth
  := by
  cases s with
  | function type name =>
    simp only [withDepth, settle]
    split <;> rfl
  | _ => rfl

theorem Shape.settle_essential (s : Shape Node) :
  s.settle.essential = s.essential.settle
  := by
  cases s with
  | function type name a b c =>
    have hfunction : (function type name a b c).essential = .function type name a b c := rfl
    rw [hfunction, settle]
    split <;> rfl
  | _ => rfl

theorem outerWrappers_settle (w : Wrapping) (s : Shape Node) :
  outerWrappers w s.settle = outerWrappers w s
  := by
  cases s with
  | function type name =>
    rw [Shape.settle]
    split <;> rfl
  | _ => rfl

theorem Shape.isText_map {α β : Type} (f : α → β) (s : Shape α) :
  (s.map f).isText = s.isText
  := by
  cases s <;> rfl

theorem Shape.isText_settle (s : Shape Node) :
  s.settle.isText = s.isText
  := by
  cases s with
  | function type name =>
    rw [settle]
    split <;> rfl
  | _ => rfl

theorem Shape.isBracket_settle (s : Shape Node) :
  s.settle.isBracket = s.isBracket
  := by
  cases s with
  | function type name =>
    rw [settle]
    split <;> rfl
  | _ => rfl

theorem Shape.innerDepth_settle (s : Shape Node) (depth : Nat) :
  s.settle.innerDepth depth = s.innerDepth depth
  := by
  rw [innerDepth, isBracket_settle, innerDepth]

theorem Node.outer_settle (n : Node) :
  outer (settle n) = outer n
  := by
  obtain ⟨l, s⟩ := n
  rw [settle_mk, outer, outer, Tree.shape, Tree.shape, outerWrappers_settle, outerWrappers_map]
  rfl

theorem Node.sketch_settle (n : Node) :
  sketch (settle n) = settle (sketch n)
  := by
  induction n using Tree.induction with
  | h l s ih =>
    have hmap : s.map (sketch ∘ settle) = s.map (settle ∘ sketch) := Shape.map_congr ih
    rw [settle_mk, sketch_mk, sketch_mk, settle_mk, Shape.map_withDepth, Shape.settle_withDepth,
      ← Shape.settle_map plainText?_sketch, Shape.map_map, Shape.map_map, hmap]

theorem Node.settle_renest (n : Node) (depth : Nat) :
  settle (renest n depth) = renest (settle n) depth
  := by
  induction n using Tree.induction generalizing depth with
  | h l s ih =>
    have hinner : (s.map settle).settle.innerDepth depth = s.innerDepth depth :=
      (Shape.innerDepth_settle _ depth).trans (Shape.innerDepth_map _ s depth)
    have hplain := plainText?_map fun n => plainText?_renest n (s.innerDepth depth)
    rw [renest_mk, settle_mk, settle_mk, renest_mk, hinner,
      ← Shape.settle_mapSlotsOr hplain rfl, Shape.map_withDepth, Shape.settle_withDepth,
      Shape.map_mapSlotsOr, Shape.mapSlotsOr_map]
    simp only [List.map_map]
    congr 3
    apply Shape.mapSlotsOr_map_congr
    intro n hn
    apply ih n hn

theorem map_sketch_settle (ns : List Node) :
  (ns.map Node.settle).map Node.sketch = (ns.map Node.sketch).map Node.settle
  := by
  rw [List.map_map, List.map_map]
  apply List.map_congr_left
  intro n _
  apply Node.sketch_settle

theorem map_settle_store (config : Config) (ns : List Node) :
  (config.store ns).map Node.settle = config.store (ns.map Node.settle)
  := map_store Node.settle_renest config ns

/-! ### Settling takes away plain text only -/

/-- What is not left of a construct that is settled is plain text. -/
theorem Shape.flatMap_children_settle {β : Type} {f : Node → List β}
    (hf : ∀ n w, Node.plainText? n = some w → f n = []) (s : Shape Node) :
  s.settle.children.flatMap f = s.children.flatMap f
  := by
  have hplain : ∀ {ns : List Node} {w}, plainText? ns = some w → ns.flatMap f = [] := by
    intro ns w h
    rw [List.flatMap_eq_nil_iff]
    intro n hn
    obtain ⟨v, hv⟩ := (plainText?_eq_some h).2 n hn
    apply hf n v hv
  cases s with
  | derivative o longForm isPartial mode a b =>
    cases o with
    | number => rfl
    | sequence o =>
      obtain ⟨hsame, -⟩ | ⟨n, hnumber, -, -, hnumeral⟩ := Order.settle_sequence o
      · rw [settle, hsame]
      · rw [settle, hnumber]
        have hnone := hplain (Option.filter_eq_some_iff.1 hnumeral).1
        simp [children, slots, slots.present, Order.slot?, hnone]
  | function type name a b c =>
    rw [settle]
    split
    · rename_i type' htype
      obtain ⟨-, -, w, -, -, hname, -⟩ := settledType?_eq_some htype
      simp [children, slots, hplain hname]
    · rfl
  | _ => rfl

theorem Shape.children_settle_subset (s : Shape Node) :
  s.settle.children ⊆ s.children
  := by
  cases s with
  | derivative o longForm isPartial mode a b =>
    cases o with
    | number => apply List.Subset.refl
    | sequence o =>
      obtain ⟨hsame, -⟩ | ⟨n, hnumber, -⟩ := Order.settle_sequence o
      · rw [settle, hsame]
        apply List.Subset.refl
      · rw [settle, hnumber]
        intro n hn
        simp_all [children, slots, slots.present, Order.slot?]
  | function type name a b c =>
    rw [settle]
    split
    · intro n hn
      simp_all [children, slots]
    · apply List.Subset.refl
  | _ => apply List.Subset.refl

/-- A walk over what is settled meets nodes that are settled. -/
theorem exists_of_mem_walk_settle {k : Node} (h : k ∈ walk (ns.map Node.settle)) :
  ∃ n ∈ walk ns, k = Node.settle n
  := by
  have hnode : ∀ m : Node, k ∈ Tree.walk m.settle → ∃ n ∈ Tree.walk m, k = Node.settle n := by
    intro m
    induction m using Tree.induction with
    | h l s ih =>
      intro hk
      rw [Node.settle_mk, Tree.walk_mk, ← Node.settle_mk] at hk
      rcases List.mem_cons.1 hk with rfl | hk
      · exact ⟨_, Tree.mem_walk_self _, rfl⟩
      · obtain ⟨child, hchild, hk⟩ := List.mem_flatMap.1 hk
        have hmem := Shape.children_settle_subset _ hchild
        rw [Shape.children_map] at hmem
        obtain ⟨m, hm, rfl⟩ := List.mem_map.1 hmem
        obtain ⟨n, hn, rfl⟩ := ih m (s.children_subset hm) hk
        refine ⟨n, ?_, rfl⟩
        rw [Tree.walk_mk]
        apply List.mem_cons_of_mem _ (List.mem_flatMap.2 ⟨m, hm, hn⟩)
  obtain ⟨settled, hsettled, hk⟩ := List.mem_flatMap.1 h
  obtain ⟨m, hm, rfl⟩ := List.mem_map.1 hsettled
  obtain ⟨n, hn, rfl⟩ := hnode m hk
  exact ⟨n, List.mem_flatMap.2 ⟨m, hm, hn⟩, rfl⟩

/-! ### What is settled is legible -/

/-- A construct that is legible once it is settled, and then has no numeral as an order. -/
structure Shape.Settleable (s : Shape Node) : Prop where
  legible : s.settle.Legible
  order : ∀ o ∈ s.settle.order?, numeral? o = none

/-- A derivative is settleable unless its order is written as one or has too many digits. -/
theorem Shape.Settleable.derivative {o a b : List Node} {longForm isPartial : Bool}
    {mode : DisplayMode} (h : ∀ digits, numeral? o = some digits →
      digits ≠ ['1'] ∧ digits.length ≤ Numeral.maxDigits) :
  (Shape.derivative (.sequence o) longForm isPartial mode a b).Settleable
  := by
  obtain ⟨hsame, hlong⟩ | ⟨n, hnumber, hn, hwritable, -⟩ := Order.settle_sequence o
  · have hnone : numeral? o = none := by
      rw [Option.eq_none_iff_forall_ne_some]
      intro digits hdigits
      obtain ⟨hne, hlength⟩ := h digits hdigits
      obtain hone | hlong := hlong digits hdigits
      · apply hne hone
      · omega
    constructor
    · rw [settle, hsame]
      intro digits hdigits
      rw [hnone] at hdigits
      contradiction
    · rw [settle, hsame]
      intro o' ho'
      obtain rfl := Option.some.inj ho'
      exact hnone
  · constructor
    · rw [settle, hnumber]
      exact ⟨by omega, hwritable⟩
    · rw [settle, hnumber]
      intro o ho
      contradiction

/-- A function is settleable unless it has a base and the name of an operator. -/
theorem Shape.Settleable.function {type : Text} {info : FunctionInfo} {name a b c : List Node}
    (hinfo : FunctionInfo.find? type = some info) (hname : info.command.isSome → name = [])
    (hbase : info.form ≠ .withBase → b = []) (hconstraint : info.form ≠ .withConstraint → c = [])
    (hreserved : type = "functionsub".toList → ∀ w ∈ reservedNames .withBase,
      plainText? name ≠ some w) :
  (Shape.function type name a b c).Settleable
  := by
  cases htype : settledType? type name with
  | some type' =>
    obtain ⟨info₁, info', w, hinfo₁, -, -, -, hinfo', hform, hcommand⟩ := settledType?_eq_some htype
    obtain rfl : info = info₁ := Option.some.inj (hinfo.symm.trans hinfo₁)
    have hsettle : (Shape.function type name a b c).settle = .function type' [] a b c := by
      rw [settle, htype]
    constructor
    · rw [hsettle]
      refine ⟨info', hinfo', fun _ => rfl, hform ▸ hbase, hform ▸ hconstraint, ?_⟩
      rw [hcommand]
      intro hnone
      contradiction
    · rw [hsettle]
      intro o ho
      contradiction
  | none =>
    have hsettle : (Shape.function type name a b c).settle = .function type name a b c := by
      rw [settle, htype]
    constructor
    · rw [hsettle]
      refine ⟨info, hinfo, hname, hbase, hconstraint, ?_⟩
      intro hcommand
      by_cases hform : info.form = .withBase
      · rw [hform]
        apply hreserved
        obtain ⟨hmem, rfl⟩ := FunctionInfo.of_find? hinfo
        rw [userDefined_checked info hmem hcommand, hform]
      · apply settledType?_eq_none htype hinfo hcommand hform
    · rw [hsettle]
      intro o ho
      contradiction

/-- A construct stays legible when its nodes are changed and keep their plain text. -/
theorem Shape.Legible.map {f : Node → Node} (hf : ∀ n, Node.plainText? (f n) = Node.plainText? n)
    (h : s.Legible) :
  (s.map f).Legible
  := by
  cases s with
  | derivative o =>
    cases o with
    | number => exact h
    | sequence o =>
      intro digits hdigits
      rw [numeral?, plainText?_map hf] at hdigits
      apply h digits hdigits
  | function type name argument base constraint =>
    obtain ⟨info, hinfo, hname, hbase, hconstraint, hreserved⟩ := h
    refine ⟨info, hinfo, fun hcommand => List.map_eq_nil_iff.2 (hname hcommand),
      fun hform => List.map_eq_nil_iff.2 (hbase hform),
      fun hform => List.map_eq_nil_iff.2 (hconstraint hform), ?_⟩
    intro hnone w hw
    rw [plainText?_map hf]
    apply hreserved hnone w hw
  | script a p q => simpa [Shape.map, mapSlots, mapSlotsOr, Legible] using h
  | integral t st l m a b p q => simpa [Shape.map, mapSlots, mapSlotsOr, Legible] using h
  | accent t p a l => simpa [Shape.map, mapSlots, mapSlotsOr, Legible] using h
  | _ => exact h

/-- A construct that is settleable is legible once it and its nodes are settled, and no order in
it is a numeral then. -/
theorem Shape.Settleable.settle (h : n.shape.Settleable) :
  (Node.settle n).shape.Legible ∧ ∀ o ∈ (Node.settle n).shape.order?, numeral? o = none
  := by
  obtain ⟨l, s⟩ := n
  obtain ⟨hlegible, horder⟩ := h
  rw [Tree.shape] at hlegible horder
  rw [Node.settle_mk, Tree.shape, settle_map Node.plainText?_settle]
  refine ⟨hlegible.map Node.plainText?_settle, ?_⟩
  intro o ho
  revert horder ho
  cases s.settle with
  | derivative o' =>
    cases o' with
    | number => intro _ ho; contradiction
    | sequence o' =>
      intro horder ho
      obtain rfl := Option.some.inj ho
      rw [numeral?, plainText?_map Node.plainText?_settle]
      apply horder o' rfl
  | _ => intro _ ho; contradiction

/-! ### Writing does not see what is settled -/

/-- A run of letters or digits is content as it stands. -/
theorem writeContent_of_plainText? (htable : settings.table = .builtin) {w : Text}
    (h : plainText? ns = some w) (hw : ∀ c ∈ w, isPlainChar c = true) :
  writeContent settings tm (ns.map (piece settings)) = .ok w
  := by
  rw [writeContent, writePieces_of_plainText? htable h hw]
  change Except.ok (trimMarkup w) = _
  rw [trimMarkup_of_isPlainChar hw]

theorem writeOrder_settle (htable : settings.table = .builtin) (o : Order Node) :
  isFirstOrder (Shape.mapSlotsOr.order (List.map (piece settings)) o.settle)
      = isFirstOrder (Shape.mapSlotsOr.order (List.map (piece settings)) o)
    ∧ writeOrder settings tm (Shape.mapSlotsOr.order (List.map (piece settings)) o.settle)
      = writeOrder settings tm (Shape.mapSlotsOr.order (List.map (piece settings)) o)
  := by
  cases o with
  | number => exact ⟨rfl, rfl⟩
  | sequence o =>
    obtain ⟨hsame, -⟩ | ⟨n, hnumber, hn, hwritable, hnumeral⟩ := Order.settle_sequence o
    · rw [hsame]
      exact ⟨rfl, rfl⟩
    · obtain ⟨hplain, hisPlain⟩ := Option.filter_eq_some_iff.1 hnumeral
      obtain ⟨hne, -⟩ := Numeral.all_isDigit_of_isPlain hisPlain
      have hcontent := @writeContent_of_plainText? settings tm _ htable _ hplain
        (isPlainChar_of_isPlain hisPlain)
      rw [hnumber]
      constructor
      · have hone : ((n : Int) == 1) = false := by simp; omega
        exact hone
      · simp only [Shape.mapSlotsOr.order, writeOrder, hwritable, hcontent]
        change Except.ok (Numeral.write n) = .ok (orSpace (Numeral.write n))
        rw [orSpace, if_neg (by simpa using hne)]

/-- A function that is settled is written as the function of the user's. -/
theorem writeFunction_settle (htable : settings.table = .builtin) {type type' : Text}
    {name : List Node} (h : settledType? type name = some type') (a b c : List Piece) :
  writeFunction settings tm type' [] a b c
    = writeFunction settings tm type (name.map (piece settings)) a b c
  := by
  obtain ⟨info, info', w, hinfo, hnone, hname, hmem, hinfo', hform, hcommand⟩ :=
    settledType?_eq_some h
  have hletters := isLetters_reservedNames _ _ hmem
  have hcontent := @writeContent_of_plainText? settings tm _ htable _ hname
    (isPlainChar_of_isLetters hletters)
  have hspace : orSpace w = w := by
    rw [orSpace, if_neg]
    intro hempty
    rw [List.isEmpty_iff.1 hempty] at hletters
    contradiction
  have hwritten : "\\operatorname".toList ++ (if info.form = .withConstraint then ['*'] else [])
      ++ braced (orSpace w) = operatorCommand info.form w := by
    rw [hspace, operatorCommand_eq, List.append_assoc]
  unfold writeFunction
  simp only [hinfo, hinfo', hnone, hcommand, hform, hcontent, bind, Except.bind, pure, Except.pure,
    hwritten]

theorem writeShape_settle (htable : settings.table = .builtin) (s : Shape Node) :
  writeShape settings tm (s.settle.map (piece settings))
    = writeShape settings tm (s.map (piece settings))
  := by
  cases s with
  | derivative o longForm isPartial mode a b =>
    obtain ⟨hfirst, hwrite⟩ := @writeOrder_settle settings tm htable o
    simp only [Shape.settle, Shape.map, Shape.mapSlots, Shape.mapSlotsOr, writeShape,
      writeStructural, writeAsFraction, hfirst, hwrite]
  | function type name a b c =>
    rw [Shape.settle]
    split
    · rename_i type' htype
      apply writeFunction_settle htable htype
    · rfl
  | _ => rfl

theorem piece_settle (htable : settings.table = .builtin) (n : Node) :
  piece settings (Node.settle n) = piece settings n
  := by
  induction n using Tree.induction with
  | h l s ih =>
    have hmap : s.map (piece settings ∘ Node.settle) = s.map (piece settings) :=
      Shape.map_congr ih
    cases hs : s.isText with
    | true => cases s <;> first | contradiction | rfl
    | false =>
      have hsettle : (s.map Node.settle).settle.isText = false := by
        rw [Shape.isText_settle, Shape.isText_map, hs]
      rw [Node.settle_mk, piece_construct settings l hsettle, piece_construct settings l hs,
        outerWrappers_settle, outerWrappers_map]
      simp only [writeShape_settle htable, Shape.map_map, hmap]

/-- Settling changes no bracket, and what it takes away has none. -/
theorem Node.bracketDepths_settle (n : Node) (depth : Nat) :
  bracketDepths (settle n) depth = bracketDepths n depth
  := by
  have hplain : ∀ (n : Node) (w : Text) (depth : Nat), plainText? n = some w →
      bracketDepths n depth = [] := by
    intro n w depth h
    obtain ⟨l, s⟩ := n
    cases s <;> first | contradiction | rfl
  induction n using Tree.induction generalizing depth with
  | h l s ih =>
    have hbracket : (s.map settle).settle.isBracket = s.isBracket :=
      (Shape.isBracket_settle _).trans (s.isBracket_mapSlotsOr _ _)
    have hchildren := Shape.flatMap_children_settle
      (fun n w => hplain n w (s.innerDepth depth)) (s.map settle)
    rw [settle_mk, bracketDepths_mk, bracketDepths_mk, hbracket,
      Shape.innerDepth_settle, Shape.innerDepth_map, hchildren, Shape.children_map,
      List.flatMap_map]
    congr 1
    apply List.flatMap_congr
    intro n hn
    apply ih n (s.children_subset hn)

/-- Settling changes nothing in the markup of an equation. -/
theorem toMarkup_settle (config : WriteConfig) (ns : List Node) :
  toMarkup .builtin config (ns.map Node.settle) = toMarkup .builtin config ns
  := by
  have htable : (settingsFor config ns).table = .builtin := rfl
  have hdepth : maxBracketDepth (ns.map Node.settle) = maxBracketDepth ns := by
    rw [maxBracketDepth, maxBracketDepth, List.flatMap_map]
    simp only [Node.bracketDepths_settle]
  have hsettings : settingsFor config (ns.map Node.settle) = settingsFor config ns := by
    rw [settingsFor, settingsFor, hdepth]
  have hpieces : (ns.map Node.settle).map (piece (settingsFor config ns))
      = ns.map (piece (settingsFor config ns)) := by
    rw [List.map_map]
    apply List.map_congr_left
    intro n _
    apply piece_settle htable
  rw [toMarkup_eq, toMarkup_eq, hsettings, hpieces]

end Formula
