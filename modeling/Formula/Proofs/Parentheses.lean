import Formula.Proofs.Forgetting
import Formula.Proofs.View

/-!
# Scaled parentheses

Two parentheses among siblings are a pair if those between them match.  Every parenthesis is
wide if it belongs to a pair with a fraction between, and plain otherwise; whatever its factor
was, and whatever stands in other lists of siblings.  The stack of open positions that finds
the pairs is explained by what was read: between two neighbours on it everything matches.
-/

namespace Formula

/-! ### Pairs -/

/-- The parentheses among the siblings match. -/
inductive Matched : List Node → Prop
  | nil : Matched []
  | other {n : Node} {ns : List Node} : n.isOpening = false → n.isClosing = false → Matched ns →
    Matched (n :: ns)
  | pair {o c : Node} {ms ns : List Node} : o.isOpening = true → c.isClosing = true → Matched ms →
    Matched ns → Matched (o :: (ms ++ c :: ns))

/-- The siblings at two positions are an opening and a closing parenthesis, and the parentheses
between them match. -/
structure Pair (ns : List Node) (i j : Nat) : Prop where
  lt : i < j
  opening : ∃ o, ns[i]? = some o ∧ o.isOpening = true
  closing : ∃ c, ns[j]? = some c ∧ c.isClosing = true
  matched : Matched ((ns.take j).drop (i + 1))

/-- The position belongs to a pair that has a fraction between its sides. -/
def Widened (ns : List Node) (k : Nat) : Prop :=
  ∃ i j, Pair ns i j ∧ (k = i ∨ k = j)
    ∧ ∃ n ∈ (ns.take j).drop (i + 1), n.shape.isFraction = true

variable {ns ns' ms before after : List Node} {n o c : Node} {i j k : Nat} {stack : List Nat}

theorem Node.isOpening_of_isClosing (h : n.isClosing = true) :
  n.isOpening = false
  := by
  rw [isClosing, beq_iff_eq] at h
  rw [isOpening, h]
  decide

theorem Matched.append (hms : Matched ms) (hns : Matched ns) :
  Matched (ms ++ ns)
  := by
  induction hms with
  | nil => apply hns
  | other ho hc _ ih => apply ih.other ho hc
  | pair ho hc hinner _ _ ih =>
    rw [List.cons_append, List.append_assoc, List.cons_append]
    apply hinner.pair ho hc ih

theorem Matched.single (hopen : n.isOpening = false) (hclose : n.isClosing = false) :
  Matched [n]
  := .other hopen hclose .nil

theorem pair_append (before after : List Node) (hopen : o.isOpening = true)
    (hclose : c.isClosing = true) (hms : Matched ms) :
  Pair (before ++ o :: (ms ++ c :: after)) before.length (before.length + 1 + ms.length)
  where
  lt := by omega
  opening := ⟨o, by simp, hopen⟩
  closing := by
    refine ⟨c, ?_, hclose⟩
    have hindex : before.length + 1 + ms.length - before.length - 1 - ms.length = 0 := by omega
    rw [List.getElem?_append_right (by omega), List.getElem?_cons, if_neg (by omega),
      List.getElem?_append_right (by omega), hindex, List.getElem?_cons_zero]
  matched := by
    have hlength : (before ++ o :: ms).length = before.length + 1 + ms.length := by
      simp only [List.length_append, List.length_cons]
      omega
    rw [← hlength, ← List.cons_append, ← List.append_assoc, List.take_left, ← List.drop_drop,
      List.drop_left]
    apply hms

/-- Siblings with a pair are made of its sides, what matches between them, and the rest. -/
theorem Pair.exists_append (h : Pair ns i j) :
  ∃ before o ms c after, ns = before ++ o :: (ms ++ c :: after) ∧ before.length = i
    ∧ before.length + 1 + ms.length = j ∧ o.isOpening = true ∧ c.isClosing = true ∧ Matched ms
  := by
  obtain ⟨hlt, ⟨o, ho, hopen⟩, ⟨c, hc, hclose⟩, hms⟩ := h
  obtain ⟨hi, rfl⟩ := List.getElem?_eq_some_iff.1 ho
  obtain ⟨hj, rfl⟩ := List.getElem?_eq_some_iff.1 hc
  have htake : (ns.take j).take (i + 1) = ns.take i ++ [ns[i]] := by
    rw [List.take_take, min_eq_left (by omega), List.take_concat_get']
  refine ⟨ns.take i, ns[i], (ns.take j).drop (i + 1), ns[j], ns.drop (j + 1), ?_, ?_, ?_, hopen,
    hclose, hms⟩
  · calc ns
      _ = ns.take j ++ ns.drop j := (List.take_append_drop j ns).symm
      _ = ns.take i ++ [ns[i]] ++ (ns.take j).drop (i + 1) ++ ns.drop j := by
        rw [← htake, List.take_append_drop (i + 1) (ns.take j)]
      _ = _ := by
        rw [List.drop_eq_getElem_cons hj, List.append_assoc, List.append_assoc]
        rfl
  · rw [List.length_take]
    omega
  · simp only [List.length_take, List.length_drop]
    omega

/-! ### The stack -/

theorem partners_opening (h : n.isOpening = true) :
  partners stack k (n :: ns) = partners (k :: stack) (k + 1) ns
  := by
  rw [partners.eq_def]
  simp only [h, if_true]

theorem partners_closing (h : n.isClosing = true) :
  partners (i :: stack) k (n :: ns) = (i, k) :: partners stack (k + 1) ns
  := by
  rw [partners.eq_def]
  simp only [Node.isOpening_of_isClosing h, h, if_true, Bool.false_eq_true, if_false]

theorem partners_other (hopen : n.isOpening = false) (hclose : n.isClosing = false) :
  partners stack k (n :: ns) = partners stack (k + 1) ns
  := by
  rw [partners.eq_def]
  simp only [hopen, hclose, Bool.false_eq_true, if_false]

/-- A closing parenthesis without a partner is skipped. -/
theorem partners_stray (h : n.isClosing = true) :
  partners [] k (n :: ns) = partners [] (k + 1) ns
  := by
  rw [partners.eq_def]
  simp only [Node.isOpening_of_isClosing h, h, if_true, Bool.false_eq_true, if_false]

/-- Reading siblings leaves some stack. -/
theorem exists_partners_append (before after : List Node) (stack : List Nat) (k : Nat) :
  ∃ out stack', partners stack k (before ++ after)
    = out ++ partners stack' (k + before.length) after
  := by
  induction before generalizing stack k with
  | nil => exact ⟨[], stack, rfl⟩
  | cons n before ih =>
    have hlength : k + (n :: before).length = k + 1 + before.length := by
      rw [List.length_cons]
      omega
    rw [List.cons_append, hlength]
    cases hopen : n.isOpening with
    | true =>
      rw [partners_opening hopen]
      apply ih
    | false =>
      cases hclose : n.isClosing with
      | false =>
        rw [partners_other hopen hclose]
        apply ih
      | true =>
        cases stack with
        | nil =>
          rw [partners_stray hclose]
          apply ih
        | cons i stack =>
          obtain ⟨out, stack', h⟩ := ih stack (k + 1)
          rw [partners_closing hclose, h]
          exact ⟨(i, k) :: out, stack', rfl⟩

/-- Reading siblings that match leaves the stack as it is. -/
theorem Matched.exists_partners (h : Matched ms) (after : List Node) (stack : List Nat) (k : Nat) :
  ∃ out, partners stack k (ms ++ after) = out ++ partners stack (k + ms.length) after
  := by
  induction h generalizing after stack k with
  | nil => exact ⟨[], rfl⟩
  | @other n ns hopen hclose _ ih =>
    obtain ⟨out, h⟩ := ih after stack (k + 1)
    refine ⟨out, ?_⟩
    rw [List.cons_append, partners_other hopen hclose, h, List.length_cons]
    congr 2
    omega
  | @pair o c ms ns hopen hclose _ _ ihms ihns =>
    obtain ⟨inner, hinner⟩ := ihms (c :: (ns ++ after)) (k :: stack) (k + 1)
    obtain ⟨out, h⟩ := ihns after stack (k + 1 + ms.length + 1)
    refine ⟨inner ++ (k, k + 1 + ms.length) :: out, ?_⟩
    rw [List.cons_append, List.append_assoc, List.cons_append, partners_opening hopen, hinner,
      partners_closing hclose, h, List.append_assoc, List.cons_append]
    simp only [List.length_cons, List.length_append]
    congr 4
    omega

/-- What was read explains the positions on the stack: each is that of an opening parenthesis, and
what was read since then, up to the next one, matches. -/
inductive Explains : List Node → List Nat → Prop
  | bottom (before : List Node) : Explains before []
  | push {before ms : List Node} {stack : List Nat} {o : Node} : Explains before stack →
    o.isOpening = true → Matched ms → Explains (before ++ o :: ms) (before.length :: stack)

theorem Explains.append (h : Explains before stack) (hms : Matched ms) :
  Explains (before ++ ms) stack
  := by
  cases h with
  | bottom => apply Explains.bottom
  | push h hopen hinner =>
    rw [List.append_assoc, List.cons_append]
    apply h.push hopen (hinner.append hms)

/-- What is found from a stack that is explained by what was read are pairs. -/
theorem Explains.pair_of_mem (h : Explains before stack)
    (hmem : (i, j) ∈ partners stack before.length after) :
  Pair (before ++ after) i j
  := by
  induction after generalizing before stack with
  | nil => contradiction
  | cons n after ih =>
    have hlength : before.length + 1 = (before ++ [n]).length := by simp
    have hassoc : before ++ n :: after = before ++ [n] ++ after := by simp
    cases hopen : n.isOpening with
    | true =>
      rw [partners_opening hopen, hlength] at hmem
      rw [hassoc]
      apply ih (h.push hopen .nil) hmem
    | false =>
      cases hclose : n.isClosing with
      | false =>
        rw [partners_other hopen hclose, hlength] at hmem
        rw [hassoc]
        apply ih (h.append (.single hopen hclose)) hmem
      | true =>
        cases h with
        | bottom =>
          rw [partners_stray hclose, hlength] at hmem
          rw [hassoc]
          apply ih (.bottom _) hmem
        | @push before ms stack o h hopen' hms =>
          rw [partners_closing hclose, List.mem_cons] at hmem
          obtain heq | hmem := hmem
          · obtain ⟨rfl, rfl⟩ := Prod.mk.inj heq
            have hpair := pair_append before after hopen' hclose hms
            simpa [add_assoc, add_comm, add_left_comm] using hpair
          · rw [hlength] at hmem
            rw [hassoc]
            apply ih _ hmem
            rw [List.append_assoc, List.cons_append]
            exact h.append (.pair hopen' hclose hms .nil)

/-- The stack finds exactly the pairs. -/
theorem mem_partners_iff :
  (i, j) ∈ partners [] 0 ns ↔ Pair ns i j
  := by
  constructor
  · intro h
    apply (Explains.bottom []).pair_of_mem h
  · intro h
    obtain ⟨before, o, ms, c, after, rfl, rfl, rfl, hopen, hclose, hms⟩ := h.exists_append
    obtain ⟨out, stack, hbefore⟩ :=
      exists_partners_append before (o :: (ms ++ c :: after)) [] 0
    obtain ⟨inner, hinner⟩ :=
      hms.exists_partners (c :: after) ((0 + before.length) :: stack) (0 + before.length + 1)
    rw [hbefore, partners_opening hopen, hinner, partners_closing hclose, zero_add]
    simp

/-! ### Siblings -/

namespace Node

/-- The factor of a node that is text. -/
def textScale? (n : Node) : Option Scale :=
  match n.shape with
  | .text _ _ scale => scale
  | _ => none

/-- Whether the node is a parenthesis. -/
def isParen (n : Node) : Bool := n.isOpening || n.isClosing

/-- What the scaling of siblings looks at. -/
def role (n : Node) : Bool × Bool × Bool := (n.isOpening, n.isClosing, n.shape.isFraction)

theorem exists_text_of_isParen (h : n.isParen = true) :
  ∃ l v fmt scale, n = .mk l (.text v fmt scale)
  := by
  obtain ⟨l, s⟩ := n
  cases s with
  | text v fmt scale => exact ⟨l, v, fmt, scale, rfl⟩
  | _ => contradiction

/-- Setting the factor of a parenthesis sets it, and nothing else is looked at. -/
theorem textScale?_withTextScale (h : n.isParen = true) (scale : Scale) :
  textScale? (withTextScale scale n) = some scale
  := by
  obtain ⟨l, v, fmt, _, rfl⟩ := exists_text_of_isParen h
  rfl

@[simp]
theorem role_withTextScale (scale : Scale) (n : Node) :
  role (withTextScale scale n) = role n
  := by
  obtain ⟨l, s⟩ := n
  cases s <;> rfl

@[simp]
theorem withTextScale_withTextScale (scale other : Scale) (n : Node) :
  withTextScale scale (withTextScale other n) = withTextScale scale n
  := by
  obtain ⟨l, s⟩ := n
  cases s <;> rfl

end Node

/-- The positions of the parentheses that are to be wide. -/
def widePositions (ns : List Node) : List Nat :=
  (widePairs ns).flatMap fun (start, stop) => [start, stop]

theorem mem_widePositions_iff :
  k ∈ widePositions ns ↔ Widened ns k
  := by
  simp only [widePositions, widePairs, List.mem_flatMap, List.mem_filter, List.any_eq_true,
    List.mem_cons, List.not_mem_nil, or_false, Prod.exists, mem_partners_iff]
  constructor
  · rintro ⟨i, j, ⟨hpair, hfraction⟩, hk⟩
    exact ⟨i, j, hpair, hk, hfraction⟩
  · rintro ⟨i, j, hpair, hk, hfraction⟩
    exact ⟨i, j, ⟨hpair, hfraction⟩, hk⟩

/-- A sibling with its factor set, if it is a parenthesis, where the wide positions are given. -/
def Node.scaledAt (wide : List Nat) (n : Node) (k : Nat) : Node :=
  if n.isParen then n.withTextScale (if k ∈ wide then wideScale else plainScale) else n

theorem scaleSiblings_eq (ns : List Node) :
  scaleSiblings ns = ns.zipIdx.map fun (n, k) => n.scaledAt (widePositions ns) k
  := rfl

theorem getElem?_scaleSiblings (ns : List Node) (k : Nat) :
  (scaleSiblings ns)[k]? = ns[k]?.map fun n => n.scaledAt (widePositions ns) k
  := by
  rw [scaleSiblings_eq, List.getElem?_map, List.getElem?_zipIdx, Option.map_map, zero_add]
  rfl

theorem Node.role_scaledAt (wide : List Nat) (n : Node) (k : Nat) :
  role (n.scaledAt wide k) = role n
  := by
  rw [scaledAt]
  split
  · apply role_withTextScale
  · rfl

theorem Node.isParen_eq_of_role {n n' : Node} (h : n'.role = n.role) :
  n'.isParen = n.isParen
  := by
  obtain ⟨hopen, hrest⟩ := Prod.mk.inj h
  rw [isParen, isParen, hopen, (Prod.mk.inj hrest).1]

theorem Node.scaledAt_scaledAt (wide : List Nat) (n : Node) (k : Nat) :
  (n.scaledAt wide k).scaledAt wide k = n.scaledAt wide k
  := by
  rw [scaledAt, isParen_eq_of_role (role_scaledAt wide n k), scaledAt]
  split
  · apply withTextScale_withTextScale
  · rfl

/-- Scaling only looks at the roles of siblings. -/
theorem partners_congr (h : ns'.map Node.role = ns.map Node.role) :
  partners stack k ns' = partners stack k ns
  := by
  induction ns generalizing ns' stack k with
  | nil => rw [List.map_eq_nil_iff.1 h]
  | cons n ns ih =>
    obtain ⟨n', ns', rfl, hrole, hrest⟩ := List.map_eq_cons_iff.1 h
    obtain ⟨hopen, hrole⟩ := Prod.mk.inj hrole
    rw [partners.eq_def, partners.eq_def _ _ (n :: ns)]
    simp only [hopen, (Prod.mk.inj hrole).1, ih hrest]

theorem widePositions_congr (h : ns'.map Node.role = ns.map Node.role) :
  widePositions ns' = widePositions ns
  := by
  have hany : ∀ i j, ((ns'.take j).drop (i + 1)).any (·.shape.isFraction)
      = ((ns.take j).drop (i + 1)).any (·.shape.isFraction) := by
    intro i j
    have hroles : ∀ ns : List Node, ns.any (·.shape.isFraction)
        = (ns.map Node.role).any (·.2.2) := by
      intro ns
      rw [List.any_map]
      rfl
    rw [hroles, hroles, List.map_drop, List.map_take, h, List.map_drop, List.map_take]
  simp only [widePositions, widePairs, partners_congr h, hany]

theorem map_role_scaleSiblings (ns : List Node) :
  (scaleSiblings ns).map Node.role = ns.map Node.role
  := by
  apply List.ext_getElem?
  intro k
  rw [List.getElem?_map, getElem?_scaleSiblings, Option.map_map, List.getElem?_map]
  congr 1
  funext n
  apply Node.role_scaledAt

/-- Scaling siblings once more changes nothing. -/
theorem scaleSiblings_scaleSiblings (ns : List Node) :
  scaleSiblings (scaleSiblings ns) = scaleSiblings ns
  := by
  apply List.ext_getElem?
  intro k
  rw [getElem?_scaleSiblings, widePositions_congr (map_role_scaleSiblings ns),
    getElem?_scaleSiblings, Option.map_map]
  congr 1
  funext n
  apply Node.scaledAt_scaledAt

/-- A parenthesis among siblings whose factors are set is wide if it belongs to a pair with a
fraction between, and plain otherwise. -/
theorem textScale?_of_scaleSiblings_eq (hscaled : scaleSiblings ns = ns) (hn : ns[k]? = some n)
    (hparen : n.isParen = true) :
  (Widened ns k → n.textScale? = some wideScale)
    ∧ (¬ Widened ns k → n.textScale? = some plainScale)
  := by
  have hfixed : n.scaledAt (widePositions ns) k = n := by
    have hget := getElem?_scaleSiblings ns k
    rw [hscaled, hn] at hget
    exact (Option.some.inj hget).symm
  rw [← hfixed, Node.scaledAt, if_pos hparen, Node.textScale?_withTextScale hparen,
    ← mem_widePositions_iff]
  constructor
  · intro hwide
    rw [if_pos hwide]
  · intro hplain
    rw [if_neg hplain]

/-! ### Trees -/

/-- The lists of siblings of an equation: the top one, and every slot at any depth. -/
inductive Siblings (ns : List Node) : List Node → Prop
  | top : Siblings ns ns
  | slot {siblings : List Node} {n : Node} {slot : SlotName × List Node} : Siblings ns siblings →
    n ∈ siblings → slot ∈ n.shape.slots → Siblings ns slot.2

namespace Node

theorem rescale_scaledAt (wide : List Nat) (h : rescale n = n) (k : Nat) :
  rescale (n.scaledAt wide k) = n.scaledAt wide k
  := by
  rw [scaledAt]
  split
  · rename_i hparen
    obtain ⟨l, v, fmt, scale, rfl⟩ := exists_text_of_isParen hparen
    apply rescale_mk
  · apply h

end Node

theorem eq_of_map_eq_self {α : Type*} {f : α → α} {l : List α} (h : l.map f = l) (a : α) (ha : a ∈ l) :
  f a = a
  := by
  rw [← List.map_id l, List.map_map] at h
  exact List.map_inj_left.1 h a ha

/-- Siblings whose slots are scaled are still so when they are scaled. -/
theorem map_rescale_scaleSiblings (h : ns.map Node.rescale = ns) :
  (scaleSiblings ns).map Node.rescale = scaleSiblings ns
  := by
  apply List.ext_getElem?
  intro k
  rw [List.getElem?_map, getElem?_scaleSiblings, Option.map_map]
  cases hn : ns[k]? with
  | none => rfl
  | some n =>
    have hfixed : Node.rescale n = n := eq_of_map_eq_self h n (List.mem_of_getElem? hn)
    exact congrArg some (Node.rescale_scaledAt _ hfixed k)

theorem Node.rescale_rescale (n : Node) :
  rescale (rescale n) = rescale n
  := by
  induction n using Tree.induction with
  | h l s ih =>
    rw [rescale_mk, rescale_mk, Shape.mapSlotsOr_mapSlotsOr]
    congr 1
    apply Shape.mapSlotsOr_congr
    · intro slot hslot
      have hfixed : (slot.map rescale).map rescale = slot.map rescale := by
        rw [List.map_map]
        apply List.map_congr_left
        intro n hn
        apply ih n (hslot hn)
      rw [Function.comp, map_rescale_scaleSiblings hfixed, scaleSiblings_scaleSiblings]
    · intro _ _
      rfl

theorem map_rescale_map_rescale (ns : List Node) :
  (ns.map Node.rescale).map Node.rescale = ns.map Node.rescale
  := by
  rw [List.map_map]
  apply List.map_congr_left
  intro n _
  apply Node.rescale_rescale

/-- Nodes whose factors are set are those of which the slots are, and which are so as siblings. -/
theorem rescale_eq_self_iff :
  rescale ns = ns ↔ ns.map Node.rescale = ns ∧ scaleSiblings ns = ns
  := by
  constructor
  · intro h
    have hmap : ns.map Node.rescale = ns := by
      rw [← h, rescale]
      apply map_rescale_scaleSiblings (map_rescale_map_rescale ns)
    rw [rescale, hmap] at h
    exact ⟨hmap, h⟩
  · rintro ⟨hmap, hsiblings⟩
    rw [rescale, hmap, hsiblings]

theorem rescale_rescale (ns : List Node) :
  rescale (rescale ns) = rescale ns
  := by
  rw [rescale_eq_self_iff]
  constructor
  · apply map_rescale_scaleSiblings (map_rescale_map_rescale ns)
  · apply scaleSiblings_scaleSiblings

/-- Where the factors of an equation are set, they are so in every list of siblings. -/
theorem Siblings.rescale_eq_self {siblings : List Node} (h : rescale ns = ns)
    (hsiblings : Siblings ns siblings) :
  rescale siblings = siblings
  := by
  induction hsiblings with
  | top => apply h
  | @slot siblings n slot _ hn hslot ih =>
    obtain ⟨l, s⟩ := n
    have hnode := eq_of_map_eq_self (rescale_eq_self_iff.1 ih).1 _ hn
    rw [Node.rescale_mk, Tree.mk.injEq] at hnode
    have hslots := congrArg Shape.slots hnode.2
    rw [Shape.slots_mapSlotsOr rfl] at hslots
    exact congrArg Prod.snd (eq_of_map_eq_self hslots _ hslot)

/-! ### Nothing else changes -/

/-- The construct without its factor, if it is a parenthesis. -/
def Shape.withoutParenScale {α : Type} : Shape α → Shape α
  | .text v fmt scale => .text v fmt (if v = ['('] ∨ v = [')'] then none else scale)
  | s => s

/-- What is left of a parenthesis does not depend on its factor. -/
theorem Node.forget_scaledAt (wide : List Nat) (n : Node) (k : Nat) :
  forget Shape.withoutParenScale (n.scaledAt wide k) = forget Shape.withoutParenScale n
  := by
  rw [scaledAt]
  split
  · rename_i hparen
    obtain ⟨l, v, fmt, scale, rfl⟩ := exists_text_of_isParen hparen
    have hv : v = ['('] ∨ v = [')'] := by
      simpa [isParen, isOpening, isClosing, textValue?, Tree.shape] using hparen
    have htext : ∀ scale, forget Shape.withoutParenScale (.mk l (.text v fmt scale))
        = .mk l (.text v fmt none) := by
      intro scale
      rw [forget_mk]
      exact congrArg (fun scale => Tree.mk l (.text v fmt scale)) (if_pos hv)
    apply (htext _).trans (htext scale).symm
  · rfl

theorem map_forget_scaleSiblings (ns : List Node) :
  (scaleSiblings ns).map (Node.forget Shape.withoutParenScale)
    = ns.map (Node.forget Shape.withoutParenScale)
  := by
  apply List.ext_getElem?
  intro k
  rw [List.getElem?_map, getElem?_scaleSiblings, Option.map_map, List.getElem?_map]
  congr 1
  funext n
  apply Node.forget_scaledAt

theorem Node.forget_rescale (n : Node) :
  forget Shape.withoutParenScale (rescale n) = forget Shape.withoutParenScale n
  := by
  induction n using Tree.induction with
  | h l s ih =>
    rw [rescale_mk, forget_mk, forget_mk, Shape.mapSlotsOr_mapSlotsOr]
    congr 3
    apply Shape.mapSlotsOr_congr
    · intro slot hslot
      rw [Function.comp, map_forget_scaleSiblings, List.map_map]
      apply List.map_congr_left
      intro n hn
      apply ih n (hslot hn)
    · intro _ _
      rfl

theorem map_forget_rescale (ns : List Node) :
  (rescale ns).map (Node.forget Shape.withoutParenScale)
    = ns.map (Node.forget Shape.withoutParenScale)
  := by
  rw [rescale, map_forget_scaleSiblings, List.map_map]
  apply List.map_congr_left
  intro n _
  apply Node.forget_rescale

/-! ### Lists of siblings on their own -/

/-- A construct with a replaced slot is no text, and a fraction if it was one. -/
theorem Shape.role_setSlot {s : Shape Node} {p : SlotName} {old : List Node}
    (h : s.slot? p = some old) (new : List Node) (l : Label) :
  Node.role (.mk l (s.setSlot p new)) = Node.role (.mk l s)
    ∧ Node.isParen (.mk l (s.setSlot p new)) = false ∧ Node.isParen (.mk l s) = false
  := by
  have houtline := outline_setSlot (F := fun _ => ()) (b := new) h rfl
  have hfraction : ∀ s : Shape Node, (s.outline fun _ => ()).isFraction = s.isFraction := by
    intro s
    cases s <;> rfl
  obtain ⟨htext', htext⟩ | ⟨v, fmt, scale, scale', -, rfl⟩ := text_of_outline houtline
  · have hvalue : ∀ s : Shape Node, s.isText = false → Node.textValue? (.mk l s) = none := by
      intro s hs
      cases s <;> first | rfl | contradiction
    simp only [Node.role, Node.isParen, Node.isOpening, Node.isClosing, hvalue _ htext',
      hvalue _ htext, Tree.shape, ← hfraction (s.setSlot p new), houtline, hfraction]
    decide
  · contradiction

/-- A pass over the cells of a grid passes over each of them on its own. -/
theorem Grid.mapSlotsOr_setCell {α β : Type} {f g : List α → List β} (c : Grid α) {k : Nat × Nat}
    (hinside : c.inside k = true) (new : List α) :
  Shape.mapSlotsOr.grid f g (c.setCell k.1 k.2 new)
    = (Shape.mapSlotsOr.grid f g c).setCell k.1 k.2 (f new)
  := by
  rw [setCell, setCell, isSome_lookup_mapSlotsOr]
  split
  · simp only [Shape.mapSlotsOr.grid, List.map_map, mk.injEq, true_and]
    apply List.map_congr_left
    intro entry _
    change (_, if c.inside _ = true then f _ else g _) = _
    simp only [Function.comp]
    split
    · rename_i hentry
      simp [hentry, hinside]
    · rfl
  · simp only [Shape.mapSlotsOr.grid, List.map_append, List.map_singleton, mk.injEq, true_and]
    congr 2
    exact congrArg (k, ·) (if_pos hinside)

/-- A pass over the slots of a construct passes over each of them on its own. -/
theorem Shape.mapSlotsOr_setSlot {α β : Type} {f g : List α → List β} {s : Shape α} {p : SlotName}
    {old : List α} (h : (p, old) ∈ s.slots) (new : List α) :
  (s.setSlot p new).mapSlotsOr f g = (s.mapSlotsOr f g).setSlot p (f new)
  := by
  have hgrid : ∀ c : Grid α, (p, old) ∈ slots.ofGrid c →
      ∃ k ∈ c.coordinates, p = .cell k.1 k.2 ∧ ∀ a, mapSlotsOr.grid f g (c.setCell k.1 k.2 a)
        = (mapSlotsOr.grid f g c).setCell k.1 k.2 (f a) := by
    intro c hc
    obtain ⟨k, hk, rfl⟩ := of_mem_ofGrid hc
    exact ⟨k, hk, rfl, c.mapSlotsOr_setCell ((c.mem_coordinates_iff k).1 hk)⟩
  cases s with
  | matrix t c =>
    obtain ⟨k, hk, rfl, hset⟩ := hgrid c h
    have hk' : (k.1, k.2) ∈ (mapSlotsOr.grid f g c).coordinates := hk
    simp only [setSlot, mapGrid, mapSlotsOr, if_pos hk, if_pos hk', hset]
  | stack c =>
    obtain ⟨k, hk, rfl, hset⟩ := hgrid c h
    have hk' : (k.1, k.2) ∈ (mapSlotsOr.grid f g c).coordinates := hk
    simp only [setSlot, mapGrid, mapSlotsOr, if_pos hk, if_pos hk', hset]
  | cases c =>
    obtain ⟨k, hk, rfl, hset⟩ := hgrid c h
    have hk' : (k.1, k.2) ∈ (mapSlotsOr.grid f g c).coordinates := hk
    simp only [setSlot, mapGrid, mapSlotsOr, if_pos hk, if_pos hk', hset]
  | text => contradiction
  | derivative o =>
    cases o <;>
      simp only [slots, Order.slot?, List.mem_cons, List.mem_append, mem_present, Prod.mk.injEq,
        List.not_mem_nil, or_false, reduceCtorEq, and_false, false_or, Option.some.injEq] at h <;>
      casesm* _ ∨ _, _ ∧ _ <;> subst_vars <;> rfl
  | _ =>
    simp only [slots, List.mem_cons, List.mem_append, mem_present, Prod.mk.injEq,
      List.not_mem_nil, or_false] at h
    casesm* _ ∨ _, _ ∧ _ <;> subst_vars <;> rfl

theorem Node.role_rescale (n : Node) :
  role (rescale n) = role n
  := by
  obtain ⟨l, s⟩ := n
  rw [rescale_mk]
  cases s <;> rfl

/-- A sibling that is no parenthesis may be replaced by one of the same role: the others are scaled
as before. -/
theorem exists_rescale_append {m m' : Node} (hrole : m'.role = m.role) (hm : m.isParen = false)
    (before after : List Node) :
  ∃ before' after', rescale (before ++ m :: after) = before' ++ Node.rescale m :: after'
    ∧ rescale (before ++ m' :: after) = before' ++ Node.rescale m' :: after'
  := by
  have hroles : ∀ k : Node, k.role = m.role → (Node.rescale k).isParen = false := by
    intro k hk
    rw [Node.isParen_eq_of_role (k.role_rescale.trans hk), hm]
  have hwide : widePositions ((before ++ m' :: after).map Node.rescale)
      = widePositions ((before ++ m :: after).map Node.rescale) := by
    apply widePositions_congr
    simp only [List.map_map, List.map_append, List.map_cons, Function.comp_def, Node.role_rescale,
      hrole]
  simp only [rescale, scaleSiblings_eq, hwide]
  simp only [List.map_append, List.map_cons, List.zipIdx_append, List.zipIdx_cons, Node.scaledAt,
    hroles m rfl, hroles m' hrole, Bool.false_eq_true, if_false]
  exact ⟨_, _, rfl, rfl⟩

/-- What stands in one slot is scaled on its own, and no other list of siblings looks at it. -/
theorem Exchange.rescale {x y : List Node} (h : Exchange x y ns ns') :
  Exchange (Formula.rescale x) (Formula.rescale y) (Formula.rescale ns) (Formula.rescale ns')
  := by
  induction h with
  | whole => apply Exchange.whole
  | @slot before after a b l s p hslot _ ih =>
    obtain ⟨hrole, -, hparen⟩ := Shape.role_setSlot hslot b l
    obtain ⟨before', after', hleft, hright⟩ := exists_rescale_append hrole hparen before after
    rw [hleft, hright, Node.rescale_mk, Node.rescale_mk,
      Shape.mapSlotsOr_setSlot (mem_of_lookup_eq_some hslot)]
    apply Exchange.slot _ ih
    apply lookup_eq_some_of_mem (Shape.nodup_slots _)
    rw [Shape.slots_mapSlotsOr rfl]
    exact List.mem_map.2 ⟨(p, a), mem_of_lookup_eq_some hslot, rfl⟩

/-- Whatever the factors were, every parenthesis at any depth is wide if it belongs to a pair with a
fraction between, and plain otherwise.  Nothing else changes, where a missing cell counts as an empty
one; what stands in one slot is scaled on its own, and scaling once more changes nothing. -/
theorem scaled_rescale (ns : List Node) :
  (∀ siblings, Siblings (rescale ns) siblings → ∀ k n, siblings[k]? = some n → n.isParen = true →
      (Widened siblings k → n.textScale? = some wideScale)
        ∧ (¬ Widened siblings k → n.textScale? = some plainScale))
    ∧ (rescale ns).map (Node.forget Shape.withoutParenScale)
      = ns.map (Node.forget Shape.withoutParenScale)
    ∧ (∀ x y ns', Exchange x y ns ns' → Exchange (rescale x) (rescale y) (rescale ns) (rescale ns'))
    ∧ rescale (rescale ns) = rescale ns
  := by
  refine ⟨?_, map_forget_rescale ns, fun _ _ _ h => h.rescale, rescale_rescale ns⟩
  intro siblings hsiblings k n hn hparen
  have hfixed := hsiblings.rescale_eq_self (rescale_rescale ns)
  apply textScale?_of_scaleSiblings_eq (rescale_eq_self_iff.1 hfixed).2 hn hparen

end Formula
