import Formula.Proofs.Pieces
import Formula.Proofs.Requests
import Formula.Proofs.Written
import Mathlib.Order.Lattice.Nat

/-!
# Histories of wrappers

A node that was just made has no wrappers.  After wrappers are applied to it and removed from
it, in any order and some of them refused, the history tells which kinds it has, with which
parameters, and in which order they came.  A node is written as it is without wrappers, with
the commands of the kinds around it in that order.
-/

namespace Formula

open Writing

/-! ### Calls -/

/-- A call that changes the wrappers of a node: a kind is applied or removed. -/
inductive WrapperCall where
  | apply (kind : WrapperKind) (given : WrapperParam)
  | remove (kind : WrapperKind)
deriving DecidableEq, Repr

namespace WrapperCall

/-- The request for a call on the node of an identifier. -/
def request (i : Nat) : WrapperCall → Request
  | .apply kind given => .wrap i kind given
  | .remove kind => .unwrap i kind

/-- What a call answers: a kind is refused with a parameter that it does not take. -/
def answer : WrapperCall → Except Fault Unit
  | .apply kind given => (kind.accept given).map fun _ => ()
  | .remove _ => .ok ()

/-- The wrapping after a call; one that is refused leaves it. -/
def update (w : Wrapping) : WrapperCall → Wrapping
  | .apply kind given =>
    match kind.accept given with
    | .ok p => w.put kind p
    | .error _ => w
  | .remove kind => w.erase kind

/-- At step `i` of the calls a kind was applied with a parameter that is taken as `p`, and it was
not removed since. -/
def Lasts (calls : List WrapperCall) (kind : WrapperKind) (p : WrapperParam) (i : Nat) : Prop :=
  (∃ given, calls[i]? = some (.apply kind given) ∧ kind.accept given = .ok p)
    ∧ ∀ j, i < j → calls[j]? ≠ some (.remove kind)

/-- The steps of the calls at which a kind was applied, after it was last removed. -/
def lasting (calls : List WrapperCall) (kind : WrapperKind) : Set Nat :=
  {i | ∃ p, Lasts calls kind p i}

variable {calls : List WrapperCall} {call : WrapperCall} {kind other : WrapperKind}
  {given p q : WrapperParam} {i : Nat}

theorem Lasts.lt (h : Lasts calls kind p i) :
  i < calls.length
  := by
  obtain ⟨⟨given, hget, -⟩, -⟩ := h
  exact (List.getElem?_eq_some_iff.1 hget).1

/-- One call more is the last one. -/
theorem getElem?_concat_eq_some_iff {other : WrapperCall} :
  (calls ++ [call])[i]? = some other ↔ calls[i]? = some other ∨ i = calls.length ∧ call = other
  := by
  constructor
  · intro hget
    have hle := (List.getElem?_eq_some_iff.1 hget).1
    rw [List.length_append, List.length_singleton] at hle
    obtain hi | rfl := Nat.lt_succ_iff_lt_or_eq.1 hle
    · rw [List.getElem?_append_left hi] at hget
      exact .inl hget
    · rw [List.getElem?_concat_length] at hget
      exact .inr ⟨rfl, Option.some.inj hget⟩
  · rintro (hget | ⟨rfl, rfl⟩)
    · rw [List.getElem?_append_left (List.getElem?_eq_some_iff.1 hget).1, hget]
    · apply List.getElem?_concat_length

/-- With one call more, the applications are those from before, unless their kind is removed, and
the new one. -/
theorem lasts_concat :
  Lasts (calls ++ [call]) kind p i
    ↔ Lasts calls kind p i ∧ call ≠ .remove kind
      ∨ i = calls.length ∧ ∃ given, call = .apply kind given ∧ kind.accept given = .ok p
  := by
  constructor
  · rintro ⟨⟨given, hget, haccept⟩, hkept⟩
    obtain hold | ⟨rfl, rfl⟩ := getElem?_concat_eq_some_iff.1 hget
    · left
      refine ⟨⟨⟨given, hold, haccept⟩, ?_⟩, ?_⟩
      · intro j hj hremove
        apply hkept j hj (getElem?_concat_eq_some_iff.2 (.inl hremove))
      · rintro rfl
        apply hkept calls.length (List.getElem?_eq_some_iff.1 hold).1
        apply List.getElem?_concat_length
    · exact .inr ⟨rfl, given, rfl, haccept⟩
  · rintro (⟨⟨⟨given, hget, haccept⟩, hkept⟩, hcall⟩ | ⟨rfl, given, rfl, haccept⟩)
    · refine ⟨⟨given, getElem?_concat_eq_some_iff.2 (.inl hget), haccept⟩, ?_⟩
      intro j hj hremove
      obtain hremove | ⟨-, rfl⟩ := getElem?_concat_eq_some_iff.1 hremove
      · apply hkept j hj hremove
      · contradiction
    · refine ⟨⟨given, List.getElem?_concat_length, haccept⟩, ?_⟩
      intro j hj hremove
      obtain hremove | ⟨rfl, -⟩ := getElem?_concat_eq_some_iff.1 hremove
      · apply hj.not_gt (List.getElem?_eq_some_iff.1 hremove).1
      · apply hj.false

/-- A kind that is removed was not applied since. -/
theorem lasting_remove :
  lasting (calls ++ [.remove other]) kind = if kind = other then ∅ else lasting calls kind
  := by
  ext i
  simp only [lasting, lasts_concat, Set.mem_ofPred_eq, reduceCtorEq, false_and, exists_false,
    and_false, or_false, ne_eq, remove.injEq]
  split
  · rename_i heq
    simp [heq]
  · rename_i hne
    simp [Ne.symm hne]

theorem lasts_remove (h : kind ≠ other) :
  Lasts (calls ++ [.remove other]) kind p i ↔ Lasts calls kind p i
  := by
  simp [lasts_concat, Ne.symm h]

/-- A call that is refused leaves no trace. -/
theorem lasts_refused {fault : Fault} (h : other.accept given = .error fault) :
  Lasts (calls ++ [.apply other given]) kind p i ↔ Lasts calls kind p i
  := by
  rw [lasts_concat]
  constructor
  · rintro (⟨hlasts, -⟩ | ⟨-, given, hcall, haccept⟩)
    · apply hlasts
    · obtain ⟨rfl, rfl⟩ := apply.inj hcall
      cases h.symm.trans haccept
  · intro hlasts
    exact .inl ⟨hlasts, by simp⟩

/-- A call that is accepted is the last one. -/
theorem lasts_accepted (h : other.accept given = .ok q) :
  Lasts (calls ++ [.apply other given]) kind p i
    ↔ Lasts calls kind p i ∨ i = calls.length ∧ kind = other ∧ p = q
  := by
  rw [lasts_concat]
  constructor
  · rintro (⟨hlasts, -⟩ | ⟨rfl, given, hcall, haccept⟩)
    · exact .inl hlasts
    · obtain ⟨rfl, rfl⟩ := apply.inj hcall
      rw [h] at haccept
      exact .inr ⟨rfl, rfl, (Except.ok.inj haccept).symm⟩
  · rintro (hlasts | ⟨rfl, rfl, rfl⟩)
    · exact .inl ⟨hlasts, by simp⟩
    · exact .inr ⟨rfl, given, rfl, h⟩

theorem mem_lasting_accepted (h : other.accept given = .ok q) :
  i ∈ lasting (calls ++ [.apply other given]) kind
    ↔ i ∈ lasting calls kind ∨ i = calls.length ∧ kind = other
  := by
  simp only [lasting, Set.mem_ofPred_eq, lasts_accepted h]
  constructor
  · rintro ⟨p, hlasts | ⟨hi, hkind, -⟩⟩
    · exact .inl ⟨p, hlasts⟩
    · exact .inr ⟨hi, hkind⟩
  · rintro (⟨p, hlasts⟩ | ⟨hi, hkind⟩)
    · exact ⟨p, .inl hlasts⟩
    · exact ⟨q, .inr ⟨hi, hkind, rfl⟩⟩

theorem lt_of_mem_lasting (h : i ∈ lasting calls kind) :
  i < calls.length
  := by
  obtain ⟨p, hlasts⟩ := h
  apply hlasts.lt

/-- The first application of a kind stays the first one. -/
theorem isLeast_lasting_accepted (h : other.accept given = .ok q)
    (hleast : IsLeast (lasting calls kind) i) :
  IsLeast (lasting (calls ++ [.apply other given]) kind) i
  := by
  constructor
  · apply (mem_lasting_accepted h).2 (.inl hleast.1)
  · intro j hj
    obtain hj | ⟨rfl, -⟩ := (mem_lasting_accepted h).1 hj
    · apply hleast.2 hj
    · apply (lt_of_mem_lasting hleast.1).le

/-- The application of a kind that is new is the first one. -/
theorem isLeast_lasting_new (h : other.accept given = .ok q) (hnew : lasting calls other = ∅) :
  IsLeast (lasting (calls ++ [.apply other given]) other) calls.length
  := by
  constructor
  · apply (mem_lasting_accepted h).2 (.inr ⟨rfl, rfl⟩)
  · intro j hj
    obtain hj | ⟨rfl, -⟩ := (mem_lasting_accepted h).1 hj
    · rw [hnew] at hj
      contradiction
    · rfl

/-- The newest application of a kind is the last one, and those of the other kinds stay as they
are. -/
theorem exists_greatest_accepted (h : other.accept given = .ok q) :
  (∃ i, Lasts (calls ++ [.apply other given]) kind p i
      ∧ IsGreatest (lasting (calls ++ [.apply other given]) kind) i)
    ↔ if kind = other then q = p
      else ∃ i, Lasts calls kind p i ∧ IsGreatest (lasting calls kind) i
  := by
  simp only [IsGreatest, upperBounds, mem_lasting_accepted h, lasts_accepted h,
    Set.mem_ofPred_eq]
  split
  · rename_i heq
    simp only [heq, and_true, true_and]
    constructor
    · rintro ⟨i, hlasts | ⟨-, rfl⟩, -, hgreatest⟩
      · have hle := hgreatest (.inr rfl)
        have hlt := hlasts.lt
        omega
      · rfl
    · rintro rfl
      refine ⟨calls.length, .inr ⟨rfl, rfl⟩, .inr rfl, ?_⟩
      rintro j (hj | rfl)
      · apply (lt_of_mem_lasting hj).le
      · rfl
  · rename_i hne
    simp only [hne, false_and, and_false, or_false]

end WrapperCall

/-! ### What the calls leave -/

open WrapperCall

/-- A wrapping is what the calls on a node without wrappers leave.  A kind is present if it was
applied after it was last removed; it has the parameter of the last time, and its place in the
order is from the first time. -/
structure Wrapping.Records (w : Wrapping) (calls : List WrapperCall) : Prop extends w.Sound where
  present : ∀ kind, (w.params.get? kind).isSome ↔ (lasting calls kind).Nonempty
  param : ∀ kind p, w.params.get? kind = some p
    ↔ ∃ i, Lasts calls kind p i ∧ IsGreatest (lasting calls kind) i
  sorted : w.order.Pairwise fun first second =>
    ∃ i j, IsLeast (lasting calls first) i ∧ IsLeast (lasting calls second) j ∧ i < j

namespace Wrapping

variable {w : Wrapping} {calls : List WrapperCall} {kind : WrapperKind} {given p : WrapperParam}

theorem Records.nil :
  Records {} []
  where
  toSound := Sound.empty
  present kind := by
    cases kind <;> simp [WrapperParams.get?, lasting, Lasts, Set.Nonempty]
  param kind p := by
    cases kind <;> simp [WrapperParams.get?, Lasts]
  sorted := List.Pairwise.nil

theorem Records.remove (h : w.Records calls) (kind : WrapperKind) :
  (w.erase kind).Records (calls ++ [.remove kind])
  where
  toSound := h.toSound.erase kind
  present other := by
    rw [get?_erase, lasting_remove]
    split
    · simp
    · apply h.present
  param other p := by
    rw [get?_erase, lasting_remove]
    split
    · simp [IsGreatest]
    · rename_i hne
      simp only [lasts_remove hne, h.param]
  sorted := by
    apply List.Pairwise.imp_of_mem _ (h.sorted.sublist List.erase_sublist)
    intro first second hfirst hsecond hlt
    rw [lasting_remove, lasting_remove, if_neg (h.nodup.mem_erase_iff.1 hfirst).1,
      if_neg (h.nodup.mem_erase_iff.1 hsecond).1]
    apply hlt

theorem Records.refused (h : w.Records calls) {fault : Fault}
    (hrefused : kind.accept given = .error fault) :
  w.Records (calls ++ [.apply kind given])
  := by
  have hlasting : lasting (calls ++ [.apply kind given]) = lasting calls := by
    funext other
    ext i
    simp only [lasting, Set.mem_ofPred_eq, lasts_refused hrefused]
  constructor
  · apply h.toSound
  · rw [hlasting]
    apply h.present
  · simp only [hlasting, lasts_refused hrefused]
    apply h.param
  · rw [hlasting]
    apply h.sorted

theorem Records.accepted (h : w.Records calls) (haccepted : kind.accept given = .ok p) :
  (w.put kind p).Records (calls ++ [.apply kind given])
  where
  toSound := h.toSound.apply (by rw [Wrapping.apply, haccepted]; rfl)
  present other := by
    rw [get?_put]
    split
    · rename_i heq
      simp only [Option.isSome_some, true_iff]
      exact ⟨_, (mem_lasting_accepted haccepted).2 (.inr ⟨rfl, heq⟩)⟩
    · rename_i hne
      simp only [Set.Nonempty, mem_lasting_accepted haccepted, hne, and_false, or_false]
      apply h.present
  param other q := by
    rw [get?_put, exists_greatest_accepted haccepted]
    split
    · rw [Option.some.injEq]
    · apply h.param
  sorted := by
    have hold : w.order.Pairwise fun first second =>
        ∃ i j, IsLeast (lasting (calls ++ [.apply kind given]) first) i
          ∧ IsLeast (lasting (calls ++ [.apply kind given]) second) j ∧ i < j := by
      apply h.sorted.imp
      rintro first second ⟨i, j, hi, hj, hlt⟩
      exact ⟨i, j, isLeast_lasting_accepted haccepted hi, isLeast_lasting_accepted haccepted hj, hlt⟩
    rw [put]
    split
    · apply hold
    · rename_i hnew
      rw [List.pairwise_append]
      refine ⟨hold, List.pairwise_singleton _ _, ?_⟩
      intro other hother _ hkind
      obtain rfl := List.mem_singleton.1 hkind
      rw [h.mem_order_iff, h.present] at hother
      rw [h.present, Set.not_nonempty_iff_eq_empty] at hnew
      have hleast := isLeast_csInf hother
      exact ⟨_, calls.length, isLeast_lasting_accepted haccepted hleast,
        isLeast_lasting_new haccepted hnew, lt_of_mem_lasting hleast.1⟩

/-- One call more is recorded. -/
theorem Records.update (h : w.Records calls) (call : WrapperCall) :
  (call.update w).Records (calls ++ [call])
  := by
  cases call with
  | remove kind => apply h.remove
  | apply kind given =>
    rw [WrapperCall.update]
    split
    · rename_i haccepted
      apply h.accepted haccepted
    · rename_i hrefused
      apply h.refused hrefused

/-- The wrapping that a node without wrappers has after calls records them. -/
theorem records_foldl (calls : List WrapperCall) :
  Records (calls.foldl WrapperCall.update {}) calls
  := by
  induction calls using List.reverseRecOn with
  | nil => apply Records.nil
  | append_singleton calls call ih =>
    rw [List.foldl_concat]
    apply ih.update

end Wrapping

/-! ### The markup of a wrapped node -/

/-- The wrappers that are present, in order. -/
def Wrapping.layers (w : Wrapping) : List Wrapper := w.order.map fun kind => (kind, w.param kind)

namespace Writing

variable {settings : Settings} {n : Node} {w : Wrapping} {m : Text}

theorem trimEndReversed_idem (s : Text) :
  trimEndReversed (trimEndReversed s) = trimEndReversed s
  := by
  fun_induction trimEndReversed s with
  | case1 => rfl
  | case2 _ _ ih => apply ih
  | case3 s h₁ h₂ =>
    cases s with
    | nil => rfl
    | cons c cs =>
      apply trimEndReversed_of_ne
      rintro rfl
      apply h₂ cs rfl

/-- Trimmed markup does not start with a space. -/
theorem head?_trimMarkup_ne (s : Text) :
  (trimMarkup s).head? ≠ some ' '
  := by
  intro h
  obtain ⟨back, hback⟩ := isPrefix_trimEndSpaces (s.dropWhile (· = ' '))
  rw [← trimMarkup_eq] at hback
  have hhead : (s.dropWhile (· = ' ')).head? = some ' ' := by
    rw [← hback, List.head?_append, h, Option.some_or]
  have hspace := List.head?_dropWhile_not (· = ' ') s
  rw [hhead] at hspace
  simp at hspace

theorem trimMarkup_idem (s : Text) :
  trimMarkup (trimMarkup s) = trimMarkup s
  := by
  have hdrop : (trimMarkup s).dropWhile (· = ' ') = trimMarkup s := by
    cases h : trimMarkup s with
    | nil => rfl
    | cons c cs =>
      apply List.dropWhile_cons_of_neg
      have hhead := head?_trimMarkup_ne s
      rw [h] at hhead
      simpa using hhead
  rw [trimMarkup_eq, hdrop, trimMarkup_eq, trimEndSpaces, trimEndSpaces, List.reverse_reverse,
    trimEndReversed_idem]

/-- Nothing of a wrapper is trimmed. -/
theorem trimMarkup_wrap (m : Text) (x : Wrapper) :
  trimMarkup (wrap m x) = wrap m x
  := by
  have hend := (whole_wrap m x).trimEndSpaces_append []
  obtain ⟨cs, hcs⟩ := exists_wrap m x
  rw [hcs, List.append_nil] at hend
  rw [trimMarkup_eq, hcs, List.dropWhile_cons_of_neg (by decide), hend]
  apply List.append_nil

/-- It does not matter whether a body is trimmed before it is wrapped. -/
theorem wrap_trimMarkup (m : Text) (x : Wrapper) :
  wrap (trimMarkup m) x = wrap m x
  := by
  rw [wrap.eq_def, wrap.eq_def m, trimMarkup_idem]

theorem trimMarkup_foldl_wrap (m : Text) (xs : List Wrapper) :
  trimMarkup (xs.foldl wrap m) = xs.foldl wrap (trimMarkup m)
  := by
  cases xs with
  | nil => rfl
  | cons x xs =>
    obtain ⟨front, last, hxs⟩ := (List.eq_nil_or_concat' (x :: xs)).resolve_left (by simp)
    have htrim : trimMarkup ((x :: xs).foldl wrap m) = (x :: xs).foldl wrap m := by
      rw [hxs, List.foldl_concat, trimMarkup_wrap]
    rw [htrim, List.foldl_cons, List.foldl_cons, wrap_trimMarkup]

/-- Within its wrappers a node is written without regard to them. -/
theorem writePlain_withWrapping (tm : Bool) (n : Node) (w w' : Wrapping) :
  writePlain settings tm [piece settings (n.withWrapping w)]
    = writePlain settings tm [piece settings (n.withWrapping w')]
  := by
  have hrun : ∀ p : Piece, writePlain settings tm [p] = writeRun settings tm [p] := by
    intro p
    simp only [writePlain, List.splitBy, List.splitBy.loop, List.reverse_singleton,
      List.mapM_cons, List.mapM_nil]
    cases writeRun settings tm [p] with
    | error => rfl
    | ok m => exact congrArg _ (join_singleton _ m)
  obtain ⟨l, s⟩ := n
  rw [hrun, hrun]
  cases s <;> rfl

/-- A single piece is written within its wrappers. -/
theorem writePieces_singleton (tm : Bool) (p : Piece) :
  writePieces settings tm [p]
    = (writePlain settings (tm || p.outer.any (·.1 = .textMode)) [p]).map fun m =>
        p.outer.foldl wrap m
  := by
  simp only [writePieces, writeWrapped, List.splitBy, List.splitBy.loop, List.reverse_singleton,
    List.mapM_cons, List.mapM_nil, List.head?_cons, Option.map_some, Option.getD_some]
  cases writePlain settings _ [p] with
  | error => rfl
  | ok m => exact congrArg _ (join_singleton _ _)

/-- A node is written as it is without wrappers, with the commands of its wrappers around it. -/
theorem writePieces_withWrapping (h : attributeWrappers n.shape = []) :
  writePieces settings false [piece settings (n.withWrapping w)]
    = (writePieces settings (w.order.contains .textMode)
        [piece settings (n.withWrapping {})]).map fun m => w.layers.foldl wrap m
  := by
  have houter : ∀ w : Wrapping, (piece settings (n.withWrapping w)).outer = w.layers := by
    intro w
    have hshape : attributeWrappers (n.withWrapping w).shape = [] := h
    rw [piece_outer, Node.outer, outerWrappers, hshape]
    simp only [List.map_nil, List.contains_nil, Bool.not_false, List.filter_true]
    rfl
  have hany : w.layers.any (·.1 = .textMode) = w.order.contains .textMode := by
    rw [Wrapping.layers, List.any_map, List.contains_eq_any_beq]
    congr 1
    funext kind
    apply decide_eq_decide.2 eq_comm
  rw [writePieces_singleton, writePieces_singleton, houter, houter, hany,
    writePlain_withWrapping _ _ w {}]
  simp only [Bool.false_or, Wrapping.layers, List.map_nil, List.any_nil, Bool.or_false, List.foldl_nil]
  cases writePlain settings _ _ <;> rfl

end Writing

theorem maxBracketDepth_withWrapping (n : Node) (w : Wrapping) :
  maxBracketDepth [n.withWrapping w] = maxBracketDepth [n]
  := by
  obtain ⟨l, s⟩ := n
  rw [maxBracketDepth, maxBracketDepth, List.flatMap_singleton, List.flatMap_singleton,
    Tree.withWrapping, Tree.withLabel, Tree.shape, Node.bracketDepths, Tree.fold_mk, Tree.fold_mk]

/-- The markup of a node is that of the node without wrappers, with the commands of its wrappers
around it. -/
theorem toMarkup_withWrapping (t : SymbolTable) (config : WriteConfig) {n : Node}
    (h : attributeWrappers n.shape = []) (w : Wrapping) :
  let settings : Settings := { settingsFor config [n] with table := t }
  toMarkup t config [n.withWrapping w]
    = (writePieces settings (w.order.contains .textMode) [piece settings (n.withWrapping {})]).map
        fun m => w.layers.foldl wrap (trimMarkup m)
  := by
  intro settings
  have hsettings : settings = Settings.mk t config.structural config.sizing
      (maxBracketDepth [n.withWrapping w]) := by
    rw [maxBracketDepth_withWrapping]
    rfl
  rw [toMarkup, ← hsettings, List.map_singleton, writePieces_withWrapping h]
  cases writePieces settings _ _ with
  | error => rfl
  | ok m => exact congrArg _ (trimMarkup_foldl_wrap m w.layers)

/-! ### Sessions -/

namespace Session

variable {t : SymbolTable} {config : Config} {s s' : Session} {i : Nat} {n : Node}

/-- The session after calls on the node of an identifier. -/
def rewrap (t : SymbolTable) (config : Config) (s : Session) (i : Nat)
    (calls : List WrapperCall) : Session :=
  calls.foldl (fun s call => (s.perform t config (call.request i)).2) s

/-- A node is found with the wrapping that it is given. -/
theorem Sound.node_alter (h : s.Sound) (hn : s.node i = .ok n) (w : Wrapping) :
  (s.alter i (·.withWrapping w)).node i = .ok (n.withWrapping w)
  := by
  obtain ⟨hwalk, hid⟩ := h.node_eq_ok_iff.1 hn
  rw [(h.alter_wrapping hn w).1.node_eq_ok_iff, tops_alter]
  have hreplaced := replaced_map_alter (f := fun n => n.withWrapping w) (fun _ => rfl) h.sound
    h.nodup hwalk hid
  exact ⟨hreplaced.mem, hid⟩

/-- A call is answered, and the node has the updated wrapping; one that is refused changes
nothing. -/
theorem Sound.perform_call (h : s.Sound) (t : SymbolTable) (config : Config)
    (hn : s.node i = .ok n) (call : WrapperCall) :
  ∃ s', s.perform t config (call.request i) = (call.answer, s') ∧ s'.Sound
    ∧ s'.node i = .ok (n.withWrapping (call.update n.wrapping))
    ∧ ∀ fault, call.answer = .error fault → s' = s
  := by
  cases call with
  | remove kind =>
    refine ⟨s.alter i (·.withWrapping (n.wrapping.erase kind)), ?_, (h.alter_wrapping hn _).1,
      h.node_alter hn _, ?_⟩
    · rw [WrapperCall.request, Session.perform, Session.unwrap, hn]
      rfl
    · intro fault hfault
      contradiction
  | apply kind given =>
    cases haccept : kind.accept given with
    | ok p =>
      refine ⟨s.alter i (·.withWrapping (n.wrapping.put kind p)), ?_, (h.alter_wrapping hn _).1,
        ?_, ?_⟩
      · rw [WrapperCall.request, Session.perform, Session.wrap, hn, WrapperCall.answer, haccept]
        simp only [bind, Except.bind, Wrapping.apply, haccept]
        rfl
      · rw [WrapperCall.update, haccept]
        apply h.node_alter hn
      · intro fault hfault
        rw [WrapperCall.answer, haccept] at hfault
        contradiction
    | error fault =>
      refine ⟨s, ?_, h, ?_, fun _ _ => rfl⟩
      · rw [WrapperCall.request, Session.perform, Session.wrap, hn, WrapperCall.answer, haccept]
        simp only [bind, Except.bind, Wrapping.apply, haccept]
        rfl
      · rw [WrapperCall.update, haccept]
        obtain ⟨l, shape⟩ := n
        apply hn

/-- After calls the node has the wrapping that they lead to. -/
theorem Sound.node_rewrap (h : s.Sound) (t : SymbolTable) (config : Config)
    (hn : s.node i = .ok n) (calls : List WrapperCall) :
  (s.rewrap t config i calls).Sound
    ∧ (s.rewrap t config i calls).node i
      = .ok (n.withWrapping (calls.foldl WrapperCall.update n.wrapping))
  := by
  induction calls using List.reverseRecOn with
  | nil =>
    obtain ⟨l, shape⟩ := n
    exact ⟨h, hn⟩
  | append_singleton calls call ih =>
    obtain ⟨s', hperform, hs', hn', -⟩ := ih.1.perform_call t config ih.2 call
    rw [rewrap, List.foldl_concat, ← rewrap, hperform, List.foldl_concat]
    exact ⟨hs', hn'⟩

/-- A node that is made is found, and it has no wrappers. -/
theorem Sound.node_create (h : s.Sound) {blueprint : Blueprint}
    (hparts : ∀ n ∈ blueprint.parts, n ∈ s.loose) (hcreate : s.create blueprint = (.ok n, s')) :
  s'.Sound ∧ s'.node n.id = .ok n ∧ n.wrapping = {}
  := by
  obtain ⟨n', s'', hcreate', -, hs', -⟩ | ⟨fault, hrefused⟩ := h.create hparts
  · obtain ⟨hnode, rfl⟩ := Prod.mk.inj (hcreate.symm.trans hcreate')
    refine ⟨hs', ?_⟩
    rw [Session.create] at hcreate
    split at hcreate
    · cases hcreate
    · rcases blueprint.runOn_build s.supply with ⟨shape, hbuild, -⟩ | ⟨fault, hbuild⟩
      · simp only [build, hbuild, Prod.mk.injEq, Except.ok.injEq] at hcreate
        obtain ⟨rfl, rfl⟩ := hcreate
        refine ⟨hs'.node_eq_ok_iff.2 ⟨mem_walk_of_mem ?_, rfl⟩, rfl⟩
        apply List.mem_append_right _ (List.mem_append_right _ List.mem_cons_self)
      · simp only [build, hbuild] at hcreate
        cases hcreate
  · cases hcreate.symm.trans hrefused

/-- The wrappers of a node that was just made are those that the calls on it leave, and it is
written with the commands of the kinds around it, the one that came first innermost. -/
theorem Arises.wrappers_rewrap (h : s.Arises t config) {blueprint : Blueprint}
    (hparts : ∀ n ∈ blueprint.parts, n ∈ s.loose) (hcreate : s.create blueprint = (.ok n, s'))
    (calls : List WrapperCall) :
  ∃ w : Wrapping, (s'.rewrap t config n.id calls).node n.id = .ok (n.withWrapping w)
    ∧ w.Records calls
    ∧ (∀ call : WrapperCall, ∃ s'', (s'.rewrap t config n.id calls).perform t config (call.request n.id)
        = (call.answer, s'')
      ∧ ∀ fault, call.answer = .error fault → s'' = s'.rewrap t config n.id calls)
    ∧ (attributeWrappers n.shape = [] → ∀ (t : SymbolTable) (config : WriteConfig),
      let settings : Settings := { settingsFor config [n] with table := t }
      toMarkup t config [n.withWrapping w]
        = (writePieces settings (w.order.contains .textMode)
            [piece settings (n.withWrapping {})]).map
          fun m => w.layers.foldl Writing.wrap (trimMarkup m))
  := by
  obtain ⟨hs', hn, hbare⟩ := h.sound.node_create hparts hcreate
  obtain ⟨hsound, hnode⟩ := hs'.node_rewrap t config hn calls
  rw [hbare] at hnode
  refine ⟨_, hnode, Wrapping.records_foldl calls, ?_, ?_⟩
  · intro call
    obtain ⟨s'', hperform, -, -, hrefused⟩ := hsound.perform_call t config hnode call
    exact ⟨s'', hperform, hrefused⟩
  · intro hattributes t config
    apply toMarkup_withWrapping t config hattributes

/-- Calls of which the second is refused; an underline is removed and applied again. -/
def underlinedAgain : List WrapperCall :=
  [.apply .underline (.style .double), .apply .underline (.text ['x']), .apply .textMode .none,
    .remove .underline, .apply .color (.text "red".toList), .apply .underline .none]

theorem wrappers_rewrap_squareRoot :
  ∃ n s', create {} .sqrt = (.ok n, s')
    ∧ ∃ w : Wrapping, (s'.rewrap .builtin {} n.id underlinedAgain).node n.id = .ok (n.withWrapping w)
      ∧ w.Records underlinedAgain
      ∧ w.layers = [(.textMode, .none), (.color, .text "red".toList), (.underline, .style .single)]
      ∧ toMarkup .builtin {} [n.withWrapping w]
        = .ok "\\underline\x7b\\textcolor\x7bred\x7d\x7b\\text\x7b\\sqrt\x7b \x7d\x7d\x7d\x7d".toList
  := by
  have hcreate : create {} .sqrt = (.ok (.plain 1 (.sqrt [])), _) := rfl
  obtain ⟨w, hnode, hrecords, -, -⟩ := Arises.wrappers_rewrap (t := .builtin) .start
    (List.forall_mem_nil _) hcreate underlinedAgain
  have hfound : (rewrap .builtin {} (create {} .sqrt).2 1 underlinedAgain).node 1
      = .ok ((Node.plain 1 (.sqrt [])).withWrapping {
        params := {
          underline := some (.style .single)
          color := some (.text "red".toList)
          textMode := some .none }
        order := [.textMode, .color, .underline] }) := rfl
  obtain rfl := congrArg Tree.wrapping (Except.ok.inj (hnode.symm.trans hfound))
  refine ⟨_, _, hcreate, _, hnode, hrecords, rfl, ?_⟩
  decide

end Session

end Formula
