import Formula.Proofs.Siblings

/-!
# Plain text

Siblings are written as a text of letters and digits exactly when they are that text, with
nothing around it.  The numerals of derivatives and the names of operators are told apart
from other expressions by their markup.
-/

namespace Formula

open Build Markup Writing

variable {settings : Settings} {keep cell tm : Bool} {m w b : Text} {n : Node}
  {ns : List Node}

/-! ### Letters and digits -/

/-- Whether a character is a letter or a digit: it is written and read as itself. -/
def isPlainChar (c : Char) : Bool := c.isDigit || Text.isLetter c

theorem ne_of_isPlainChar {c d : Char} (h : isPlainChar c = true) (hd : isPlainChar d = false) :
  c ≠ d
  := by
  rintro rfl
  rw [h] at hd
  contradiction

theorem isBlank_of_isPlainChar {c : Char} (h : isPlainChar c = true) :
  Text.isBlank c = false
  := by
  rw [isPlainChar, Bool.or_eq_true] at h
  rcases h with h | h
  · apply Text.isBlank_of_isDigit h
  · apply Text.isBlank_of_isLetter h

theorem glyphs_checked : ∀ info ∈ builtinSymbols,
    ∀ c ∈ info.glyph, info.glyph = [c] → isPlainChar c = false
  := by decide +kernel

/-- A letter or digit is not the glyph of a symbol. -/
theorem glyph_ne_of_isPlainChar {c : Char} (h : isPlainChar c = true) :
  ∀ info ∈ SymbolTable.builtin.symbols, info.glyph ≠ [c]
  := by
  rw [SymbolTable.symbols_builtin]
  intro info hinfo hglyph
  have := glyphs_checked info hinfo c (by rw [hglyph]; apply List.mem_cons_self) hglyph
  rw [h] at this
  contradiction

/-- A letter or digit is written as itself. -/
theorem escapeChar_of_isPlainChar {c : Char} (h : isPlainChar c = true) :
  escapeChar .builtin tm c = [c]
  := by
  have hspelling : Escape.spelling? c = none := by
    unfold Escape.spelling?
    split <;> first | (apply absurd h (by decide)) | rfl
  have hglyph := glyph_ne_of_isPlainChar h
  have hcommand : SymbolTable.builtin.commandFor? [c] = none := by
    rw [SymbolTable.commandFor?, SymbolTable.symbolFor?, Option.map_eq_none_iff]
    apply List.find?_eq_none.2
    intro info hinfo
    simp [hglyph info hinfo]
  have hoperator : SymbolTable.builtin.isOperator [c] = false := by
    rw [SymbolTable.isOperator, Bool.or_eq_false_iff]
    constructor
    · apply List.any_eq_false.2
      intro d hd hcd
      have hc : c = d := List.singleton_injective (of_decide_eq_true hcd)
      have hplain : ∀ d ∈ asciiOperators, isPlainChar d = false := by decide
      apply ne_of_isPlainChar h (hplain d hd) hc
    · apply List.any_eq_false.2
      intro info hinfo
      simp [hglyph info hinfo]
  rw [escapeChar, if_neg (ne_of_isPlainChar h (by decide)), hspelling, hcommand]
  simp [hoperator]

theorem collapseSpaces_eq_self (h : ' ' ∉ m) :
  collapseSpaces m = m
  := by
  have := collapseSpaces_append (m := []) h
  rwa [List.append_nil, collapseSpaces, List.append_nil] at this

theorem escapeText_of_isPlainChar (h : ∀ c ∈ w, isPlainChar c = true) :
  escapeText .builtin tm w = w
  := by
  have hflat : w.flatMap (escapeChar .builtin tm) = w := by
    induction w with
    | nil => rfl
    | cons c cs ih =>
      rw [List.flatMap_cons, escapeChar_of_isPlainChar (h c List.mem_cons_self),
        ih fun c hc => h c (List.mem_cons_of_mem _ hc)]
      rfl
  rw [escapeText, hflat]
  apply collapseSpaces_eq_self
  intro hspace
  apply absurd (h ' ' hspace) (by decide)

/-- Letters and digits are read as themselves, and blanks around them are passed over. -/
theorem makes_items_plain (hw : ∀ c ∈ w, isPlainChar c = true)
    (hb : ∀ c ∈ b, Text.isBlank c = true) (before : List Node) :
  Makes (Reading.items .builtin false before (w ++ b))
    (before.reverse.map Node.bare ++ w.map charNode)
  := by
  induction w generalizing before with
  | nil =>
    have hblank : Text.skipBlanks b = [] := List.dropWhile_eq_nil_iff.2 hb
    rw [List.nil_append, ← Reading.items_skipBlanks, hblank, Reading.items_nil, List.map_nil,
      List.append_nil]
    apply Returns.pure rfl
  | cons c cs ih =>
    have hc := hw c List.mem_cons_self
    have hcs : ∀ c ∈ cs, isPlainChar c = true := fun c hc => hw c (List.mem_cons_of_mem _ hc)
    have hspecial : c ∉ ['\\', '{', '}', '^', '_'] := by
      intro hmem
      have hplain : ∀ d ∈ ['\\', '{', '}', '^', '_'], isPlainChar d = false := by decide
      apply ne_of_isPlainChar hc (hplain c hmem) rfl
    have hspells := @spells_plain .builtin true _ _ (isBlank_of_isPlainChar hc) hspecial
      fun _ => ne_of_isPlainChar hc (by decide)
    have hfollow : Follow [c] (cs ++ b) := by
      intro hends
      have hnot : endsInName [c] = false := by
        simp only [endsInName, Writing.endsInCommandReversed, List.reverse_singleton,
          List.takeWhile_cons, List.dropWhile_cons]
        split <;> simp
      rw [hnot] at hends
      contradiction
    have hmarker : scriptMarker? (cs ++ b) = none := by
      rw [scriptMarker?, Text.skipBlanks]
      cases cs with
      | nil => rw [List.nil_append, List.dropWhile_eq_nil_iff.2 hb]
      | cons d ds =>
        have hd := hcs d List.mem_cons_self
        rw [List.cons_append, List.dropWhile_cons_of_neg (by simp [isBlank_of_isPlainChar hd])]
        have hnone : ScriptSide.ofMarker? d = none := by
          cases hside : ScriptSide.ofMarker? d with
          | none => rfl
          | some side =>
            have hmark : isPlainChar side.marker = false := by cases side <;> decide
            exact absurd (ScriptSide.ofMarker?_eq_some_iff.1 hside) (ne_of_isPlainChar hd hmark)
        simp [hnone]
    have hgives := hspells.gives (cs ++ b) hfollow hmarker SymbolTable.endsBefore_builtin
    rw [List.cons_append, Reading.items_cons (isBlank_of_isPlainChar hc)]
    apply Returns.bind hgives
    rintro _ ⟨made, rfl, hmade⟩
    apply Returns.bind (Returns.pure rfl)
    rintro _ rfl
    have hlength : (cs ++ b).length < (c :: (cs ++ b)).length := by
      simp only [List.length_cons]
      omega
    simp only [hlength, if_true]
    apply Returns.mono (ih hcs (made.reverse ++ before))
    intro all hall
    rw [hall]
    simp [hmade]

/-- What is left of a text after trimming, with what was taken off. -/
theorem exists_trimBoth (p : Char → Bool) (s : Text) :
  ∃ front back, s = front ++ (Text.trimBoth p s ++ back)
    ∧ (∀ c ∈ front, p c = true) ∧ (∀ c ∈ back, p c = true)
  := by
  refine ⟨s.takeWhile p, ((s.dropWhile p).reverse.takeWhile p).reverse, ?_, ?_, ?_⟩
  · rw [Text.trimBoth, ← List.reverse_append, List.takeWhile_append_dropWhile,
      List.reverse_reverse, List.takeWhile_append_dropWhile]
  · intro c hc
    apply List.mem_takeWhile_imp hc
  · intro c hc
    apply List.mem_takeWhile_imp (List.mem_reverse.1 hc)

/-- Markup that is a text of letters and digits with blanks around it spells the text. -/
theorem eq_map_charNode_of_trimBoth {p : Char → Bool} (hp : ∀ c, p c = true → Text.isBlank c = true)
    (h : Spelled .builtin false cell m ns) (hw : ∀ c ∈ Text.trimBoth p m, isPlainChar c = true) :
  ns = (Text.trimBoth p m).map charNode
  := by
  obtain ⟨front, back, hm, hfront, hback⟩ := exists_trimBoth p m
  have hmakes := makes_items_plain hw (fun c hc => hp c (hback c hc)) []
  have hskip : ∀ (front s : Text), (∀ c ∈ front, p c = true) →
      Reading.items .builtin false [] (front ++ s) = Reading.items .builtin false [] s := by
    intro front s hfront
    induction front with
    | nil => rfl
    | cons c cs ih =>
      rw [List.cons_append, Reading.items_blank (hp c (hfront c List.mem_cons_self)),
        ih fun c hc => hfront c (List.mem_cons_of_mem _ hc)]
  rw [← hskip front _ hfront, ← hm] at hmakes
  obtain ⟨made, -, hmade, hmade'⟩ := ((h.makes_items []).and hmakes).exists_ok {}
  simp only [List.reverse_nil, List.map_nil, List.nil_append] at hmade hmade'
  rw [← hmade, hmade']

/-! ### Wrappers leave a trace -/

theorem enwrap_ne_charNode {ws : List Wrapper} (hne : ws ≠ []) (n : Node) (c : Char) :
  Node.enwrap ws n ≠ charNode c
  := by
  obtain ⟨front, x, rfl⟩ := List.eq_nil_or_concat' ws |>.resolve_left hne
  intro h
  apply rewrap_reread_ne_charNode x c (Node.enwrap front n)
  rw [← h, Node.enwrap, Node.enwrap]
  simp only [List.foldl_append]
  cases n
  rfl

theorem exists_command (name : String) (s : Text) (h : name.toList.head? = some '\\') :
  ∃ cs, Writing.command name s = '\\' :: cs
  := by
  rw [Writing.command]
  cases hname : name.toList with
  | nil =>
    rw [hname] at h
    contradiction
  | cons c cs =>
    rw [hname] at h
    obtain rfl := Option.some.inj h
    exact ⟨_, rfl⟩

/-- A wrapper is written with a command. -/
theorem exists_wrap (m : Text) (w : Wrapper) :
  ∃ cs, wrap m w = '\\' :: cs
  := by
  obtain ⟨kind, param⟩ := w
  cases kind with
  | underline =>
    cases param with
    | style s => cases s <;> apply exists_command _ _ (by decide)
    | _ => apply exists_command _ _ (by decide)
  | cancel => apply exists_command _ _ (by decide)
  | color => exact ⟨_, rfl⟩
  | textMode => apply exists_command _ _ (by decide)

theorem mem_foldl_wrap {ws : List Wrapper} (hne : ws ≠ []) :
  '\\' ∈ ws.foldl wrap m
  := by
  obtain ⟨front, x, rfl⟩ := List.eq_nil_or_concat' ws |>.resolve_left hne
  obtain ⟨cs, hcs⟩ := exists_wrap (front.foldl wrap m) x
  rw [List.foldl_append, List.foldl_cons, List.foldl_nil, hcs]
  apply List.mem_cons_self

theorem mem_join {separator : Text} {parts : List Text} {part : Text} (h : part ∈ parts) {c : Char}
    (hc : c ∈ part) :
  c ∈ join separator parts
  := by
  rw [join]
  suffices hstep : ∀ joined, (c ∈ joined ∨ ∃ part ∈ parts, c ∈ part) →
      c ∈ parts.foldl (fun joined part =>
        if Text.startsWithLetter part && endsInCommand joined then joined ++ separator ++ part
        else joined ++ part) joined by
    apply hstep [] (.inr ⟨part, h, hc⟩)
  clear h hc
  induction parts with
  | nil =>
    rintro joined (h | ⟨part, h, -⟩)
    · apply h
    · contradiction
  | cons p ps ih =>
    rintro joined h
    rw [List.foldl_cons]
    apply ih
    rcases h with h | ⟨part, h, hc⟩
    · left
      split <;> simp [h]
    · rcases List.mem_cons.1 h with rfl | h
      · left
        split <;> simp [hc]
      · right
        exact ⟨part, h, hc⟩

theorem exists_of_mapM {α β ε : Type} {f : α → Except ε β} {l : List α} {bs : List β}
    (h : l.mapM f = .ok bs) {a : α} (ha : a ∈ l) :
  ∃ b ∈ bs, f a = .ok b
  := by
  induction l generalizing bs with
  | nil => contradiction
  | cons a' l ih =>
    rw [List.mapM_cons] at h
    obtain ⟨b, hf, h⟩ := exists_of_bind_eq_ok h
    obtain ⟨rest, hl, h⟩ := exists_of_bind_eq_ok h
    obtain rfl := Except.ok.inj h
    rcases List.mem_cons.1 ha with rfl | ha
    · exact ⟨b, List.mem_cons_self, hf⟩
    · obtain ⟨b', hb', hfa⟩ := ih hl ha
      exact ⟨b', List.mem_cons_of_mem _ hb', hfa⟩

/-- A node with wrappers is written with a command. -/
theorem mem_writePieces_of_outer (h : writePieces settings tm (ns.map (piece settings)) = .ok m)
    (hn : n ∈ ns) (houter : n.outer ≠ []) :
  '\\' ∈ m
  := by
  simp only [writePieces, splitBy_map, piece_outer] at h
  rw [← groups] at h
  rcases hparts : ((groups ns).map (List.map (piece settings))).mapM (writeWrapped settings tm)
    with e | parts
  · rw [hparts] at h
    cases h
  · rw [hparts] at h
    obtain rfl := Except.ok.inj h
    have hflatten : n ∈ (groups ns).flatten := by
      rw [groups, List.flatten_splitBy]
      apply hn
    obtain ⟨g, hg, hng⟩ := List.mem_flatten.1 hflatten
    obtain ⟨part, hpart, hwrite⟩ := exists_of_mapM hparts (List.mem_map_of_mem hg)
    apply mem_join hpart
    obtain ⟨k, rest, rfl⟩ := List.exists_cons_of_ne_nil (List.ne_nil_of_mem hng)
    have hk : k.outer ≠ [] := by
      rwa [outer_eq_of_mem_groups hg List.mem_cons_self hng]
    rw [writeWrapped, List.map_cons] at hwrite
    simp only [List.head?_cons, Option.map_some, Option.getD_some, piece_outer] at hwrite
    rcases hbody : writePlain settings (tm || k.outer.any (·.1 = .textMode))
      (piece settings k :: rest.map (piece settings)) with e | body
    · rw [hbody] at hwrite
      cases hwrite
    · rw [hbody] at hwrite
      obtain rfl := Except.ok.inj hwrite
      apply mem_foldl_wrap hk

/-! ### What is read as plain text -/

/-- A character with attributes is not read as a character alone. -/
theorem textReread_eq {v : Text} {f : TextFormat} (h : textReread v f = w.map charNode) :
  v = w ∧ (v = [] ∨ f = {})
  := by
  have hchar : ∀ c d : Char, Node.enwrap (attributeCommandsOf f)
      (charWith { bold := f.bold, italic := f.italic } c) = charNode d → f = {} := by
    intro c d h
    have hnil : attributeCommandsOf f = [] := by
      by_contra hne
      apply enwrap_ne_charNode hne _ _ h
    obtain ⟨bold, italic, underline, strikethrough, color, textMode⟩ := f
    rw [hnil] at h
    simp only [Node.enwrap, Node.rewrap, List.foldl_nil, charWith, charNode, Node.plain,
      Tree.withWrapping, Tree.withLabel, Tree.shape, Tree.mk.injEq, Shape.text.injEq,
      TextFormat.mk.injEq] at h
    simp only [attributeCommandsOf, List.append_eq_nil_iff, List.map_eq_nil_iff] at hnil
    obtain ⟨⟨⟨hunderline, hstrike⟩, hcolor⟩, hmode⟩ := hnil
    cases underline <;> cases strikethrough <;> cases color <;> cases textMode <;> simp_all
  cases v with
  | nil =>
    cases w with
    | nil => exact ⟨rfl, .inl rfl⟩
    | cons => contradiction
  | cons c cs =>
    cases w with
    | nil => contradiction
    | cons d ds =>
      obtain rfl := hchar c d (List.cons.inj h).1
      exact ⟨List.map_injective_iff.2 charNode_injective h, .inr rfl⟩

/-- A node without wrappers that is read as a text is that text. -/
theorem Node.plainText?_of_reread (houter : n.outer = []) (h : reread n = w.map charNode) :
  plainText? n = some w
  := by
  have hinside : inside n = w.map charNode := by
    rw [← h, reread_eq, houter]
    symm
    apply List.map_id''
    intro n
    cases n
    rfl
  obtain ⟨l, s⟩ := n
  cases s with
  | text v f scale =>
    obtain ⟨rfl, hplain⟩ := textReread_eq hinside
    rw [plainText?, Tree.shape]
    exact if_pos ⟨houter, hplain⟩
  | _ =>
    cases w with
    | nil => cases hinside
    | cons d ds => cases congrArg Tree.shape (List.cons.inj hinside).1

/-- Siblings that are written without commands and are read as a text are that text. -/
theorem plainText?_of_reread (hwrite : writePieces settings tm (ns.map (piece settings)) = .ok m)
    (hm : '\\' ∉ m) (h : ns.flatMap Node.reread = w.map charNode) :
  plainText? ns = some w
  := by
  have houter : ∀ n ∈ ns, n.outer = [] := by
    intro n hn
    by_contra hne
    apply hm (mem_writePieces_of_outer hwrite hn hne)
  clear hwrite
  induction ns generalizing w with
  | nil =>
    cases w with
    | nil => rfl
    | cons => contradiction
  | cons n ns ih =>
    rw [List.flatMap_cons] at h
    obtain ⟨v, u, rfl, hv, hu⟩ := List.append_eq_map_iff.1 h
    have hn := Node.plainText?_of_reread (houter n List.mem_cons_self) hv.symm
    have hns := ih hu.symm fun n hn => houter n (List.mem_cons_of_mem _ hn)
    rw [plainText?, hn, hns]
    rfl

/-! ### How plain text is written -/

/-- A text without commands does not end with one. -/
theorem endsInCommand_eq_false (h : '\\' ∉ m) :
  endsInCommand m = false
  := by
  have hreversed : ∀ s : Text, '\\' ∉ s → endsInCommandReversed s = false := by
    intro s hs
    rw [endsInCommandReversed, Bool.and_eq_false_iff]
    right
    rw [beq_eq_false_iff_ne]
    intro hhead
    apply hs ((List.dropWhile_sublist _).subset (List.mem_of_head? hhead))
  have hreverse : '\\' ∉ m.reverse := fun hmem => h (List.mem_reverse.1 hmem)
  rw [endsInCommand]
  split
  · rename_i cs heq
    rw [heq] at hreverse
    apply hreversed _ fun hmem => hreverse (List.mem_cons_of_mem _ hmem)
  · apply hreversed _ hreverse

/-- Parts without commands are joined without separators. -/
theorem join_eq_flatten {separator : Text} {parts : List Text} (h : '\\' ∉ parts.flatten) :
  join separator parts = parts.flatten
  := by
  suffices hstep : ∀ joined, '\\' ∉ joined ++ parts.flatten →
      parts.foldl (fun joined part =>
        if Text.startsWithLetter part && endsInCommand joined then joined ++ separator ++ part
        else joined ++ part) joined = joined ++ parts.flatten by
    apply hstep [] h
  clear h
  induction parts with
  | nil =>
    intro joined _
    simp
  | cons p ps ih =>
    intro joined h
    rw [List.flatten_cons, ← List.append_assoc] at h ⊢
    rw [List.foldl_cons, endsInCommand_eq_false fun hmem => h (by simp [hmem]), Bool.and_false]
    apply ih _ h

/-- The text of a plain node. -/
def Node.textOf (n : Node) : Text := (plainText? n).getD []

theorem plainText?_eq_some (h : plainText? ns = some w) :
  w = ns.flatMap Node.textOf ∧ ∀ n ∈ ns, ∃ v, Node.plainText? n = some v
  := by
  induction ns generalizing w with
  | nil =>
    obtain rfl := Option.some.inj h
    exact ⟨rfl, by simp⟩
  | cons n ns ih =>
    obtain ⟨v, u, hv, hu, rfl⟩ := plainText?_cons_eq_some h
    obtain ⟨rfl, hall⟩ := ih hu
    constructor
    · rw [List.flatMap_cons, Node.textOf, hv, Option.getD_some]
    · intro k hk
      rcases List.mem_cons.1 hk with rfl | hk
      · exact ⟨v, hv⟩
      · apply hall k hk

theorem exists_text_of_plainText? {v : Text} (h : Node.plainText? n = some v) :
  n.outer = [] ∧ ∃ f scale, n.shape = .text v f scale ∧ (v = [] ∨ f = {})
  := by
  obtain ⟨l, s⟩ := n
  cases s with
  | text v' f scale =>
    simp only [Node.plainText?, Tree.shape, Option.ite_none_right_eq_some, Option.some.injEq]
      at h
    obtain ⟨⟨houter, hplain⟩, rfl⟩ := h
    exact ⟨houter, f, scale, rfl, hplain⟩
  | _ => contradiction

theorem run?_of_plainText? {v : Text} (h : Node.plainText? n = some v) :
  ∃ F, (piece settings n).run? = some (v, F) ∧ (v = [] ∨ F.format = {})
  := by
  obtain ⟨-, f, scale, hshape, hplain⟩ := exists_text_of_plainText? h
  obtain ⟨l, s⟩ := n
  obtain rfl : s = .text v f scale := hshape
  exact ⟨_, piece_text settings l v f scale, hplain⟩

/-- Parts that are plain text are joined to their text. -/
theorem join_plain {write : List Piece → Except Fault Text} {gs : List (List Node)}
    (hchars : ∀ c ∈ gs.flatten.flatMap Node.textOf, isPlainChar c = true)
    (h : ∀ g ∈ gs, write (g.map (piece settings)) = .ok (g.flatMap Node.textOf)) :
  ∃ parts, (gs.map (List.map (piece settings))).mapM write = .ok parts
    ∧ join (separator tm) parts = gs.flatten.flatMap Node.textOf
  := by
  have hparts : (gs.map (List.map (piece settings))).mapM write
      = .ok (gs.map (List.flatMap Node.textOf)) := by
    rw [List.mapM_map]
    apply mapM_eq_ok h
  refine ⟨_, hparts, ?_⟩
  rw [← flatten_map_flatMap] at hchars ⊢
  apply join_eq_flatten
  intro hmem
  apply ne_of_isPlainChar (hchars _ hmem) (by decide) rfl

section Plain

variable (htable : settings.table = .builtin) {g : List Node}
  (hplain : ∀ n ∈ g, ∃ v, Node.plainText? n = some v)
  (hchars : ∀ c ∈ g.flatMap Node.textOf, isPlainChar c = true)

include htable hplain hchars

theorem writeRun_of_plain (hne : g ≠ [])
    (hchain : List.IsChain (fun n n' => (piece settings n).sameRun (piece settings n') = true) g) :
  writeRun settings tm (g.map (piece settings)) = .ok (g.flatMap Node.textOf)
  := by
  obtain ⟨n, ns, rfl⟩ := List.exists_cons_of_ne_nil hne
  obtain ⟨v, hv⟩ := hplain n List.mem_cons_self
  obtain ⟨F, hrun, -⟩ := run?_of_plainText? hv
  have hpieces : List.IsChain (fun p q : Piece => p.sameRun q = true)
      ((n :: ns).map (piece settings)) := (List.isChain_map _).2 hchain
  have hall := run?_of_isChain hpieces hrun
  have htext : ∀ k ∈ n :: ns, (piece settings k).run? = some (k.textOf, F)
      ∧ (k.textOf = [] ∨ F.format = {}) := by
    intro k hk
    obtain ⟨u, hu⟩ := hplain k hk
    obtain ⟨F', hrun', hformat⟩ := run?_of_plainText? hu
    obtain ⟨u', hu'⟩ := hall _ (List.mem_map_of_mem hk)
    rw [hrun'] at hu'
    cases hu'
    rw [Node.textOf, hu, Option.getD_some]
    exact ⟨hrun', hformat⟩
  have hbody : (piece settings n).body = .run v F := by
    rw [Piece.run?] at hrun
    split at hrun
    · rename_i hbody
      rw [hbody]
      cases hrun
      rfl
    · contradiction
  have hvalue : (piece settings n :: ns.map (piece settings)).flatMap
      (fun q => ((q.run?).map (·.1)).getD []) = (n :: ns).flatMap Node.textOf := by
    rw [← List.map_cons, List.flatMap_map]
    apply List.flatMap_congr
    intro k hk
    rw [(htext k hk).1]
    rfl
  rw [List.map_cons]
  simp only [writeRun, hbody, hvalue, htable]
  rw [textRun]
  split
  · rename_i hempty
    rw [List.isEmpty_iff.1 hempty]
    rfl
  · rename_i hempty
    have hformat : F.format = {} := by
      by_contra hformat
      apply hempty
      rw [List.isEmpty_iff, List.flatMap_eq_nil_iff]
      intro k hk
      apply (htext k hk).2.resolve_right hformat
    rw [hformat]
    change Except.ok (escapeText .builtin _ _) = _
    rw [escapeText_of_isPlainChar hchars]

theorem writePlain_of_plain :
  writePlain settings tm (g.map (piece settings)) = .ok (g.flatMap Node.textOf)
  := by
  have hruns : ∀ r ∈ g.splitBy fun n n' => (piece settings n).sameRun (piece settings n'),
      writeRun settings tm (r.map (piece settings)) = .ok (r.flatMap Node.textOf) := by
    intro r hr
    have hmem : ∀ n ∈ r, n ∈ g := by
      intro n hn
      rw [← List.flatten_splitBy
        (fun n n' => (piece settings n).sameRun (piece settings n')) g]
      apply List.mem_flatten_of_mem hr hn
    apply writeRun_of_plain htable _ _ (List.ne_nil_of_mem_splitBy hr)
      (List.isChain_of_mem_splitBy hr)
    · intro n hn
      apply hplain n (hmem n hn)
    · intro c hc
      obtain ⟨n, hn, hc⟩ := List.mem_flatMap.1 hc
      apply hchars c (List.mem_flatMap.2 ⟨n, hmem n hn, hc⟩)
  obtain ⟨parts, hparts, hjoin⟩ := join_plain
    (by rwa [List.flatten_splitBy]) hruns
  rw [List.flatten_splitBy] at hjoin
  rw [writePlain, splitBy_map, hparts, ← hjoin]
  rfl

end Plain

/-- Plain text of letters and digits is written as itself. -/
theorem writePieces_of_plainText? (htable : settings.table = .builtin)
    (h : plainText? ns = some w) (hw : ∀ c ∈ w, isPlainChar c = true) :
  writePieces settings tm (ns.map (piece settings)) = .ok w
  := by
  obtain ⟨rfl, hplain⟩ := plainText?_eq_some h
  have hgroups : ∀ g ∈ groups ns,
      writeWrapped settings tm (g.map (piece settings)) = .ok (g.flatMap Node.textOf) := by
    intro g hg
    have hmem : ∀ n ∈ g, n ∈ ns := fun n hn => mem_of_mem_groups hg hn
    obtain ⟨n, rest, rfl⟩ := List.exists_cons_of_ne_nil (List.ne_nil_of_mem_splitBy hg)
    obtain ⟨v, hv⟩ := hplain n (hmem n List.mem_cons_self)
    have hbody := @writePlain_of_plain settings tm htable _
      (fun n hn => hplain n (hmem n hn)) fun c hc => by
        obtain ⟨n, hn, hc⟩ := List.mem_flatMap.1 hc
        apply hw c (List.mem_flatMap.2 ⟨n, hmem n hn, hc⟩)
    rw [writeWrapped, List.map_cons]
    simp only [List.head?_cons, Option.map_some, Option.getD_some, piece_outer,
      (exists_text_of_plainText? hv).1, List.any_nil, Bool.or_false]
    rw [← List.map_cons, hbody]
    rfl
  obtain ⟨parts, hparts, hjoin⟩ := join_plain
    (by rwa [groups, List.flatten_splitBy]) hgroups
  rw [groups, List.flatten_splitBy] at hjoin
  simp only [writePieces, splitBy_map, piece_outer]
  rw [← groups, hparts, ← hjoin]
  rfl

end Formula
