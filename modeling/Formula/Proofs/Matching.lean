import Formula.Spelling.CommandTable
import Mathlib.Data.List.TakeWhile
import Mathlib.Tactic.Use

/-!
# Longest match

What a collection of spellings finds at the beginning of a text: the longest spelling that
stands there and ends at a boundary.  A command name is matched as a whole, so that which
command begins a text is known from the letters after the backslash alone.
-/

namespace Formula

/-! ### Tries -/

/-- The beginnings of a text in a trie are listed from the shorter to the longer. -/
theorem Trie.pairwise_beginnings (t : Trie) (text : Text) :
  (t.beginnings text).Pairwise fun p q => p.1.length < q.1.length
  := by
  induction text generalizing t with
  | nil => apply List.Pairwise.nil
  | cons c cs ih =>
    rw [beginnings]
    cases t.child? c with
    | none => apply List.Pairwise.nil
    | some u =>
      apply List.pairwise_append.2
      refine ⟨?_, ?_, ?_⟩
      · split
        · apply List.pairwise_singleton
        · apply List.Pairwise.nil
      · apply List.pairwise_map.2
        apply (ih u).imp
        intro p q h
        simpa using h
      · intro p hp q hq
        obtain ⟨⟨s, r⟩, hs, rfl⟩ := List.mem_map.1 hq
        have hne := ((mem_beginnings_iff u s r cs).1 hs).1
        have := List.length_pos_iff.2 hne
        split at hp
        · obtain rfl := List.mem_singleton.1 hp
          simpa using this
        · cases hp

namespace Spellings

variable {l : List Text} {text sp rest : Text}

/-- The spelling stands at the beginning of the text, and ends at a boundary there. -/
def Stands (sp text rest : Text) : Prop := text = sp ++ rest ∧ boundary sp rest = true

theorem mem_beginnings_ofList :
  (sp, rest) ∈ (ofList l).trie.beginnings text ↔ sp ≠ [] ∧ sp ∈ l ∧ text = sp ++ rest
  := by
  rw [ofList, Trie.mem_beginnings_iff, Trie.contains_ofList]

/-- Nothing is found where no spelling stands. -/
theorem longest?_eq_none_iff :
  (ofList l).longest? text = none ↔ ∀ sp ∈ l, sp ≠ [] → ∀ rest, ¬ Stands sp text rest
  := by
  rw [longest?, List.find?_eq_none]
  constructor
  · intro h sp hsp hne rest hstands
    apply h (sp, rest)
    · apply List.mem_reverse.2
      apply mem_beginnings_ofList.2 ⟨hne, hsp, hstands.1⟩
    · apply hstands.2
  · rintro h ⟨sp, rest⟩ hmem hb
    obtain ⟨hne, hsp, htext⟩ := mem_beginnings_ofList.1 (List.mem_reverse.1 hmem)
    apply h sp hsp hne rest ⟨htext, hb⟩

/-- What is found stands at the beginning of the text, and nothing longer stands there. -/
theorem longest?_eq_some_iff :
  (ofList l).longest? text = some (sp, rest)
    ↔ sp ≠ [] ∧ sp ∈ l ∧ Stands sp text rest
      ∧ ∀ sp' ∈ l, ∀ rest', Stands sp' text rest' → sp'.length ≤ sp.length
  := by
  have hsorted : ((ofList l).trie.beginnings text).reverse.Pairwise
      fun p q => q.1.length < p.1.length := by
    apply List.pairwise_reverse.2 (Trie.pairwise_beginnings _ text)
  constructor
  · intro h
    rw [longest?, List.find?_eq_some_iff_append] at h
    obtain ⟨hb, longer, shorter, hlist, hlonger⟩ := h
    have hmem : (sp, rest) ∈ (ofList l).trie.beginnings text := by
      rw [← List.mem_reverse, hlist]
      simp
    obtain ⟨hne, hsp, htext⟩ := mem_beginnings_ofList.1 hmem
    refine ⟨hne, hsp, ⟨htext, hb⟩, ?_⟩
    rintro sp' hsp' rest' ⟨htext', hb'⟩
    by_cases hnil : sp' = []
    · simp [hnil]
    have hmem' : (sp', rest') ∈ longer ++ (sp, rest) :: shorter := by
      rw [← hlist, List.mem_reverse]
      apply mem_beginnings_ofList.2 ⟨hnil, hsp', htext'⟩
    rcases List.mem_append.1 hmem' with hin | hin
    · have := hlonger _ hin
      simp [hb'] at this
    · rcases List.mem_cons.1 hin with heq | hin
      · cases heq
        apply Nat.le_refl
      · rw [hlist] at hsorted
        have := (List.pairwise_append.1 hsorted).2.1
        apply Nat.le_of_lt ((List.pairwise_cons.1 this).1 _ hin)
  · rintro ⟨hne, hsp, ⟨htext, hb⟩, hmax⟩
    cases hl : (ofList l).longest? text with
    | none => exact absurd ⟨htext, hb⟩ (longest?_eq_none_iff.1 hl sp hsp hne rest)
    | some found =>
      obtain ⟨sp', rest'⟩ := found
      rw [longest?, List.find?_eq_some_iff_append] at hl
      obtain ⟨hb', longer, shorter, hlist, hlonger⟩ := hl
      have hmem' : (sp', rest') ∈ (ofList l).trie.beginnings text := by
        rw [← List.mem_reverse, hlist]
        simp
      obtain ⟨-, hsp', htext'⟩ := mem_beginnings_ofList.1 hmem'
      have hle := hmax sp' hsp' rest' ⟨htext', hb'⟩
      have hmem : (sp, rest) ∈ longer ++ (sp', rest') :: shorter := by
        rw [← hlist, List.mem_reverse]
        apply mem_beginnings_ofList.2 ⟨hne, hsp, htext⟩
      rcases List.mem_append.1 hmem with hin | hin
      · have := hlonger _ hin
        simp [hb] at this
      · rcases List.mem_cons.1 hin with heq | hin
        · rw [heq]
        · rw [hlist] at hsorted
          have := (List.pairwise_cons.1 (List.pairwise_append.1 hsorted).2.1).1 _ hin
          exact absurd hle (Nat.not_le.2 this)

/-- A spelling that stands at the beginning is found when the text does not begin with a
longer one. -/
theorem longest?_append (hne : sp ≠ []) (hmem : sp ∈ l) (hb : boundary sp rest = true)
    (hmax : ∀ sp' ∈ l, sp' <+: sp ++ rest → sp'.length ≤ sp.length) :
  (ofList l).longest? (sp ++ rest) = some (sp, rest)
  := by
  apply longest?_eq_some_iff.2
  refine ⟨hne, hmem, ⟨rfl, hb⟩, ?_⟩
  rintro sp' hsp' rest' ⟨htext, -⟩
  apply hmax sp' hsp'
  use rest'
  apply htext.symm

/-- Nothing is found in a text whose beginning disagrees with every spelling. -/
theorem longest?_append_eq_none {p : Text} (h : ∀ sp ∈ l, ¬ sp <+: p ∧ ¬ p <+: sp) :
  (ofList l).longest? (p ++ rest) = none
  := by
  apply longest?_eq_none_iff.2
  rintro sp hsp - rest' ⟨htext, -⟩
  rcases List.append_eq_append_iff.1 htext with ⟨as, rfl, -⟩ | ⟨as, rfl, -⟩
  · apply (h _ hsp).2
    apply List.prefix_append
  · apply (h _ hsp).1
    apply List.prefix_append

/-! ### Positions -/

theorem length_le_maxLength (h : sp ∈ l) :
  sp.length ≤ (ofList l).maxLength
  := by
  suffices hmax : ∀ n, n ≤ l.foldl (fun n s => max n s.length) n
      ∧ (sp ∈ l → sp.length ≤ l.foldl (fun n s => max n s.length) n) from (hmax 0).2 h
  clear h
  induction l with
  | nil => simp
  | cons s rest ih =>
    intro n
    obtain ⟨hn, hmem⟩ := ih (max n s.length)
    refine ⟨Nat.le_trans (Nat.le_max_left ..) hn, ?_⟩
    intro h
    rcases List.mem_cons.1 h with rfl | h
    · apply Nat.le_trans (Nat.le_max_right ..) hn
    · apply hmem h

/-- The walk through a text is not cut short by the length of the longest spelling. -/
theorem candidates_ofList (l : List Text) (text : Text) :
  (ofList l).candidates text = ((ofList l).trie.beginnings text).map (·.1)
  := by
  suffices h : ∀ (t : Trie) (n : Nat), (∀ sp, t.contains sp = true → sp.length ≤ n) →
      (t.beginnings (text.take n)).map (·.1) = (t.beginnings text).map (·.1) by
    apply h
    intro sp hsp
    apply length_le_maxLength ((Trie.contains_ofList l sp).1 hsp)
  induction text with
  | nil => simp
  | cons c cs ih =>
    intro t n hn
    cases n with
    | zero =>
      have : t.beginnings (c :: cs) = [] := by
        apply List.eq_nil_iff_forall_not_mem.2
        rintro ⟨sp, rest⟩ hmem
        obtain ⟨hne, hsp, -⟩ := (Trie.mem_beginnings_iff ..).1 hmem
        apply hne (List.length_eq_zero_iff.1 (Nat.le_zero.1 (hn sp hsp)))
      rw [this]
      rfl
    | succ n =>
      rw [List.take_succ_cons, Trie.beginnings, Trie.beginnings]
      cases hc : t.child? c with
      | none => rfl
      | some u =>
        have hu : ∀ sp, u.contains sp = true → sp.length ≤ n := by
          intro sp hsp
          apply Nat.le_of_succ_le_succ (hn (c :: sp) _)
          rw [Trie.contains, hc]
          apply hsp
        have := congrArg (List.map (c :: ·)) (ih u n hu)
        simp only [List.map_map] at this
        rw [List.map_append, List.map_append, List.map_map, List.map_map]
        congr 1
        · split <;> rfl

/-- At a position of a text the longest match is that of the text from there on. -/
theorem longestAt_eq (l : List Text) (text : Text) (start : Nat) :
  (ofList l).longestAt text start
    = .ok (((ofList l).longest? (text.drop start)).map (·.1))
  := by
  rw [longestAt]
  split
  · rename_i hzero
    have : (ofList l).longest? (text.drop start) = none := by
      apply longest?_eq_none_iff.2
      intro sp hsp hne
      have := length_le_maxLength hsp
      rw [hzero] at this
      exact absurd (List.length_eq_zero_iff.1 (Nat.le_zero.1 this)) hne
    rw [this]
    rfl
  · change Except.ok _ = _
    rw [candidates_ofList, ← List.map_reverse, List.find?_map, longest?]
    rw [← List.head?_filter, ← List.head?_filter]
    congr 3
    apply List.filter_congr
    rintro ⟨sp, rest⟩ hmem
    obtain ⟨-, -, htext⟩ := mem_beginnings_ofList.1 (List.mem_reverse.1 hmem)
    simp [htext]

/-- The text has the spelling at the position, and no letter comes right after it there if it
ends in a letter. -/
structure StandsAt (sp text : Text) (start : Nat) : Prop where
  here : sp <+: text.drop start
  boundary : ∀ c ∈ sp.getLast?, Text.isLetter c = true →
    ∀ d ∈ text[start + sp.length]?, Text.isLetter d = false

theorem standsAt_iff {start : Nat} :
  StandsAt sp text start ↔ ∃ rest, Stands sp (text.drop start) rest
  := by
  have hnext : ∀ rest, text.drop start = sp ++ rest → text[start + sp.length]? = rest.head? := by
    intro rest h
    rw [← List.getElem?_drop, h, List.getElem?_append_right (Nat.le_refl _), Nat.sub_self,
      List.head?_eq_getElem?]
  have hboundary : ∀ rest : Text, boundary sp rest = true
      ↔ ∀ c ∈ sp.getLast?, Text.isLetter c = true → ∀ d ∈ rest.head?, Text.isLetter d = false := by
    intro rest
    rcases hlast : sp.getLast? with _ | c
    · simp [boundary, hlast]
    · cases rest <;> simp [boundary, hlast, Text.startsWithLetter, or_iff_not_imp_left]
  constructor
  · rintro ⟨⟨rest, h⟩, hb⟩
    refine ⟨rest, h.symm, (hboundary rest).2 ?_⟩
    rw [hnext rest h.symm] at hb
    apply hb
  · rintro ⟨rest, h, hb⟩
    refine ⟨⟨rest, h.symm⟩, ?_⟩
    rw [hnext rest h]
    apply (hboundary rest).1 hb

/-- What is found at a position is the longest spelling that stands there, and nothing is found
exactly where none stands. -/
theorem longestAt_eq_iff (hne : ∀ sp ∈ l, sp ≠ []) (text : Text) (start : Nat) :
  ∃ found, (ofList l).longestAt text start = .ok found
    ∧ (∀ sp, found = some sp
        ↔ sp ∈ l ∧ StandsAt sp text start
          ∧ ∀ sp' ∈ l, StandsAt sp' text start → sp'.length ≤ sp.length)
    ∧ (found = none ↔ ∀ sp ∈ l, ¬ StandsAt sp text start)
  := by
  refine ⟨_, longestAt_eq l text start, ?_, ?_⟩
  · intro sp
    rw [Option.map_eq_some_iff]
    constructor
    · rintro ⟨⟨sp, rest⟩, h, rfl⟩
      obtain ⟨-, hmem, hstands, hmax⟩ := longest?_eq_some_iff.1 h
      refine ⟨hmem, standsAt_iff.2 ⟨rest, hstands⟩, ?_⟩
      intro sp' hmem' hstands'
      obtain ⟨rest', hstands'⟩ := standsAt_iff.1 hstands'
      apply hmax sp' hmem' rest' hstands'
    · rintro ⟨hmem, hstands, hmax⟩
      obtain ⟨rest, hstands⟩ := standsAt_iff.1 hstands
      refine ⟨(sp, rest), longest?_eq_some_iff.2 ⟨hne sp hmem, hmem, hstands, ?_⟩, rfl⟩
      intro sp' hmem' rest' hstands'
      apply hmax sp' hmem' (standsAt_iff.2 ⟨rest', hstands'⟩)
  · rw [Option.map_eq_none_iff, longest?_eq_none_iff]
    constructor
    · intro h sp hmem hstands
      obtain ⟨rest, hstands⟩ := standsAt_iff.1 hstands
      apply h sp hmem (hne sp hmem) rest hstands
    · rintro h sp hmem - rest hstands
      apply h sp hmem (standsAt_iff.2 ⟨rest, hstands⟩)

/-- A letter after the longest spelling leaves a shorter one to be found. -/
theorem longestAt_stopped :
  (∀ sp ∈ ["\\in(x".toList, "\\in".toList, "\\in(".toList], sp ≠ [])
    ∧ ∃ found, (ofList ["\\in(x".toList, "\\in".toList, "\\in(".toList]).longestAt
          "a\\in(xy)".toList 1 = .ok found
      ∧ (∀ sp, found = some sp
          ↔ sp ∈ ["\\in(x".toList, "\\in".toList, "\\in(".toList]
            ∧ StandsAt sp "a\\in(xy)".toList 1
            ∧ ∀ sp' ∈ ["\\in(x".toList, "\\in".toList, "\\in(".toList],
                StandsAt sp' "a\\in(xy)".toList 1 → sp'.length ≤ sp.length)
      ∧ (found = none
          ↔ ∀ sp ∈ ["\\in(x".toList, "\\in".toList, "\\in(".toList],
            ¬ StandsAt sp "a\\in(xy)".toList 1)
  := ⟨by decide, longestAt_eq_iff (by decide) "a\\in(xy)".toList 1⟩

end Spellings

/-! ### Command names -/

namespace Text

/-- The letters after the backslash that a text begins with. -/
def nameOf? : Text → Option Text
  | '\\' :: cs => some (cs.takeWhile isLetter)
  | _ => none

/-- A letter run followed by something that is not a letter ends there. -/
theorem takeWhile_isLetter_append {name rest : Text} (hname : isLetters name = true)
    (hrest : startsWithLetter rest = false) :
  (name ++ rest).takeWhile isLetter = name
  := by
  simp only [isLetters, Bool.and_eq_true, List.all_eq_true] at hname
  rw [List.takeWhile_append_of_pos hname.2]
  cases rest with
  | nil => simp
  | cons c cs =>
    have : isLetter c = false := hrest
    simp [this]

theorem dropWhile_isLetter_append {name rest : Text} (hname : isLetters name = true)
    (hrest : startsWithLetter rest = false) :
  (name ++ rest).dropWhile isLetter = rest
  := by
  simp only [isLetters, Bool.and_eq_true, List.all_eq_true] at hname
  rw [List.dropWhile_append_of_pos hname.2]
  cases rest with
  | nil => simp
  | cons c cs =>
    have : isLetter c = false := hrest
    simp [this]

end Text

namespace Spellings

variable {l : List Text} {name rest : Text}

/-- A spelling that stands where a command stands has the name of the command. -/
theorem nameOf?_of_stands {sp rest' : Text} (hname : Text.isLetters name = true)
    (hrest : Text.startsWithLetter rest = false) (hne : sp ≠ []) (hbare : sp ≠ ['\\'])
    (h : Stands sp ('\\' :: (name ++ rest)) rest') :
  Text.nameOf? sp = some name
  := by
  obtain ⟨htext, hb⟩ := h
  cases sp with
  | nil => contradiction
  | cons c cs =>
    obtain ⟨rfl, htail⟩ := List.cons.inj htext
    change name ++ rest = cs ++ rest' at htail
    rw [Text.nameOf?]
    congr 1
    have hall := Text.takeWhile_isLetter_append hname hrest
    rw [htail] at hall
    rcases hdrop : cs.dropWhile Text.isLetter with _ | ⟨d, ds⟩
    · -- The spelling is a command name; a boundary keeps the name from going on.
      have hletters : ∀ c ∈ cs, Text.isLetter c = true := List.dropWhile_eq_nil_iff.1 hdrop
      cases cs with
      | nil => contradiction
      | cons a as =>
        have hstop : Text.startsWithLetter rest' = false := by
          have hlast := hletters _ (List.getLast_mem (List.cons_ne_nil a as))
          rw [boundary, List.getLast?_cons_cons,
            List.getLast?_eq_some_getLast (List.cons_ne_nil a as), Option.any_some, hlast] at hb
          simpa using hb
        rw [← hall, List.takeWhile_append_of_pos hletters,
          List.takeWhile_eq_self_iff.2 hletters]
        cases rest' with
        | nil => simp
        | cons b bs =>
          have : Text.isLetter b = false := hstop
          simp [this]
    · have hd : Text.isLetter d = false := by
        have := List.head?_dropWhile_not Text.isLetter cs
        rw [hdrop] at this
        exact this
      have hsplit := List.takeWhile_append_dropWhile (p := Text.isLetter) (l := cs)
      have hpos : ∀ c ∈ cs.takeWhile Text.isLetter, Text.isLetter c = true :=
        fun c hc => List.mem_takeWhile_imp hc
      rw [hdrop] at hsplit
      rw [← hall]
      calc cs.takeWhile Text.isLetter
          = (cs.takeWhile Text.isLetter ++ (d :: ds ++ rest')).takeWhile Text.isLetter := by
            rw [List.takeWhile_append_of_pos hpos]
            simp [hd]
        _ = (cs ++ rest').takeWhile Text.isLetter := by rw [← List.append_assoc, hsplit]

/-- A command is not found where no spelling has its name. -/
theorem longest?_name_eq_none (hname : Text.isLetters name = true)
    (hrest : Text.startsWithLetter rest = false)
    (h : ∀ sp ∈ l, sp ≠ ['\\'] ∧ Text.nameOf? sp ≠ some name) :
  (ofList l).longest? ('\\' :: (name ++ rest)) = none
  := by
  apply longest?_eq_none_iff.2
  intro sp hsp hne rest' hstands
  apply (h sp hsp).2 (nameOf?_of_stands hname hrest hne (h sp hsp).1 hstands)

/-- A command is found as a whole where it is the only spelling of its name. -/
theorem longest?_name (hname : Text.isLetters name = true)
    (hrest : Text.startsWithLetter rest = false) (hmem : '\\' :: name ∈ l)
    (h : ∀ sp ∈ l, Text.nameOf? sp = some name → sp = '\\' :: name) :
  (ofList l).longest? ('\\' :: (name ++ rest)) = some ('\\' :: name, rest)
  := by
  apply longest?_eq_some_iff.2
  refine ⟨by simp, hmem, ⟨rfl, by simp [boundary, hrest]⟩, ?_⟩
  intro sp hsp rest' hstands
  by_cases hne : sp = []
  · simp [hne]
  by_cases hbare : sp = ['\\']
  · simp [hbare]
  · rw [h sp hsp (nameOf?_of_stands hname hrest hne hbare hstands)]

end Spellings

namespace CommandTable

variable {α : Type} {t : CommandTable α} {s command rest : Text} {a : α}

theorem spellings_eq_ofList (t : CommandTable α) :
  t.spellings = .ofList t.commands
  := t.spellings_eq

/-- What is found in a table is an entry of it. -/
theorem mem_entries_of_longest? (h : t.longest? s = some (command, a, rest)) :
  (command, a) ∈ t.entries
  := by
  simp only [longest?, Option.bind_eq_bind, Option.pure_def, Option.bind_eq_some_iff,
    Option.some.injEq, Prod.mk.injEq] at h
  obtain ⟨⟨_, _⟩, -, b, hb, rfl, rfl, rfl⟩ := h
  obtain ⟨l₁, l₂, hl, -⟩ := List.lookup_eq_some_iff.1 hb
  rw [hl]
  simp

/-- A match of the spellings of a table with the meaning that the table gives it. -/
theorem longest?_of_spellings (h : t.spellings.longest? s = some (command, rest))
    (ha : t.lookup command = some a) :
  t.longest? s = some (command, a, rest)
  := by
  simp [longest?, h, ha]

theorem longest?_eq_none (h : t.spellings.longest? s = none) :
  t.longest? s = none
  := by
  simp [longest?, h]

end CommandTable

end Formula
