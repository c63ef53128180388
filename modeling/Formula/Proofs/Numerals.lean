import Formula.Proofs.Characters

/-!
# Written numerals

The numeral of a positive number has no leading zero, and is read as that number; a text of
digits without a leading zero is the numeral of the number that it is read as.
-/

namespace Formula.Numeral

variable {s : Text} {c : Char}

/-- Whether the text is the numeral of a positive number: digits without a leading zero. -/
def isPlain : Text → Bool
  | [] => false
  | c :: cs => c.isDigit && c != '0' && cs.all Char.isDigit

theorem digitValue?_of_isDigit (h : c.isDigit = true) :
  Text.digitValue? c = some (c.toNat - 48)
  := by
  obtain ⟨hlow, hhigh⟩ := Text.toNat_of_isDigit h
  rw [Text.digitValue?, Text.decimalZeros, List.find?_cons_of_pos]
  · rfl
  · simp only [Bool.and_eq_true, decide_eq_true_eq]
    omega

/-- A text of digits is a digit text of any kind. -/
theorem isDigitChar_of_isDigit (h : c.isDigit = true) :
  Text.isDigitChar c = true
  := by
  rw [Text.isDigitChar, digitValue?_of_isDigit h]
  rfl

theorem all_isDigit_of_isPlain (h : isPlain s = true) :
  s ≠ [] ∧ ∀ c ∈ s, c.isDigit = true
  := by
  cases s with
  | nil => contradiction
  | cons c cs =>
    simp only [isPlain, Bool.and_eq_true, List.all_eq_true] at h
    refine ⟨List.cons_ne_nil _ _, ?_⟩
    intro d hd
    rcases List.mem_cons.1 hd with rfl | hd
    · apply h.1.1
    · apply h.2 d hd

theorem leadingDigits_eq (h : ∀ c ∈ s, c.isDigit = true) :
  leadingDigits s = s.map fun c => c.toNat - 48
  := by
  have hvalues : s.map Text.digitValue? = (s.map fun c => c.toNat - 48).map some := by
    rw [List.map_map]
    apply List.map_congr_left
    intro c hc
    apply digitValue?_of_isDigit (h c hc)
  have hall : ∀ l : List Nat, (l.map some).takeWhile Option.isSome = l.map some := by
    intro l
    induction l with
    | nil => rfl
    | cons n l ih => rw [List.map_cons, List.takeWhile_cons_of_pos rfl, ih]
  rw [leadingDigits, hvalues, hall, List.filterMap_map]
  simp

/-- A text of digits is read as the number that they write, unless there are too many. -/
theorem read_digits (hne : s ≠ []) (h : ∀ c ∈ s, c.isDigit = true) :
  read s = if maxDigits < s.length then .error (.tooLong s.length)
    else .ok (Nat.ofDigitChars 10 s 0)
  := by
  have hvalue : ofDigits (s.map fun c => c.toNat - 48) = Nat.ofDigitChars 10 s 0 := by
    rw [ofDigits, List.foldl_map, Nat.ofDigitChars_eq_foldl]
    rfl
  rw [read, leadingDigits_eq h]
  simp [hne, hvalue]

theorem write_natCast (n : Nat) :
  write n = Nat.toDigits 10 n
  := by
  rw [write]
  exact Nat.toList_repr

/-- The numeral of a positive number has no leading zero. -/
theorem isPlain_toDigits {n : Nat} (h : 0 < n) :
  isPlain (Nat.toDigits 10 n) = true
  := by
  induction n using Nat.base_induction 10 (by decide) with
  | single m hm =>
    rw [Nat.toDigits_of_lt_base hm]
    revert m
    decide
  | digit m k hk hm ih =>
    rw [← Nat.toDigits_append_toDigits (by decide) hm hk]
    have hplain := ih hm
    have hdigits : ∀ c ∈ Nat.toDigits 10 k, c.isDigit = true :=
      fun c hc => Nat.isDigit_of_mem_toDigits (by decide) (by decide) hc
    cases hm : Nat.toDigits 10 m with
    | nil => simp at hm
    | cons c cs =>
      rw [hm] at hplain
      simp only [isPlain, Bool.and_eq_true, List.all_eq_true, List.cons_append,
        List.mem_append] at hplain ⊢
      refine ⟨hplain.1, ?_⟩
      rintro d (hd | hd)
      · apply hplain.2 d hd
      · apply hdigits d hd

theorem digitChar_of_isDigit (h : c.isDigit = true) :
  Nat.digitChar (c.toNat - 48) = c
  := by
  obtain ⟨hlow, hhigh⟩ := Text.toNat_of_isDigit h
  have hall : ∀ n < 10, (Nat.digitChar n).toNat = n + 48 := by decide
  apply Char.ext
  apply UInt32.toNat.inj
  have := hall (c.toNat - 48) (by omega)
  change (Nat.digitChar (c.toNat - 48)).toNat = c.toNat
  omega

/-- Digits behind the numeral of a positive number make a greater numeral. -/
theorem toDigits_append {n : Nat} (hn : 0 < n) (h : ∀ c ∈ s, c.isDigit = true) :
  n ≤ Nat.ofDigitChars 10 s n ∧ Nat.toDigits 10 (Nat.ofDigitChars 10 s n) = Nat.toDigits 10 n ++ s
  := by
  induction s generalizing n with
  | nil => simp
  | cons c cs ih =>
    have hc := h c List.mem_cons_self
    obtain ⟨hlow, hhigh⟩ := Text.toNat_of_isDigit hc
    obtain ⟨hle, hdigits⟩ := ih (n := 10 * n + (c.toNat - 48)) (by omega)
      fun c hc => h c (List.mem_cons_of_mem _ hc)
    rw [Nat.ofDigitChars_cons]
    change n ≤ Nat.ofDigitChars 10 cs (10 * n + (c.toNat - 48)) ∧ Nat.toDigits 10
      (Nat.ofDigitChars 10 cs (10 * n + (c.toNat - 48))) = _
    refine ⟨by omega, ?_⟩
    rw [hdigits, ← Nat.toDigits_append_toDigits (by decide) hn (by omega),
      Nat.toDigits_of_lt_base (n := c.toNat - 48) (by omega), digitChar_of_isDigit hc,
      List.append_assoc, List.singleton_append]

/-- A text of digits without a leading zero is the numeral of the number that it writes. -/
theorem toDigits_ofDigitChars (h : isPlain s = true) :
  0 < Nat.ofDigitChars 10 s 0 ∧ Nat.toDigits 10 (Nat.ofDigitChars 10 s 0) = s
  := by
  cases s with
  | nil => contradiction
  | cons c cs =>
    simp only [isPlain, Bool.and_eq_true, bne_iff_ne, List.all_eq_true] at h
    obtain ⟨⟨hc, hzero⟩, hcs⟩ := h
    obtain ⟨hlow, hhigh⟩ := Text.toNat_of_isDigit hc
    have hpos : 0 < c.toNat - 48 := by
      have hne : c.toNat ≠ 48 := by
        intro heq
        apply hzero
        rw [← digitChar_of_isDigit hc, heq]
        rfl
      omega
    obtain ⟨hle, hdigits⟩ := toDigits_append hpos hcs
    rw [Nat.ofDigitChars_cons]
    change 0 < Nat.ofDigitChars 10 cs (10 * 0 + (c.toNat - 48)) ∧ Nat.toDigits 10
      (Nat.ofDigitChars 10 cs (10 * 0 + (c.toNat - 48))) = _
    rw [Nat.mul_zero, Nat.zero_add]
    refine ⟨by omega, ?_⟩
    rw [hdigits, Nat.toDigits_of_lt_base (by omega), digitChar_of_isDigit hc,
      List.singleton_append]

/-- A numeral that has few enough digits is that of a number that may be written. -/
theorem isWritable_ofDigitChars (hplain : isPlain s = true) (hlength : s.length ≤ maxDigits) :
  isWritable (Nat.ofDigitChars 10 s 0 : Nat) = true
  := by
  rw [isWritable, decide_eq_true_eq, Int.natAbs_natCast, write_natCast,
    (toDigits_ofDigitChars hplain).2]
  exact hlength

/-- The numeral of a positive number that may be written is read as the number. -/
theorem read_write {n : Int} (hn : 1 ≤ n) (h : isWritable n = true) :
  isPlain (write n) = true ∧ read (write n) = .ok n.toNat
  := by
  obtain ⟨k, rfl⟩ := Int.eq_ofNat_of_zero_le (by omega : 0 ≤ n)
  rw [isWritable, decide_eq_true_eq, Int.natAbs_natCast, write_natCast] at h
  rw [write_natCast]
  have hplain := isPlain_toDigits (n := k) (by omega)
  obtain ⟨hne, hdigits⟩ := all_isDigit_of_isPlain hplain
  refine ⟨hplain, ?_⟩
  rw [read_digits hne hdigits, if_neg (by omega), Nat.ofDigitChars_ten_toDigits]
  rfl

end Formula.Numeral
