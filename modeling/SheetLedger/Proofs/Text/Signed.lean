import SheetLedger.Proofs.Text.Numeral

/-!
# Signed numerals

A text *denotes* a whole number if it is a run of digits, perhaps with a sign in front
(`Numeral.Denotes`): leading zeros, a plus and a negated zero are allowed. The texts that a sum adds
up are those that denote a number of 64 bits (`Numeral.signed?_eq_some_iff`). What a sum prints is
the one shortest text of its number (`Numeral.canonical_toString`), so it is read back as that
number, the lowest one included (`Numeral.signed?_ofSigned`).
-/

namespace SheetLedger.Numeral

variable {text digits other : List Char} {k : Nat} {n : Int}

/-! ## What a text denotes -/

/-- The number that a text writes with digits and an optional sign. -/
inductive Denotes : List Char → Int → Prop where
  | unsigned {digits : List Char} : isRun digits = true → Denotes digits (decimal digits)
  | plus {digits : List Char} : isRun digits = true → Denotes ('+' :: digits) (decimal digits)
  | minus {digits : List Char} : isRun digits = true → Denotes ('-' :: digits) (-decimal digits)

theorem not_isRun_cons {c : Char} (h : c.isDigit = false) : ¬ isRun (c :: digits) = true := by
  intro hrun
  rw [(isRun_iff.1 hrun).2 c List.mem_cons_self] at h
  cases h

theorem denotes_plus_iff :
    Denotes ('+' :: digits) n ↔ isRun digits = true ∧ (decimal digits : Int) = n := by
  constructor
  · intro h
    cases h with
    | unsigned hrun => exact absurd hrun (not_isRun_cons (by decide))
    | plus hrun => exact ⟨hrun, rfl⟩
  · rintro ⟨hrun, rfl⟩
    exact .plus hrun

theorem denotes_minus_iff :
    Denotes ('-' :: digits) n ↔ isRun digits = true ∧ -(decimal digits : Int) = n := by
  constructor
  · intro h
    cases h with
    | unsigned hrun => exact absurd hrun (not_isRun_cons (by decide))
    | minus hrun => exact ⟨hrun, rfl⟩
  · rintro ⟨hrun, rfl⟩
    exact .minus hrun

theorem denotes_iff_of_unsigned (hminus : ∀ rest, text ≠ '-' :: rest)
    (hplus : ∀ rest, text ≠ '+' :: rest) :
    Denotes text n ↔ isRun text = true ∧ (decimal text : Int) = n := by
  constructor
  · intro h
    cases h with
    | unsigned hrun => exact ⟨hrun, rfl⟩
    | plus => exact absurd rfl (hplus _)
    | minus => exact absurd rfl (hminus _)
  · rintro ⟨hrun, rfl⟩
    exact .unsigned hrun

/-! ## Numbers of 64 bits -/

/-- A number without a minus fits if it is one of 64 bits. -/
theorem fit_eq_some_iff {m : Int64} : signed?.fit k = some m ↔ (k : Int) = m.toInt := by
  have hlimit : (1 <<< 63 : Nat) = 2 ^ 63 := rfl
  unfold signed?.fit
  rw [hlimit]
  constructor
  · intro h
    by_cases hk : k < 2 ^ 63
    · rw [if_pos hk] at h
      rw [← Option.some.inj h, Int64.toInt_ofNat_of_lt hk]
    · rw [if_neg hk] at h
      cases h
  · intro h
    have hlt := Int64.toInt_lt m
    have hk : k < 2 ^ 63 := by omega
    rw [if_pos hk, Option.some.injEq, ← Int64.toInt_inj, Int64.toInt_ofNat_of_lt hk, h]

/-- So does one with a minus, and the lowest number has no other text. -/
theorem negated_eq_some_iff {m : Int64} :
    (if k ≤ 1 <<< 63 then some (Int64.ofInt (-k)) else none) = some m ↔
      -(k : Int) = m.toInt := by
  have hlimit : (1 <<< 63 : Nat) = 2 ^ 63 := rfl
  have hlow := Int64.le_toInt m
  rw [hlimit]
  constructor
  · intro h
    by_cases hk : k ≤ 2 ^ 63
    · rw [if_pos hk] at h
      rw [← Option.some.inj h, Int64.toInt_ofInt_of_le (by omega) (by omega)]
    · rw [if_neg hk] at h
      cases h
  · intro h
    have hk : k ≤ 2 ^ 63 := by omega
    rw [if_pos hk, h, Int64.ofInt_toInt]

/-- A text is read as a signed number exactly if it denotes that number. -/
theorem signed?_eq_some_iff {m : Int64} : signed? text = some m ↔ Denotes text m.toInt := by
  unfold signed?
  split
  · rename_i digits
    simp only [denotes_minus_iff, Option.bind_eq_some_iff, natural?_eq_some_iff,
      negated_eq_some_iff, and_assoc, exists_and_left, exists_eq_left']
  · rename_i digits
    simp only [denotes_plus_iff, Option.bind_eq_some_iff, natural?_eq_some_iff, fit_eq_some_iff,
      and_assoc, exists_and_left, exists_eq_left']
  · rename_i digits hminus hplus
    rw [denotes_iff_of_unsigned hminus hplus]
    simp only [Option.bind_eq_some_iff, natural?_eq_some_iff, fit_eq_some_iff, and_assoc,
      exists_and_left, exists_eq_left']

/-! ## Printing -/

theorem toList_toString_natCast (k : Nat) : (toString (k : Int)).toList = Nat.toDigits 10 k :=
  Nat.toList_repr

theorem toList_toString_neg (h : k ≠ 0) :
    (toString (-(k : Int))).toList = '-' :: Nat.toDigits 10 k := by
  obtain ⟨m, rfl⟩ := Nat.exists_eq_succ_of_ne_zero h
  show ("-" ++ (m + 1).repr).toList = _
  rw [String.toList_append, Nat.toList_repr]
  rfl

/-- A text of a number than which every other text of it is longer. -/
structure IsCanonical (text : List Char) (n : Int) : Prop where
  denotes : Denotes text n
  shortest : ∀ other, Denotes other n → other = text ∨ text.length < other.length

/-- A run of digits is what its number is printed as, or it has a zero too much. -/
theorem eq_or_length_lt_of_isRun (h : isRun digits = true) :
    digits = Nat.toDigits 10 (decimal digits) ∨
      (Nat.toDigits 10 (decimal digits)).length < digits.length := by
  rcases isRun_iff.1 h with ⟨hne, hdigits⟩
  rcases Nat.eq_zero_or_pos (decimal digits) with hzero | hpos
  · have hall := (decimal_eq_zero_iff hdigits).1 hzero
    rw [hzero]
    cases digits with
    | nil => exact absurd rfl hne
    | cons c rest =>
      cases rest with
      | nil => exact Or.inl (congrArg (· :: []) (hall c List.mem_cons_self))
      | cons d rest => exact Or.inr (Nat.succ_lt_succ (Nat.succ_pos _))
  · rw [toDigits_decimal hdigits hpos]
    have hsuffix : digits.dropWhile (· = '0') <:+ digits := List.dropWhile_suffix _
    rcases Nat.eq_or_lt_of_le hsuffix.length_le with heq | hlt
    · exact Or.inl (hsuffix.eq_of_length heq).symm
    · exact Or.inr hlt

theorem denotes_toString (n : Int) : Denotes (toString n).toList n := by
  have hdigits : ∀ k : Nat, isRun (Nat.toDigits 10 k) = true ∧ decimal (Nat.toDigits 10 k) = k :=
    fun k => ⟨isRun_toDigits k, decimal_toDigits k⟩
  rcases Int.le_total 0 n with hsign | hsign
  · obtain ⟨k, rfl⟩ := Int.eq_ofNat_of_zero_le hsign
    have h := Denotes.unsigned (hdigits k).1
    rw [(hdigits k).2] at h
    rw [toList_toString_natCast]
    exact h
  · obtain ⟨k, rfl⟩ := Int.exists_eq_neg_ofNat hsign
    rcases Nat.eq_zero_or_pos k with rfl | hpos
    · have hzero : isRun ['0'] = true := by decide
      exact Denotes.unsigned hzero
    · rw [toList_toString_neg (Nat.ne_of_gt hpos)]
      exact denotes_minus_iff.2 ⟨(hdigits k).1, by rw [(hdigits k).2]⟩

/-- Numbers are printed in their shortest form. -/
theorem canonical_toString (n : Int) : IsCanonical (toString n).toList n := by
  refine ⟨denotes_toString n, fun other hother => ?_⟩
  cases hother with
  | unsigned hrun =>
    rw [toList_toString_natCast]
    exact eq_or_length_lt_of_isRun hrun
  | @plus digits hrun =>
    -- without the plus it is a text that is no shorter than the printed one
    rw [toList_toString_natCast]
    refine Or.inr (Nat.lt_succ_of_le ?_)
    rcases eq_or_length_lt_of_isRun hrun with heq | hlt
    · exact Nat.le_of_eq (congrArg List.length heq).symm
    · exact Nat.le_of_lt hlt
  | @minus digits hrun =>
    rcases Nat.eq_zero_or_pos (decimal digits) with hzero | hpos
    -- a zero is printed without a minus
    · rw [hzero]
      have hlength : 0 < digits.length := List.length_pos_iff.2 (isRun_iff.1 hrun).1
      exact Or.inr (Nat.succ_lt_succ hlength)
    · rw [toList_toString_neg (Nat.ne_of_gt hpos)]
      rcases eq_or_length_lt_of_isRun hrun with heq | hlt
      · exact Or.inl (congrArg _ heq)
      · exact Or.inr (Nat.succ_lt_succ hlt)

/-- A signed number is read back from its text. -/
theorem signed?_ofSigned (m : Int64) : signed? (ofSigned m).toList = some m :=
  signed?_eq_some_iff.2 (denotes_toString m.toInt)

theorem ofSigned_inj {a b : Int64} : ofSigned a = ofSigned b ↔ a = b := by
  refine ⟨fun h => ?_, congrArg _⟩
  have hread := signed?_ofSigned a
  rw [h, signed?_ofSigned] at hread
  exact (Option.some.inj hread).symm

end SheetLedger.Numeral
