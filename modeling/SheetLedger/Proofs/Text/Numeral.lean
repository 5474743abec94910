import Mathlib.Data.List.Induction
import Mathlib.Data.List.TakeWhile
import Mathlib.Data.Nat.Digits.Defs
import SheetLedger.Text.Numeral

/-!
# The numbers that numerals write

A numeral is read from the left, one digit after another. What it writes is a sum over the places of
its digits (`Numeral.placeValue`), the last of which counts ones. Printing a number and reading the
text back gives the number again, and printing what a run of digits writes gives the run without its
leading zeros (`Numeral.toDigits_decimal`).
-/

namespace SheetLedger.Numeral

/-! ## Place values -/

/-- The number that characters write whose last one counts ones. -/
def placeValue (base : Nat) (digit : Char → Nat) (text : List Char) : Nat :=
  Nat.ofDigits base (text.map digit).reverse

/-- The number that decimal digits write. -/
def decimal (digits : List Char) : Nat :=
  placeValue 10 (fun c => c.toNat - '0'.toNat) digits

section PlaceValue

variable {base : Nat} {digit : Char → Nat}

@[simp] theorem placeValue_nil : placeValue base digit [] = 0 := rfl

/-- One more character on the right carries the others one place to the left. -/
theorem placeValue_concat (text : List Char) (c : Char) :
    placeValue base digit (text ++ [c]) = base * placeValue base digit text + digit c := by
  rw [placeValue, List.map_append, List.reverse_append]
  show Nat.ofDigits base (digit c :: (text.map digit).reverse) = _
  rw [Nat.ofDigits_cons, placeValue, Nat.add_comm]

end PlaceValue

theorem decimal_eq_ofDigitChars (digits : List Char) :
    Nat.ofDigitChars 10 digits 0 = decimal digits := by
  induction digits using List.reverseRecOn with
  | nil => rfl
  | append_singleton digits c ih =>
    rw [Nat.ofDigitChars_append, ih, Nat.ofDigitChars_cons, Nat.ofDigitChars_nil, decimal, decimal,
      placeValue_concat]

/-! ## Runs of digits -/

theorem isDigit_iff {c : Char} : c.isDigit = true ↔ 48 ≤ c.toNat ∧ c.toNat ≤ 57 := by
  simp [Char.isDigit, UInt32.le_iff_toNat_le]

theorem isRun_iff {digits : List Char} :
    isRun digits = true ↔ digits ≠ [] ∧ ∀ c ∈ digits, c.isDigit = true := by
  simp [isRun]

theorem natural?_eq_some_iff {digits : List Char} {n : Nat} :
    natural? digits = some n ↔ isRun digits = true ∧ decimal digits = n := by
  unfold natural?
  by_cases h : isRun digits = true
  · simp [h, decimal_eq_ofDigitChars]
  · simp [h]

theorem word?_eq_some_iff {digits : List Char} {n : Nat} :
    word? digits = some n ↔ isRun digits = true ∧ decimal digits = n ∧ n ≤ wordMax := by
  rw [word?, Option.filter_eq_some_iff, natural?_eq_some_iff, decide_eq_true_eq, and_assoc]

theorem unsigned?_of_isRun {digits : List Char} (h : isRun digits = true) :
    unsigned? digits = word? digits := by
  unfold unsigned?
  split
  · exact absurd ((isRun_iff.1 h).2 '+' List.mem_cons_self) (by decide)
  · rfl

theorem le_wordMax_of_unsigned? {text : List Char} {n : Nat} (h : unsigned? text = some n) :
    n ≤ wordMax := by
  unfold unsigned? at h
  split at h
  · exact (word?_eq_some_iff.1 h).2.2
  · exact (word?_eq_some_iff.1 h).2.2

/-! ## Printing and reading back -/

theorem isRun_toDigits (n : Nat) : isRun (Nat.toDigits 10 n) = true := by
  refine isRun_iff.2 ⟨Nat.toDigits_ne_nil, ?_⟩
  intro c hc
  exact Nat.isDigit_of_mem_toDigits (by decide) (by decide) hc

theorem decimal_toDigits (n : Nat) : decimal (Nat.toDigits 10 n) = n := by
  rw [← decimal_eq_ofDigitChars, Nat.ofDigitChars_ten_toDigits]

/-- The text of a word reads back. -/
theorem unsigned?_toDigits {n : Nat} (h : n ≤ wordMax) :
    unsigned? (Nat.toDigits 10 n) = some n := by
  rw [unsigned?_of_isRun (isRun_toDigits n), word?_eq_some_iff]
  exact ⟨isRun_toDigits n, decimal_toDigits n, h⟩

theorem digitChar_of_isDigit {c : Char} (h : c.isDigit = true) :
    (c.toNat - '0'.toNat) < 10 ∧ Nat.digitChar (c.toNat - '0'.toNat) = c := by
  rw [isDigit_iff] at h
  have hlt : c.toNat - '0'.toNat < 10 := by
    show c.toNat - 48 < 10
    omega
  refine ⟨hlt, Char.toNat_inj.1 ?_⟩
  rw [Nat.toNat_digitChar_of_lt_ten hlt]
  show 48 + (c.toNat - 48) = c.toNat
  omega

theorem decimal_eq_zero_iff {digits : List Char} (h : ∀ c ∈ digits, c.isDigit = true) :
    decimal digits = 0 ↔ ∀ c ∈ digits, c = '0' := by
  induction digits using List.reverseRecOn with
  | nil => simp [decimal]
  | append_singleton digits c ih =>
    have hc := digitChar_of_isDigit (h c (by simp))
    have hzero : c.toNat - '0'.toNat = 0 ↔ c = '0' := by
      constructor
      · intro h0
        rw [← hc.2, h0]
        rfl
      · rintro rfl
        rfl
    have hrest := ih fun d hd => h d (List.mem_append_left _ hd)
    rw [decimal, placeValue_concat, ← decimal, Nat.add_eq_zero_iff, hzero, Nat.mul_eq_zero, hrest]
    simp [or_imp, forall_and]

/-- A run of digits for a positive number is printed back without its leading zeros. -/
theorem toDigits_decimal {digits : List Char} (h : ∀ c ∈ digits, c.isDigit = true)
    (hpos : 0 < decimal digits) :
    Nat.toDigits 10 (decimal digits) = digits.dropWhile (· = '0') := by
  induction digits using List.reverseRecOn with
  | nil => exact absurd hpos (Nat.lt_irrefl 0)
  | append_singleton digits c ih =>
    have hc := digitChar_of_isDigit (h c (by simp))
    have hdigits : ∀ d ∈ digits, d.isDigit = true := by
      intro d hd
      exact h d (List.mem_append_left _ hd)
    rw [decimal, placeValue_concat, ← decimal] at hpos ⊢
    by_cases hzero : decimal digits = 0
    -- nothing but zeros in front: the last digit alone is printed
    · have hall := (decimal_eq_zero_iff hdigits).1 hzero
      have hne : c ≠ '0' := by
        rintro rfl
        rw [hzero] at hpos
        exact absurd hpos (by decide)
      have hdrop : digits.dropWhile (· = '0') = [] := by
        rw [List.dropWhile_eq_nil_iff]
        intro d hd
        exact decide_eq_true (hall d hd)
      rw [hzero, Nat.mul_zero, Nat.zero_add, Nat.toDigits_of_lt_base hc.1, hc.2,
        List.dropWhile_append, hdrop]
      simp [hne]
    · have hposd : 0 < decimal digits := Nat.pos_of_ne_zero hzero
      have hdrop : (digits.dropWhile (· = '0')).isEmpty = false := by
        rw [← ih hdigits hposd, List.isEmpty_eq_false_iff]
        exact Nat.toDigits_ne_nil
      rw [← Nat.toDigits_append_toDigits (by decide) hposd hc.1, ih hdigits hposd,
        Nat.toDigits_of_lt_base hc.1, hc.2, List.dropWhile_append, hdrop]
      rfl

end SheetLedger.Numeral
