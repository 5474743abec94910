import SheetLedger.Directory
import SheetLedger.Proofs.Text.Numeral
import SheetLedger.Region

/-!
# Codes are exact

A code of a slot is a run of letters and a run of digits that write its column and its row, each
counted from one and each within a word (`Slot.IsCode`). Reading accepts the codes and nothing else
(`Slot.ofCode_eq_ok_iff`): letters are read from the left and given up as soon as a word does not
hold what they spell, which happens exactly if it does not hold the number as a whole
(`Slot.columnNumber?_eq_some_iff`).

Printing spells a column from the right. It is the inverse of reading: what is printed reads back
(`Slot.ofCode_code`) and what is read is printed back, up to zeros in front of the row
(`Slot.IsCode.code_eq`). The same holds for regions, which are two codes joined by a colon.
-/

namespace SheetLedger

open Numeral

namespace Slot

/-! ## Letters -/

/-- The number that letters spell in bijective base 26. -/
def lettersValue (letters : List Char) : Nat := placeValue 26 digit letters

theorem isUpper_iff {c : Char} : c.isUpper = true ↔ 65 ≤ c.toNat ∧ c.toNat ≤ 90 := by
  have hdecide : c.isUpper = true ↔ 'A'.val ≤ c.val ∧ c.val ≤ 'Z'.val := decide_eq_true_iff
  rw [hdecide, UInt32.le_iff_toNat_le, UInt32.le_iff_toNat_le]
  exact Iff.rfl

theorem letter_spec : ∀ d < 26, (letter d).isUpper = true ∧ digit (letter d) = d + 1 := by
  decide

/-- A letter stands for the number before its digit. -/
theorem letter_of_isUpper {c : Char} (h : c.isUpper = true) :
    digit c - 1 < 26 ∧ letter (digit c - 1) = c := by
  rw [isUpper_iff] at h
  have hdigit : digit c = c.toNat - 65 + 1 := rfl
  refine ⟨by omega, ?_⟩
  have hnat : 65 + (digit c - 1) = c.toNat := by omega
  show Char.ofNat (65 + (digit c - 1)) = c
  rw [hnat, Char.ofNat_toNat]

theorem lettersValue_concat (letters : List Char) (c : Char) :
    lettersValue (letters ++ [c]) = 26 * lettersValue letters + digit c :=
  placeValue_concat letters c

/-! ## Reading and printing columns -/

theorem fit?_eq_some_iff {n m : Nat} : fit? n = some m ↔ n = m ∧ n ≤ wordMax := by
  unfold fit?
  by_cases h : n ≤ wordMax <;> simp [h]

/-- What is carried to the left fits if the sum does. -/
theorem appendLetter?_eq_some_iff {value n : Nat} {c : Char} :
    appendLetter? value c = some n ↔ 26 * value + digit c = n ∧ n ≤ wordMax := by
  unfold appendLetter?
  rw [Option.bind_eq_bind, Option.bind_eq_some_iff]
  simp only [fit?_eq_some_iff]
  constructor
  · rintro ⟨_, ⟨rfl, -⟩, rfl, hle⟩
    exact ⟨rfl, hle⟩
  · rintro ⟨rfl, hle⟩
    exact ⟨_, ⟨rfl, by omega⟩, rfl, hle⟩

/-- Reading letters one by one gives up exactly if a word does not hold the number that they
spell. -/
theorem columnNumber?_eq_some_iff {letters : List Char} {n : Nat} :
    columnNumber? letters = some n ↔ lettersValue letters = n ∧ n ≤ wordMax := by
  induction letters using List.reverseRecOn generalizing n with
  | nil =>
    show some 0 = some n ↔ 0 = n ∧ n ≤ wordMax
    rw [Option.some.injEq]
    constructor
    · rintro rfl
      exact ⟨rfl, Nat.zero_le _⟩
    · exact fun h => h.1
  | append_singleton letters c ih =>
    have hstep : columnNumber? (letters ++ [c]) =
        (columnNumber? letters).bind fun value => appendLetter? value c := by
      unfold columnNumber?
      rw [List.foldlM_append]
      simp
    rw [hstep, Option.bind_eq_some_iff, lettersValue_concat]
    simp only [ih, appendLetter?_eq_some_iff]
    constructor
    · rintro ⟨_, ⟨rfl, -⟩, h⟩
      exact h
    · rintro ⟨rfl, hle⟩
      exact ⟨_, ⟨rfl, by omega⟩, rfl, hle⟩

theorem spell_succ (n : Nat) : spell (n + 1) = spell (n / 26) ++ [letter (n % 26)] := by
  rw [spell]
  rfl

theorem spell_ne_nil (n : Nat) : spell (n + 1) ≠ [] := by
  rw [spell_succ]
  simp

/-- A number is spelled in letters, and they spell it. -/
theorem spell_spec (n : Nat) :
    (∀ c ∈ spell n, c.isUpper = true) ∧ lettersValue (spell n) = n := by
  induction n using Nat.strongRecOn with
  | ind n ih =>
    cases n with
    | zero =>
      rw [spell]
      simp [lettersValue]
    | succ n =>
      have hlast := letter_spec (n % 26) (Nat.mod_lt _ (by decide))
      have hrest := ih (n / 26) (by omega)
      rw [spell_succ]
      constructor
      · intro c hc
        rcases List.mem_append.1 hc with hmem | hmem
        · exact hrest.1 c hmem
        · exact List.mem_singleton.1 hmem ▸ hlast.1
      · rw [lettersValue_concat, hrest.2, hlast.2]
        omega

/-- Every number has one spelling: letters are what is printed for the number they spell. -/
theorem spell_lettersValue {letters : List Char} (h : ∀ c ∈ letters, c.isUpper = true) :
    spell (lettersValue letters) = letters := by
  induction letters using List.reverseRecOn with
  | nil =>
    rw [spell]
    rfl
  | append_singleton letters c ih =>
    have hc := letter_of_isUpper (h c (by simp))
    have hletters := ih fun d hd => h d (List.mem_append_left _ hd)
    -- taking one off leaves the digit below 26, so that division tells it from the rest
    have hvalue : 26 * lettersValue letters + digit c =
        (26 * lettersValue letters + (digit c - 1)) + 1 := by
      have hpos : 0 < digit c := Nat.succ_pos _
      omega
    have hdiv : (26 * lettersValue letters + (digit c - 1)) / 26 = lettersValue letters := by
      omega
    have hmod : (26 * lettersValue letters + (digit c - 1)) % 26 = digit c - 1 := by
      omega
    rw [lettersValue_concat, hvalue, spell_succ, hdiv, hmod, hletters, hc.2]

/-! ## Codes -/

/-- A text is letters and digits that write the column and the row of a slot, counted from one and
held by a word. -/
structure Writes (letters digits : List Char) (slot : Slot) : Prop where
  letters_ne : letters ≠ []
  upper : ∀ c ∈ letters, c.isUpper = true
  column_eq : lettersValue letters = slot.column + 1
  column_le : slot.column + 1 ≤ wordMax
  digits_ne : digits ≠ []
  isDigit : ∀ c ∈ digits, c.isDigit = true
  row_eq : decimal digits = slot.row + 1
  row_le : slot.row + 1 ≤ wordMax

/-- A code of a slot. -/
def IsCode (text : String) (slot : Slot) : Prop :=
  ∃ letters digits, text.toList = letters ++ digits ∧ Writes letters digits slot

/-- Where letters end and digits begin. -/
theorem span_isUpper {letters digits : List Char} (hupper : ∀ c ∈ letters, c.isUpper = true)
    (hdigits : ∀ c ∈ digits, c.isDigit = true) :
    (letters ++ digits).takeWhile Char.isUpper = letters ∧
      (letters ++ digits).dropWhile Char.isUpper = digits := by
  have hnone : ∀ c ∈ digits, c.isUpper = false := by
    intro c hc
    have hdigit := isDigit_iff.1 (hdigits c hc)
    rw [← Bool.not_eq_true, isUpper_iff]
    omega
  rw [List.takeWhile_append_of_pos hupper, List.dropWhile_append_of_pos hupper]
  cases digits with
  | nil => simp
  | cons c rest => simp [hnone c List.mem_cons_self]

theorem ofChars?_eq_some_iff {text : List Char} {slot : Slot} :
    ofChars? text = some slot ↔
      columnNumber? (text.takeWhile Char.isUpper) = some (slot.column + 1) ∧
        word? (text.dropWhile Char.isUpper) = some (slot.row + 1) := by
  unfold ofChars?
  constructor
  · intro h
    dsimp only at h
    split at h
    · rename_i column row hcolumn hrow
      cases h
      exact ⟨hcolumn, hrow⟩
    · cases h
  · rintro ⟨hcolumn, hrow⟩
    simp only [hcolumn, hrow]

theorem ofChars?_eq_some_iff_exists {text : List Char} {slot : Slot} :
    ofChars? text = some slot ↔
      ∃ letters digits, text = letters ++ digits ∧ Writes letters digits slot := by
  rw [ofChars?_eq_some_iff, columnNumber?_eq_some_iff, word?_eq_some_iff, isRun_iff]
  constructor
  · rintro ⟨⟨hcolumn, hcolumn'⟩, ⟨hne, hdigits⟩, hrow, hrow'⟩
    refine ⟨_, _, (List.takeWhile_append_dropWhile (p := Char.isUpper)).symm, ?_⟩
    refine ⟨?_, ?_, hcolumn, hcolumn', hne, hdigits, hrow, hrow'⟩
    -- without letters the column, counted from one, would be zero
    · intro hnil
      rw [hnil] at hcolumn
      exact Nat.succ_ne_zero _ hcolumn.symm
    · intro c hc
      exact List.mem_takeWhile_imp hc
  · rintro ⟨letters, digits, rfl, h⟩
    rw [(span_isUpper h.upper h.isDigit).1, (span_isUpper h.upper h.isDigit).2]
    exact ⟨⟨h.column_eq, h.column_le⟩, ⟨h.digits_ne, h.isDigit⟩, h.row_eq, h.row_le⟩

/-- Exactly the codes are read. -/
theorem ofCode_eq_ok_iff {text : String} {slot : Slot} :
    ofCode text = .ok slot ↔ IsCode text slot := by
  rw [IsCode, ← ofChars?_eq_some_iff_exists, ofCode]
  cases ofChars? text.toList <;> simp

/-- Every other text is complained of. -/
theorem ofCode_eq_error {text : String} (h : ∀ slot, ¬ IsCode text slot) :
    ofCode text = .error (.malformedCode text) := by
  cases hcode : ofChars? text.toList with
  | none => simp only [ofCode, hcode]
  | some slot => exact absurd (ofChars?_eq_some_iff_exists.1 hcode) (h slot)

theorem toList_code (slot : Slot) :
    slot.code.toList = spell (slot.column + 1) ++ Nat.toDigits 10 (slot.row + 1) := by
  rw [code, columnLetters, String.toList_append, String.toList_ofList, Nat.toString_eq_repr,
    Nat.toList_repr]

/-- A printed code reads back if both numbers, counted from one, are words. -/
theorem isCode_code {slot : Slot} (hcolumn : slot.column < wordMax) (hrow : slot.row < wordMax) :
    IsCode slot.code slot := by
  refine ⟨_, _, toList_code slot, ?_⟩
  have hspell := spell_spec (slot.column + 1)
  have hrun := isRun_iff.1 (isRun_toDigits (slot.row + 1))
  constructor
  · exact spell_ne_nil slot.column
  · exact hspell.1
  · exact hspell.2
  · exact hcolumn
  · exact hrun.1
  · exact hrun.2
  · exact decimal_toDigits (slot.row + 1)
  · exact hrow

theorem ofCode_code {slot : Slot} (hcolumn : slot.column < wordMax) (hrow : slot.row < wordMax) :
    ofCode slot.code = .ok slot :=
  ofCode_eq_ok_iff.2 (isCode_code hcolumn hrow)

/-- The numbers that a code is read as, counted from one, are words. -/
theorem lt_wordMax_of_ofCode {text : String} {slot : Slot} (h : ofCode text = .ok slot) :
    slot.column < wordMax ∧ slot.row < wordMax := by
  rcases ofCode_eq_ok_iff.1 h with ⟨letters, digits, -, hwrites⟩
  exact ⟨hwrites.column_le, hwrites.row_le⟩

/-- The code of a column that no word counts from one is no code. -/
theorem ofCode_code_of_le {slot : Slot} (hcolumn : wordMax ≤ slot.column) :
    ofCode slot.code = .error (.malformedCode slot.code) := by
  refine ofCode_eq_error ?_
  rintro other ⟨letters, digits, htext, h⟩
  have hspell := spell_spec (slot.column + 1)
  have hrun := isRun_iff.1 (isRun_toDigits (slot.row + 1))
  rw [toList_code] at htext
  -- both ways to split the text end the letters at the first digit
  have hletters : spell (slot.column + 1) = letters := by
    have hprinted := (span_isUpper hspell.1 hrun.2).1
    rw [htext, (span_isUpper h.upper h.isDigit).1] at hprinted
    exact hprinted.symm
  have hvalue := h.column_eq
  have hle := h.column_le
  rw [← hletters, hspell.2] at hvalue
  omega

/-- What is read is printed back without the zeros in front of its row. -/
theorem Writes.code_eq {letters digits : List Char} {slot : Slot} (h : Writes letters digits slot) :
    slot.code = String.ofList (letters ++ digits.dropWhile (· = '0')) := by
  have hpos : 0 < decimal digits := by
    rw [h.row_eq]
    exact Nat.succ_pos _
  refine String.toList_inj.1 ?_
  rw [toList_code, ← h.column_eq, ← h.row_eq, spell_lettersValue h.upper,
    toDigits_decimal h.isDigit hpos, String.toList_ofList]

/-- No colon stands in a code. -/
theorem IsCode.colon_not_mem {text : String} {slot : Slot} (h : IsCode text slot) :
    ':' ∉ text.toList := by
  rcases h with ⟨letters, digits, htext, h⟩
  rw [htext, List.mem_append]
  rintro (hmem | hmem)
  · exact absurd (h.upper _ hmem) (by decide)
  · exact absurd (h.isDigit _ hmem) (by decide)

end Slot

/-! ## Regions -/

namespace Region

theorem halves?_eq_some_iff {text first last : List Char} :
    halves? text = some (first, last) ↔ text = first ++ ':' :: last ∧ ':' ∉ first ∧ ':' ∉ last := by
  unfold halves?
  constructor
  · intro h
    split at h
    · cases h
    · rename_i c rest hrest
      split at h
      · cases h
      · rename_i hmem
        cases h
        -- what the search stops at is a colon
        have hcolon : c = ':' := by
          have hhead := List.head?_dropWhile_not (· ≠ ':') text
          rw [hrest] at hhead
          simpa using hhead
        refine ⟨?_, ?_, hmem⟩
        · rw [← hcolon, ← hrest, hcolon, List.takeWhile_append_dropWhile]
        · intro hfirst
          simpa using List.mem_takeWhile_imp hfirst
  · rintro ⟨rfl, hfirst, hlast⟩
    have hall : ∀ c ∈ first, decide (c ≠ ':') = true := by
      intro c hc
      refine decide_eq_true ?_
      rintro rfl
      exact hfirst hc
    rw [List.dropWhile_append_of_pos hall, List.takeWhile_append_of_pos hall]
    simp [hlast]

/-- Exactly two codes joined by a colon are read. -/
theorem ofText_eq_ok_iff {text : String} {region : Region} :
    ofText text = .ok region ↔ ∃ first last, text = first ++ ":" ++ last ∧
      Slot.ofCode first = .ok region.first ∧ Slot.ofCode last = .ok region.last := by
  constructor
  · intro h
    unfold ofText at h
    cases hhalves : halves? text.toList with
    | none => simp [hhalves] at h
    | some halves =>
      rcases halves with ⟨first, last⟩
      rcases halves?_eq_some_iff.1 hhalves with ⟨htext, -, -⟩
      cases hfirst : Slot.ofCode (String.ofList first) with
      | error cause => simp [hhalves, hfirst, bind, Except.bind] at h
      | ok start =>
        cases hlast : Slot.ofCode (String.ofList last) with
        | error cause => simp [hhalves, hfirst, hlast, bind, Except.bind] at h
        | ok stop =>
          have hregion : (⟨start, stop⟩ : Region) = region := by
            simpa [hhalves, hfirst, hlast, bind, Except.bind, pure, Except.pure] using h
          refine ⟨String.ofList first, String.ofList last, String.toList_inj.1 ?_, ?_, ?_⟩
          · simpa using htext
          · rw [hfirst, ← hregion]
          · rw [hlast, ← hregion]
  · rintro ⟨first, last, rfl, hfirst, hlast⟩
    have hhalves : halves? (first ++ ":" ++ last).toList = some (first.toList, last.toList) := by
      refine halves?_eq_some_iff.2 ⟨by simp, ?_, ?_⟩
      · exact (Slot.ofCode_eq_ok_iff.1 hfirst).colon_not_mem
      · exact (Slot.ofCode_eq_ok_iff.1 hlast).colon_not_mem
    rw [ofText, hhalves]
    simp only [String.ofList_toList, hfirst, hlast, bind, Except.bind, pure, Except.pure]

/-- The corners of a region are slots whose codes read back. -/
def Codable (region : Region) : Prop :=
  (region.first.column < wordMax ∧ region.first.row < wordMax) ∧
    region.last.column < wordMax ∧ region.last.row < wordMax

theorem ofText_text {region : Region} (h : region.Codable) : ofText region.text = .ok region := by
  rcases h with ⟨⟨hcolumn, hrow⟩, hcolumn', hrow'⟩
  exact ofText_eq_ok_iff.2
    ⟨_, _, rfl, Slot.ofCode_code hcolumn hrow, Slot.ofCode_code hcolumn' hrow'⟩

end Region

/-- A slot inside dimensions that words hold can be printed and read back; the row, counted from
one, is a word too. -/
theorem Spreadsheet.ofCode_code_of_check {sheet : Spreadsheet} {slot : Slot}
    (hrows : sheet.rows ≤ wordMax) (hcolumns : sheet.columns ≤ wordMax)
    (h : sheet.check slot = .ok ()) :
    slot.row + 1 ≤ wordMax ∧ Slot.ofCode slot.code = .ok slot := by
  rcases Spreadsheet.check_eq_ok_iff.1 h with ⟨hrow, hcolumn⟩
  exact ⟨Nat.le_trans hrow hrows,
    Slot.ofCode_code (Nat.lt_of_lt_of_le hcolumn hcolumns) (Nat.lt_of_lt_of_le hrow hrows)⟩

/-! ## The codec as a whole -/

/-- Codes are read exactly, and printing and reading are inverse to each other. -/
theorem codec_exact :
    (∀ text slot, Slot.ofCode text = .ok slot ↔ Slot.IsCode text slot) ∧
    (∀ text, (∀ slot, ¬ Slot.IsCode text slot) →
      Slot.ofCode text = .error (.malformedCode text)) ∧
    (∀ slot : Slot, slot.row < wordMax →
      (slot.column < wordMax → Slot.ofCode slot.code = .ok slot) ∧
      (slot.column = wordMax → Slot.ofCode slot.code = .error (.malformedCode slot.code))) ∧
    (∀ (sheet : Spreadsheet) slot, sheet.rows ≤ wordMax → sheet.columns ≤ wordMax →
      sheet.check slot = .ok () →
        slot.row + 1 ≤ wordMax ∧ Slot.ofCode slot.code = .ok slot) ∧
    (∀ text slot, Slot.ofCode text = .ok slot →
      ∃ letters digits, text = String.ofList (letters ++ digits) ∧
        Slot.Writes letters digits slot ∧
        slot.code = String.ofList (letters ++ digits.dropWhile (· = '0'))) ∧
    (∀ region : Region, region.Codable → Region.ofText region.text = .ok region) ∧
    (∀ text region, Region.ofText text = .ok region ↔
      ∃ first last, text = first ++ ":" ++ last ∧
        Slot.ofCode first = .ok region.first ∧ Slot.ofCode last = .ok region.last) := by
  refine ⟨fun _ _ => Slot.ofCode_eq_ok_iff, fun _ => Slot.ofCode_eq_error, ?_, ?_, ?_,
    fun _ => Region.ofText_text, fun _ _ => Region.ofText_eq_ok_iff⟩
  · intro slot hrow
    exact ⟨fun hcolumn => Slot.ofCode_code hcolumn hrow,
      fun hcolumn => Slot.ofCode_code_of_le (Nat.le_of_eq hcolumn.symm)⟩
  · intro sheet slot hrows hcolumns hcheck
    exact Spreadsheet.ofCode_code_of_check hrows hcolumns hcheck
  · intro text slot h
    rcases Slot.ofCode_eq_ok_iff.1 h with ⟨letters, digits, htext, hwrites⟩
    refine ⟨letters, digits, ?_, hwrites, hwrites.code_eq⟩
    rw [← htext, String.ofList_toList]

theorem codec_exact_edges :
    Slot.ofCode (Slot.code ⟨wordMax - 1, wordMax - 1⟩) = .ok ⟨wordMax - 1, wordMax - 1⟩ ∧
      Slot.ofCode (Slot.code ⟨wordMax, 0⟩) = .error (.malformedCode (Slot.code ⟨wordMax, 0⟩)) ∧
      Region.ofText (Region.text ⟨⟨wordMax - 1, 0⟩, ⟨0, wordMax - 1⟩⟩) =
        .ok ⟨⟨wordMax - 1, 0⟩, ⟨0, wordMax - 1⟩⟩ := by
  rcases codec_exact with ⟨-, -, hcode, -, -, hregion, -⟩
  refine ⟨?_, ?_, ?_⟩
  · exact (hcode _ (by decide)).1 (by decide)
  · exact (hcode ⟨wordMax, 0⟩ (by decide)).2 rfl
  · apply hregion
    constructor <;> decide

end SheetLedger
