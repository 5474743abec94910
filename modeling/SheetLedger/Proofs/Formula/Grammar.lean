import SheetLedger.Formula.Dependents
import SheetLedger.Proofs.Codec
import SheetLedger.Proofs.Token.Phrases

/-!
# The texts that read other cells

A text reads another cell if it is a reference or an aggregate, and the texts that are have a small
grammar:

* a reference is `=`, blanks and pluses, the code of a slot, and blanks (`Formula.Names`); the code
  may also stand at the end in quotes that are not closed (`Formula.Quotes`);
* an aggregate is `=`, blanks and pluses, its name and an opening parenthesis, blanks and pluses,
  two codes joined by a colon, blanks, a closing parenthesis or brace, and blanks
  (`Formula.Covers`).

The classifier accepts these texts and a few more. A quote at the end of a formula opens a text with
nothing in it, and such a text is dropped as if it were not there, while `""`, which is closed, is
an operand. So a reference or an aggregate is still read as one when a quote stands behind it
(`Formula.Trailed`, `Formula.target?_eq_ok_iff`, `Formula.region?_eq_ok_iff`), and these are the
only texts at which the grammar does not say what is read (`Formula.classify_grammar`).
-/

namespace SheetLedger

open Lexeme

namespace Decimal

/-! ## Codes are no numbers -/

variable {c d : Char} {rest : List Char}

theorem isDigit_of_isUpper (hc : c.isUpper = true) : c.isDigit = false := by
  rw [Slot.isUpper_iff] at hc
  rw [← Bool.not_eq_true, Numeral.isDigit_iff]
  omega

theorem toLower_of_isDigit (hd : d.isDigit = true) : d.toLower = d := by
  rw [Numeral.isDigit_iff] at hd
  refine dif_neg ?_
  rintro ⟨hle, -⟩
  have hle' : 65 ≤ d.toNat := UInt32.le_iff_toNat_le.1 hle
  omega

theorem splitSign_of_isUpper (hc : c.isUpper = true) :
    splitSign (c :: rest) = (false, c :: rest) := by
  unfold splitSign
  split
  · rename_i heq
    cases heq
    cases hc
  · rename_i heq
    cases heq
    cases hc
  · rfl

/-- Neither a digit nor a point can be a letter, so none is in front. -/
theorem unsigned?_of_isUpper (hc : c.isUpper = true) (negative : Bool) :
    unsigned? negative (c :: rest) = none := by
  have hletter := isDigit_of_isUpper hc
  have htake : (c :: rest).takeWhile Char.isDigit = [] := by
    simp [hletter]
  have hdrop : (c :: rest).dropWhile Char.isDigit = c :: rest := by
    simp [hletter]
  unfold unsigned?
  rw [htake, hdrop]
  dsimp only
  split
  · rename_i heq
    cases heq
    cases hc
  · rfl

/-- A text with a digit is no word of letters, whatever their case. -/
theorem ne_of_mem_isDigit {text : String} (hd : d ∈ text.toList) (hdigit : d.isDigit = true)
    (other : String) (h : other.toList.any Char.isDigit = false) : text ≠ other := by
  rintro rfl
  rw [List.any_eq_false] at h
  exact h d hd hdigit

/-- A text that starts with a letter and holds a digit is no number. -/
theorem read?_eq_none (hc : c.isUpper = true) (hd : d ∈ c :: rest) (hdigit : d.isDigit = true) :
    read? (c :: rest) = none := by
  have hlower : d ∈ (String.ofList ((c :: rest).map Char.toLower)).toList := by
    rw [String.toList_ofList]
    exact List.mem_map.2 ⟨d, hd, toLower_of_isDigit hdigit⟩
  have hinf := ne_of_mem_isDigit hlower hdigit "inf" (by decide)
  have hinfinity := ne_of_mem_isDigit hlower hdigit "infinity" (by decide)
  have hnan := ne_of_mem_isDigit hlower hdigit "nan" (by decide)
  unfold read?
  simp only [splitSign_of_isUpper hc, hinf, hinfinity, hnan, or_self, if_false,
    unsigned?_of_isUpper hc]

end Decimal

namespace Lexeme

/-! ## Codes are bare words -/

theorem isBare_append {a b : String} : IsBare (a ++ b) ↔ IsBare a ∧ IsBare b := by
  simp only [IsBare, String.toList_append, List.mem_append, or_imp, forall_and]

/-- A bare word that starts with a letter and holds a digit, as codes and regions do. -/
structure NamesRange (text : String) : Prop where
  bare : IsBare text
  letter : ∃ c rest, text.toList = c :: rest ∧ c.isUpper = true
  digit : ∃ d ∈ text.toList, d.isDigit = true

theorem NamesRange.ne_empty {text : String} (h : NamesRange text) : text ≠ "" := by
  rintro rfl
  rcases h.letter with ⟨c, rest, hnil, -⟩
  cases hnil

theorem NamesRange.classify_eq {text : String} (h : NamesRange text) :
    classify text = .range := by
  rcases h.letter with ⟨c, rest, htext, hc⟩
  rcases h.digit with ⟨d, hd, hdigit⟩
  have hlogical := Decimal.ne_of_mem_isDigit hd hdigit "TRUE" (by decide)
  have hlogical' := Decimal.ne_of_mem_isDigit hd hdigit "FALSE" (by decide)
  rw [htext] at hd
  have hnumber := Decimal.read?_eq_none hc hd hdigit
  rw [← htext] at hnumber
  simp [classify, hlogical, hlogical', hnumber]

theorem namesRange_of_ofCode {code : String} {slot : Slot} (h : Slot.ofCode code = .ok slot) :
    NamesRange code := by
  rcases Slot.ofCode_eq_ok_iff.1 h with ⟨letters, digits, htext, hwrites⟩
  constructor
  · intro e he
    rw [htext, List.mem_append] at he
    unfold isBareChar
    rcases he with hletter | hdigit
    · rw [hwrites.upper e hletter]
      rfl
    · rw [hwrites.isDigit e hdigit, Bool.or_true]
      rfl
  · rcases List.exists_cons_of_ne_nil hwrites.letters_ne with ⟨c, more, hletters⟩
    refine ⟨c, more ++ digits, ?_, hwrites.upper c ?_⟩
    · rw [htext, hletters]
      rfl
    · rw [hletters]
      exact List.mem_cons_self
  · rcases List.exists_mem_of_ne_nil digits hwrites.digits_ne with ⟨d, hd⟩
    refine ⟨d, ?_, hwrites.isDigit d hd⟩
    rw [htext]
    exact List.mem_append_right _ hd

theorem namesRange_of_ofText {text : String} {region : Region}
    (h : Region.ofText text = .ok region) : NamesRange text := by
  rcases Region.ofText_eq_ok_iff.1 h with ⟨first, last, rfl, hfirst, hlast⟩
  have hcode := namesRange_of_ofCode hfirst
  rcases hcode.letter with ⟨c, rest, htext, hc⟩
  rcases hcode.digit with ⟨d, hd, hdigit⟩
  have hcolon : IsBare ":" := by decide
  refine ⟨?_, ⟨c, rest ++ ':' :: last.toList, by simp [htext], hc⟩, d, by simp [hd], hdigit⟩
  rw [isBare_append, isBare_append]
  exact ⟨⟨hcode.bare, hcolon⟩, (namesRange_of_ofCode hlast).bare⟩

end Lexeme

namespace Formula

/-! ## The grammar -/

/-- A reference to a slot: `=`, blanks and pluses, the code of the slot, and blanks. -/
def Names (raw : String) (slot : Slot) : Prop :=
  ∃ front code back, IsFiller front ∧ IsSpace back ∧ Slot.ofCode code = .ok slot ∧
    raw = "=" ++ front ++ code ++ back

/-- A reference whose code stands in quotes that are not closed. -/
def Quotes (raw : String) (slot : Slot) : Prop :=
  ∃ front code, IsFiller front ∧ Slot.ofCode code = .ok slot ∧ raw = "=" ++ front ++ "\"" ++ code

/-- An aggregate over a region: `=`, blanks and pluses, the name and an opening parenthesis, blanks
and pluses, the codes of both corners joined by a colon, blanks, a closing parenthesis or brace, and
blanks. -/
def Covers (raw : String) (operation : Aggregate) (region : Region) : Prop :=
  ∃ front middle first last back c rest, IsFiller front ∧ IsFiller middle ∧ IsSpace back ∧
    IsSpace rest ∧ (c = ')' ∨ c = '\x7d') ∧
    Slot.ofCode first = .ok region.first ∧ Slot.ofCode last = .ok region.last ∧
    raw = "=" ++ front ++ operation.name ++ "(" ++ middle ++ first ++ ":" ++ last ++ back ++
      String.singleton c ++ rest

/-- A text of some kind with one more quote behind it. -/
def Trailed (kind : String → Prop) (raw : String) : Prop := ∃ text, kind text ∧ raw = text ++ "\""

/-! ## What the classifier accepts -/

variable {raw : String} {slot : Slot} {operation : Aggregate} {region : Region}

theorem ofName?_eq_some_iff {name : String} :
    Aggregate.ofName? name = some operation ↔ name = operation.name := by
  unfold Aggregate.ofName?
  cases operation with
  | sum => by_cases h : name = "SUM" <;> simp [h, Aggregate.name]
  | average => by_cases h : name = "AVERAGE" <;> simp [h, Aggregate.name]

theorem ofTokens?_eq_reference_iff {tokens : List Token} {code : String} :
    ofTokens? tokens = some (.reference code) ↔ tokens = [.operand .range code] := by
  unfold ofTokens?
  split
  · simp
  · simp
  · rename_i hother _
    simp only [reduceCtorEq, false_iff]
    rintro rfl
    exact hother code rfl

theorem ofTokens?_eq_aggregate_iff {tokens : List Token} {text : String} :
    ofTokens? tokens = some (.aggregate operation text) ↔
      tokens = [.callStart operation.name, .operand .range text, .stop .call] := by
  unfold ofTokens?
  split
  · simp
  · simp [ofName?_eq_some_iff]
  · rename_i hother
    simp only [reduceCtorEq, false_iff]
    rintro rfl
    exact hother operation.name text rfl

/-- A shape that is read from tokens is read from those behind the `=`. -/
theorem classify_eq_iff {shape : Formula} (hliteral : ∀ text, shape ≠ .literal text)
    (hunrecognized : ∀ text, shape ≠ .unrecognized text) :
    classify raw = shape ↔ ∃ text, raw.toList = '=' :: text ∧
      ofTokens? (settleAll none (scan {} text)) = some shape := by
  unfold classify
  cases hraw : raw.toList with
  | nil => simpa using (hliteral raw).symm
  | cons c text =>
    by_cases hc : c = '='
    · subst hc
      have htokens : Token.ofText raw = settleAll none (scan {} text) := by
        rw [Token.ofText, hraw]
        rfl
      rw [List.head?_cons, if_pos rfl, htokens]
      simp only [List.cons.injEq, true_and, exists_eq_left']
      cases ofTokens? (settleAll none (scan {} text)) with
      | none => simpa using (hunrecognized raw).symm
      | some found => simp
    · rw [List.head?_cons, if_neg (by simpa using hc)]
      simp [hc, (hliteral raw).symm]

theorem classify_eq_reference_iff {code : String} (h : NamesRange code) :
    classify raw = .reference code ↔ ∃ text, raw.toList = '=' :: text ∧
      ∃ front, IsFiller front ∧
        (text = front.toList ++ '"' :: code.toList ∨
          ∃ back, IsSpace back ∧ (text = front.toList ++ (code.toList ++ back.toList) ∨
            text = front.toList ++ (code.toList ++ (back.toList ++ ['"'])))) := by
  rw [classify_eq_iff (by simp) (by simp)]
  refine exists_congr fun text => and_congr_right fun _ => ?_
  rw [ofTokens?_eq_reference_iff,
    settleAll_eq_operand_iff fun lexeme hmem => not_isRange_of_mem_scan hmem,
    ← @exists_word_iff [] text code h.ne_empty h.bare]
  constructor
  · rintro ⟨fill, gap, hscan, hfill, hgap, -⟩
    exact ⟨fill, gap, hfill, hgap, (scan_eq_iff (bare_word hfill hgap h.bare)).1 hscan⟩
  · rintro ⟨fill, gap, hfill, hgap, hspelled⟩
    exact ⟨fill, gap, (scan_eq_iff (bare_word hfill hgap h.bare)).2 hspelled, hfill, hgap,
      h.classify_eq⟩

theorem name_spec (operation : Aggregate) :
    operation.name ≠ "" ∧ operation.name ≠ "ARRAY" ∧ IsBare operation.name := by
  cases operation <;> decide

theorem classify_eq_aggregate_iff {range : String} (h : NamesRange range) :
    classify raw = .aggregate operation range ↔ ∃ text, raw.toList = '=' :: text ∧
      ∃ front middle back last c, IsFiller front ∧ IsFiller middle ∧ IsSpace back ∧
        IsSpace last ∧ (c = ')' ∨ c = '\x7d') ∧
        ∃ tail, (tail = last.toList ∨ tail = last.toList ++ ['"']) ∧
          text = front.toList ++ (operation.name.toList ++ '(' :: (middle.toList ++
            (range.toList ++ (back.toList ++ c :: tail)))) := by
  rcases name_spec operation with ⟨hname, harray, hbareName⟩
  rw [classify_eq_iff (by simp) (by simp)]
  refine exists_congr fun text => and_congr_right fun _ => ?_
  rw [ofTokens?_eq_aggregate_iff,
    settleAll_eq_call_iff fun lexeme hmem => not_isRange_of_mem_scan hmem,
    ← exists_call_iff hname harray hbareName h.ne_empty h.bare]
  constructor
  · rintro ⟨fill, inner, gap, rest, hscan, hfill, hinner, hgap, hrest, -⟩
    have hbare := bare_call hfill hinner hgap hrest hbareName harray h.bare
    exact ⟨fill, inner, gap, rest, hfill, hinner, hgap, hrest, (scan_eq_iff hbare).1 hscan⟩
  · rintro ⟨fill, inner, gap, rest, hfill, hinner, hgap, hrest, hspelled⟩
    have hbare := bare_call hfill hinner hgap hrest hbareName harray h.bare
    exact ⟨fill, inner, gap, rest, (scan_eq_iff hbare).2 hspelled, hfill, hinner, hgap, hrest,
      h.classify_eq⟩

theorem target?_eq_ok_iff_exists {formula : Formula} :
    formula.target? = some (.ok slot) ↔
      ∃ code, formula = .reference code ∧ Slot.ofCode code = .ok slot := by
  cases formula <;> simp [target?]

theorem region?_eq_ok_iff_exists {formula : Formula} :
    (∃ range, formula = .aggregate operation range) ∧ formula.region? = some (.ok region) ↔
      ∃ range, formula = .aggregate operation range ∧ Region.ofText range = .ok region := by
  constructor
  · rintro ⟨⟨range, rfl⟩, hregion⟩
    exact ⟨range, rfl, Option.some.inj hregion⟩
  · rintro ⟨range, rfl, hregion⟩
    exact ⟨⟨range, rfl⟩, congrArg some hregion⟩

/-- The texts that are read as references to a slot. -/
theorem target?_eq_ok_iff :
    (classify raw).target? = some (.ok slot) ↔
      (Names raw slot ∨ Quotes raw slot) ∨ Trailed (Names · slot) raw := by
  rw [target?_eq_ok_iff_exists]
  constructor
  · rintro ⟨code, hclassify, hcode⟩
    rcases (classify_eq_reference_iff (namesRange_of_ofCode hcode)).1 hclassify with
      ⟨text, hraw, front, hfront, rfl | ⟨back, hback, rfl | rfl⟩⟩
    · refine Or.inl (Or.inr ⟨front, code, hfront, hcode, String.toList_inj.1 ?_⟩)
      simp [hraw]
    · refine Or.inl (Or.inl ⟨front, code, back, hfront, hback, hcode, String.toList_inj.1 ?_⟩)
      simp [hraw]
    · refine Or.inr ⟨_, ⟨front, code, back, hfront, hback, hcode, rfl⟩, String.toList_inj.1 ?_⟩
      simp [hraw]
  · have hreference : ∀ {code : String}, Slot.ofCode code = .ok slot → ∀ front, IsFiller front →
        ∀ text, raw.toList = '=' :: text →
        (text = front.toList ++ '"' :: code.toList ∨
          ∃ back, IsSpace back ∧ (text = front.toList ++ (code.toList ++ back.toList) ∨
            text = front.toList ++ (code.toList ++ (back.toList ++ ['"'])))) →
        ∃ code, classify raw = .reference code ∧ Slot.ofCode code = .ok slot := by
      intro code hcode front hfront text hraw htext
      exact ⟨code, (classify_eq_reference_iff (namesRange_of_ofCode hcode)).2
        ⟨text, hraw, front, hfront, htext⟩, hcode⟩
    rintro ((⟨front, code, back, hfront, hback, hcode, rfl⟩ | ⟨front, code, hfront, hcode, rfl⟩) |
      ⟨_, ⟨front, code, back, hfront, hback, hcode, rfl⟩, rfl⟩)
    · exact hreference hcode front hfront _ (by simp) (Or.inr ⟨back, hback, Or.inl rfl⟩)
    · exact hreference hcode front hfront _ (by simp) (Or.inl rfl)
    · exact hreference hcode front hfront _ (by simp) (Or.inr ⟨back, hback, Or.inr rfl⟩)

/-- The texts that are read as aggregates over a region. -/
theorem region?_eq_ok_iff :
    (∃ range, classify raw = .aggregate operation range) ∧
        (classify raw).region? = some (.ok region) ↔
      Covers raw operation region ∨ Trailed (Covers · operation region) raw := by
  rw [region?_eq_ok_iff_exists]
  constructor
  · rintro ⟨range, hclassify, hrange⟩
    rcases (classify_eq_aggregate_iff (namesRange_of_ofText hrange)).1 hclassify with
      ⟨text, hraw, front, middle, back, last, c, hfront, hmiddle, hback, hlast, hc, tail, htail,
        rfl⟩
    rcases Region.ofText_eq_ok_iff.1 hrange with ⟨start, stop, rfl, hstart, hstop⟩
    have hcovers : Covers _ operation region :=
      ⟨front, middle, start, stop, back, c, last, hfront, hmiddle, hback, hlast, hc, hstart, hstop,
        rfl⟩
    rcases htail with rfl | rfl
    · refine Or.inl ?_
      convert hcovers using 1
      exact String.toList_inj.1 (by simp [hraw])
    · exact Or.inr ⟨_, hcovers, String.toList_inj.1 (by simp [hraw])⟩
  · have haggregate : ∀ text, Covers text operation region → ∀ quote,
        (quote = "" ∨ quote = "\"") → raw = text ++ quote →
        ∃ range, classify raw = .aggregate operation range ∧ Region.ofText range = .ok region := by
      rintro text ⟨front, middle, start, stop, back, c, last, hfront, hmiddle, hback, hlast, hc,
        hstart, hstop, rfl⟩ quote hquote rfl
      have hrange : Region.ofText (start ++ ":" ++ stop) = .ok region :=
        Region.ofText_eq_ok_iff.2 ⟨start, stop, rfl, hstart, hstop⟩
      have htail : last.toList ++ quote.toList = last.toList ∨
          last.toList ++ quote.toList = last.toList ++ ['"'] := by
        rcases hquote with rfl | rfl
        · exact Or.inl (List.append_nil _)
        · exact Or.inr rfl
      refine ⟨_, (classify_eq_aggregate_iff (namesRange_of_ofText hrange)).2 ?_, hrange⟩
      refine ⟨_, ?_, front, middle, back, last, c, hfront, hmiddle, hback, hlast, hc, _, htail, rfl⟩
      simp
    rintro (hcovers | ⟨text, hcovers, rfl⟩)
    · exact haggregate raw hcovers "" (Or.inl rfl) (by simp)
    · exact haggregate text hcovers "\"" (Or.inr rfl) rfl

/-- A text reads a slot if it is read as a reference to it or as an aggregate over a region around
it. -/
theorem dependsOn_iff {formula : Formula} :
    formula.dependsOn slot = true ↔ formula.target? = some (.ok slot) ∨
      ∃ operation region, ((∃ range, formula = .aggregate operation range) ∧
        formula.region? = some (.ok region)) ∧ region.contains slot = true := by
  cases formula with
  | literal raw => simp [dependsOn, target?]
  | unrecognized raw => simp [dependsOn, target?]
  | reference code => cases hcode : Slot.ofCode code <;> simp [dependsOn, target?, hcode]
  | aggregate operation range =>
    cases hrange : Region.ofText range <;> simp [dependsOn, target?, region?, hrange]

/-! ## Where the grammar is exact -/

/-- The grammar says what is read of a text. -/
structure Exact (raw : String) : Prop where
  target_iff : ∀ slot,
    (classify raw).target? = some (.ok slot) ↔ Names raw slot ∨ Quotes raw slot
  region_iff : ∀ operation region, (∃ range, classify raw = .aggregate operation range) ∧
    (classify raw).region? = some (.ok region) ↔ Covers raw operation region
  reads_iff : ∀ slot, (classify raw).dependsOn slot = true ↔
    (Names raw slot ∨ Quotes raw slot) ∨
      ∃ operation region, Covers raw operation region ∧ region.contains slot = true

/-! ### Quotes -/

theorem quote_not_mem_of_isFiller {text : String} (h : IsFiller text) : '"' ∉ text.toList := by
  intro hmem
  rcases h _ hmem with hblank | hplus
  · exact absurd hblank (by decide)
  · exact absurd hplus (by decide)

theorem quote_not_mem_of_isSpace {text : String} (h : IsSpace text) : '"' ∉ text.toList :=
  quote_not_mem_of_isFiller fun c hc => Or.inl (h c hc)

theorem quote_not_mem_of_isBare {text : String} (h : IsBare text) : '"' ∉ text.toList := by
  intro hmem
  exact absurd (h _ hmem) (by decide)

/-- No quote stands in a reference outside of quotes. -/
theorem Names.quote_not_mem (h : Names raw slot) : '"' ∉ raw.toList := by
  rcases h with ⟨front, code, back, hfront, hback, hcode, rfl⟩
  have hbare := quote_not_mem_of_isBare (namesRange_of_ofCode hcode).bare
  simp [quote_not_mem_of_isFiller hfront, quote_not_mem_of_isSpace hback, hbare]

/-- No quote stands in an aggregate. -/
theorem Covers.quote_not_mem (h : Covers raw operation region) : '"' ∉ raw.toList := by
  rcases h with ⟨front, middle, first, last, back, c, rest, hfront, hmiddle, hback, hrest, hc,
    hfirst, hlast, rfl⟩
  have hname := quote_not_mem_of_isBare (name_spec operation).2.2
  have hbare := quote_not_mem_of_isBare (namesRange_of_ofCode hfirst).bare
  have hbare' := quote_not_mem_of_isBare (namesRange_of_ofCode hlast).bare
  have hclosing : '"' ≠ c := by
    rcases hc with rfl | rfl <;> decide
  simp [quote_not_mem_of_isFiller hfront, quote_not_mem_of_isFiller hmiddle,
    quote_not_mem_of_isSpace hback, quote_not_mem_of_isSpace hrest, hname, hbare, hbare', hclosing]

theorem Trailed.quote_mem {kind : String → Prop} (h : Trailed kind raw) : '"' ∈ raw.toList := by
  rcases h with ⟨text, -, rfl⟩
  simp

/-- A reference in quotes that are not closed ends with its code. -/
theorem Quotes.not_trailed {kind : String → Prop} (h : Quotes raw slot) : ¬ Trailed kind raw := by
  rcases h with ⟨front, code, -, hcode, rfl⟩
  rintro ⟨text, -, heq⟩
  have hrange := namesRange_of_ofCode hcode
  rcases hrange.letter with ⟨c, rest, hletters, -⟩
  have hlast := congrArg (fun whole : String => whole.toList.getLast?) heq
  simp only [String.toList_append, List.getLast?_append] at hlast
  have hsome : code.toList.getLast? = some (code.toList.getLast (by simp [hletters])) :=
    List.getLast?_eq_some_getLast _
  rw [hsome] at hlast
  have hquote : code.toList.getLast (by simp [hletters]) = '"' := by simpa using hlast
  exact quote_not_mem_of_isBare hrange.bare (hquote ▸ List.getLast_mem _)

/-- What is read of every text, and where the grammar does not say so: at the references and
aggregates with a quote behind them. -/
theorem classify_grammar (raw : String) :
    (∀ slot, (classify raw).target? = some (.ok slot) ↔
      (Names raw slot ∨ Quotes raw slot) ∨ Trailed (Names · slot) raw) ∧
    (∀ operation region, (∃ range, classify raw = .aggregate operation range) ∧
        (classify raw).region? = some (.ok region) ↔
      Covers raw operation region ∨ Trailed (Covers · operation region) raw) ∧
    (∀ slot, (classify raw).dependsOn slot = true ↔
      ((Names raw slot ∨ Quotes raw slot) ∨ Trailed (Names · slot) raw) ∨
        ∃ operation region,
          (Covers raw operation region ∨ Trailed (Covers · operation region) raw) ∧
            region.contains slot = true) ∧
    (Exact raw ↔ (∀ slot, ¬ Trailed (Names · slot) raw) ∧
      ∀ operation region, ¬ Trailed (Covers · operation region) raw) := by
  have hreads : ∀ slot, (classify raw).dependsOn slot = true ↔
      ((Names raw slot ∨ Quotes raw slot) ∨ Trailed (Names · slot) raw) ∨
        ∃ operation region,
          (Covers raw operation region ∨ Trailed (Covers · operation region) raw) ∧
            region.contains slot = true := by
    intro slot
    simp only [dependsOn_iff, target?_eq_ok_iff, region?_eq_ok_iff]
  refine ⟨fun _ => target?_eq_ok_iff, fun _ _ => region?_eq_ok_iff, hreads, ?_⟩
  constructor
  · intro h
    constructor
    · intro slot htrailed
      rcases (h.target_iff slot).1 (target?_eq_ok_iff.2 (Or.inr htrailed)) with hnames | hquotes
      · exact hnames.quote_not_mem htrailed.quote_mem
      · exact hquotes.not_trailed htrailed
    · intro operation region htrailed
      have hcovers :=
        (h.region_iff operation region).1 (region?_eq_ok_iff.2 (Or.inr htrailed))
      exact hcovers.quote_not_mem htrailed.quote_mem
  · rintro ⟨hnames, hcovers⟩
    constructor
    · intro slot
      rw [target?_eq_ok_iff, or_iff_left (hnames slot)]
    · intro operation region
      rw [region?_eq_ok_iff, or_iff_left (hcovers operation region)]
    · intro slot
      rw [hreads]
      simp only [hnames, hcovers, or_false]

/-- The grammar is not exact: the quote is dropped, and the slot is read. -/
theorem not_exact_quote : ¬ Exact "=A1\"" := by
  intro h
  have htarget : (classify "=A1\"").target? = some (.ok ⟨0, 0⟩) := by decide
  rcases (h.target_iff ⟨0, 0⟩).1 htarget with hnames | hquotes
  · exact hnames.quote_not_mem (by decide)
  · have htrailed : Trailed (fun _ => True) "=A1\"" := ⟨"=A1", trivial, by decide⟩
    exact hquotes.not_trailed htrailed

end Formula

end SheetLedger
