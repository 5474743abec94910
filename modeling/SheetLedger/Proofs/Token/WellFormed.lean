import SheetLedger.Token.Stream

/-!
# Well-formed token streams

Whatever text is split, each token of the stream stands where it may (`Token.wellFormed_ofText`).

* Read from the left with a stack of the brackets that are open, a stop closes the innermost one,
  nothing is stray while one is open, and a comma divides arguments exactly inside a call
  (`Token.FitsIn`).
* Intersections and signs have the neighbours that they are made from (`Token.StandsBetween`).

The first reading keeps the stack, and it leaves all lexemes whose neighbours matter to the second
one (`Token.Bracketed`, step by step in `Lexeme.Scan.Tracks`). The second reading looks at the token
that it kept last and at the lexeme that comes next. It drops neither brackets nor commas, and a
lexeme that starts a value becomes a token that does (`Lexeme.reads_settleAll`).
-/

namespace SheetLedger

namespace Token

/-! ## Brackets around a token -/

/-- The kinds of the brackets that are open behind a token, the innermost first. -/
def openAfter (opened : List Kind) (token : Token) : List Kind :=
  match token.role with
  | .start => token.kind :: opened
  | .stop => opened.tail
  | _ => opened

/-- The kinds of the brackets that are open behind some tokens, read from the left. -/
def openBehind (tokens : List Token) : List Kind := tokens.foldl openAfter []

/-- What a token asks of the brackets that are open before it. A comma that is no operand is an
argument's inside a call and a union elsewhere. -/
structure FitsIn (opened : List Kind) (token : Token) : Prop where
  stop : token.role = .stop → opened.head? = some token.kind
  unknown : token.kind = .unknown → opened = []
  comma : token.text = "," → token.kind ≠ .operand →
    if opened.head? = some .function then token.kind = .argument else token.role = .union

variable {opened : List Kind} {token : Token} {tokens more : List Token} {before : Option Token}

/-- A token that closes nothing, is not stray and is no comma fits everywhere. -/
theorem fitsIn_of_ne (hstop : token.role ≠ .stop) (hunknown : token.kind ≠ .unknown)
    (hcomma : token.kind = .operand ∨ token.text ≠ ",") : FitsIn opened token where
  stop h := absurd h hstop
  unknown h := absurd h hunknown
  comma htext hkind := absurd htext (hcomma.resolve_left hkind)

/-! ## Neighbours of a token -/

/-- A token that an operator may follow: an operand, a stop or a percent sign. -/
def EndsOperand (token : Token) : Prop :=
  token.kind = .operand ∨ token.role = .stop ∨ token.kind = .postfixOperator

/-- What a token asks of the tokens right before it and right after it. -/
structure StandsBetween (before : Option Token) (token : Token) (after : Option Token) :
    Prop where
  intersection : token.role = .intersection →
    (∃ left ∈ before, left.kind = .operand ∨ left.role = .stop) ∧
      ∃ right ∈ after, right.kind = .operand ∨ right.role = .start
  sign : token.kind = .infixOperator → token.text = "+" ∨ token.text = "-" →
    ∃ left ∈ before, left.EndsOperand
  negation : token.kind = .prefixOperator → token.text = "-" ∧ ∀ left ∈ before, ¬ left.EndsOperand

/-- A token that asks nothing of its neighbours. -/
structure StandsAlone (token : Token) : Prop where
  intersection : token.role ≠ .intersection
  sign : token.kind = .infixOperator → token.text ≠ "+" ∧ token.text ≠ "-"
  negation : token.kind ≠ .prefixOperator

theorem StandsAlone.standsBetween (h : token.StandsAlone) (before after : Option Token) :
    token.StandsBetween before after where
  intersection hrole := absurd hrole h.intersection
  sign hkind htext := absurd htext (not_or.2 (h.sign hkind))
  negation hkind := absurd hkind h.negation

theorem role_operand_ne (kind : OperandKind) (text : String) :
    (operand kind text).role ≠ .nothing ∧ (operand kind text).role ≠ .start ∧
      (operand kind text).role ≠ .stop ∧ (operand kind text).role ≠ .intersection := by
  cases kind <;> simp [role, roleOfOperand]

theorem role_operator_ne (op : Operator) :
    (operator op).role ≠ .start ∧ (operator op).role ≠ .stop := by
  cases op <;> decide

/-- Operators and what negates a value are the tokens that look at their neighbours. -/
theorem standsAlone_of_ne (hrole : token.role ≠ .intersection)
    (hoperator : token.kind ≠ .infixOperator) (hnegation : token.kind ≠ .prefixOperator) :
    token.StandsAlone where
  intersection := hrole
  sign hkind := absurd hkind hoperator
  negation := hnegation

theorem openAfter_operand (kind : OperandKind) (text : String) :
    openAfter opened (operand kind text) = opened := by
  cases kind <;> rfl

theorem openAfter_operator (op : Operator) : openAfter opened (operator op) = opened := by
  cases op <;> rfl

theorem fitsIn_operand (kind : OperandKind) (text : String) : (operand kind text).FitsIn opened :=
  fitsIn_of_ne (role_operand_ne kind text).2.2.1 (by simp [Token.kind]) (Or.inl rfl)

theorem fitsIn_operator {op : Operator} (h : op.text ≠ ",") : (operator op).FitsIn opened :=
  fitsIn_of_ne (role_operator_ne op).2 (by simp [Token.kind]) (Or.inr h)

theorem standsAlone_operand (kind : OperandKind) (text : String) :
    (operand kind text).StandsAlone :=
  standsAlone_of_ne (role_operand_ne kind text).2.2.2 (by simp [Token.kind]) (by simp [Token.kind])

theorem endsValue_iff : token.endsValue = true ↔ token.kind = .operand ∨ token.role = .stop := by
  cases token with
  | operand sort text => simp [endsValue, kind]
  | stop bracket => simp [endsValue, role]
  | operator op => simp [endsValue, kind, role_operator_ne op]
  | callStart | groupStart | argument | negation | percent | stray => simp [endsValue, kind, role]

theorem eq_percent_iff : token.kind = .postfixOperator ↔ token = percent := by
  cases token with
  | stop bracket => cases bracket <;> simp [kind, kindOfBracket]
  | operand | callStart | groupStart | argument | negation | operator | percent | stray =>
    simp [kind]

/-! ## Streams read from the left -/

/-- Tokens that fit in the brackets that are open and ask nothing of their neighbours. -/
def Bracketed (opened : List Kind) : List Token → Prop
  | [] => True
  | token :: rest =>
    token.FitsIn opened ∧ token.StandsAlone ∧ Bracketed (openAfter opened token) rest

/-- Tokens that stand where they may, behind some open brackets and the token `before`. -/
def Reads (opened : List Kind) (before : Option Token) : List Token → Prop
  | [] => True
  | token :: rest =>
    token.FitsIn opened ∧ token.StandsBetween before rest.head? ∧
      Reads (openAfter opened token) (some token) rest

theorem bracketed_append :
    Bracketed opened (tokens ++ more) ↔
      Bracketed opened tokens ∧ Bracketed (tokens.foldl openAfter opened) more := by
  induction tokens generalizing opened with
  | nil => simp [Bracketed]
  | cons token rest ih => simp only [List.cons_append, Bracketed, List.foldl_cons, ih, and_assoc]

/-- Each token of such a stream fits behind those in front of it and between its neighbours. -/
theorem Reads.of_append {front back : List Token}
    (h : Reads opened before (front ++ token :: back)) :
    token.FitsIn (front.foldl openAfter opened) ∧
      token.StandsBetween (front.getLast?.or before) back.head? := by
  induction front generalizing opened before with
  | nil => exact ⟨h.1, h.2.1⟩
  | cons first rest ih =>
    rw [List.getLast?_cons, Option.some_or]
    have hrest := ih h.2.2
    -- the token on the left is the last one in front, or else the first one
    cases hlast : rest.getLast? with
    | none => simpa [hlast] using hrest
    | some last => simpa [hlast] using hrest

/-- A token stands where it may among those before it and those after it. Blanks are lexemes only:
among the kinds of tokens there is none for them. -/
structure WellPlaced (front : List Token) (token : Token) (back : List Token) : Prop where
  operand : token.kind = .operand → token.role ≠ .nothing
  fitsIn : token.FitsIn (openBehind front)
  standsBetween : token.StandsBetween front.getLast? back.head?

/-- Every token of a stream stands where it may. -/
def WellFormed (tokens : List Token) : Prop :=
  ∀ front token back, tokens = front ++ token :: back → WellPlaced front token back

theorem Reads.wellFormed (h : Reads [] none tokens) : WellFormed tokens := by
  rintro front token back rfl
  rcases h.of_append with ⟨hfits, hbetween⟩
  rw [Option.or_none] at hbetween
  refine ⟨fun hkind => ?_, hfits, hbetween⟩
  cases token with
  | operand kind text => exact (role_operand_ne kind text).1
  | callStart | groupStart | argument | negation | operator | percent | stray => cases hkind
  | stop bracket => cases bracket <;> cases hkind

end Token

namespace Lexeme

open Token

/-! ## The first reading -/

/-- The token that a lexeme is already. -/
def finished? : Lexeme → Option Token
  | token t => some t
  | word _ | blank | plus | minus => none

theorem finished?_eq_some_iff {lexeme : Lexeme} {t : Token} :
    lexeme.finished? = some t ↔ lexeme = token t := by
  cases lexeme <;> simp [finished?]

theorem filterMap_finished_flush (text : String) : (flush text).filterMap finished? = [] := by
  unfold flush
  split <;> rfl

theorem operator?_spec {c : Char} {op : Operator} (h : operator? c = some op) :
    op.text ≠ "," ∧ (Token.operator op).StandsAlone := by
  unfold operator? at h
  split at h <;> cases h <;> exact ⟨by decide, by decide, by decide, by decide⟩

theorem comparison?_spec {c d : Char} {op : Operator} (h : comparison? c d = some op) :
    op.text ≠ "," ∧ (Token.operator op).StandsAlone := by
  unfold comparison? at h
  split at h <;> cases h <;> exact ⟨by decide, by decide, by decide, by decide⟩

namespace Scan

/-- The kinds of the brackets that a scan has open. -/
def kinds (s : Scan) : List Kind := s.opened.map kindOfBracket

/-- Outside a text in quotes a word that has begun does not begin with a comma, and only in plain
mode it may not have begun. So no call is named by a comma. -/
inductive Outside (s : Scan) : Prop where
  | quoted : s.mode = .quoted → Outside s
  | fresh : s.mode = .plain → s.word = "" → Outside s
  | begun (first : Char) (rest : List Char) :
    s.word.toList = first :: rest → first ≠ ',' → Outside s

/-- What a step does to the brackets is what its tokens say. -/
structure Tracks (s : Scan) (result : List Lexeme × Scan) : Prop where
  bracketed : Bracketed s.kinds (result.1.filterMap finished?)
  kinds_eq : (result.1.filterMap finished?).foldl openAfter s.kinds = result.2.kinds
  outside : result.2.Outside

variable {s after : Scan} {c d : Char} {token : Token} {lexemes : List Lexeme}
  {result : List Lexeme × Scan}

theorem outside_fresh (s : Scan) (opened : List Bracket) :
    Outside { s.fresh with opened := opened } :=
  .fresh rfl rfl

theorem outside_starting (s : Scan) (mode : Mode) (hc : c ≠ ',') : (s.starting mode c).Outside :=
  .begun c [] (by simp [starting, Char.toString]) hc

/-- A word that has begun may go on with any character. -/
theorem Outside.push (h : s.Outside) (hquoted : s.mode ≠ .quoted)
    (hc : s.mode = .plain → c ≠ ',') (mode : Mode) : Outside { s.push c with mode := mode } := by
  cases h with
  | quoted hmode => exact absurd hmode hquoted
  | fresh hmode hempty =>
    refine .begun c [] ?_ (hc hmode)
    simp [Scan.push, hempty]
  | begun first rest hword hfirst =>
    refine .begun first (rest ++ [c]) ?_ hfirst
    simp [Scan.push, hword, String.toList_push]

/-- The name of a call is no comma. -/
theorem Outside.word_ne (h : s.Outside) (hmode : s.mode = .plain) : s.word ≠ "," := by
  cases h with
  | quoted hquoted => exact absurd (hmode.symm.trans hquoted) (by decide)
  | fresh _ hempty =>
    rw [hempty]
    decide
  | begun first rest hword hfirst =>
    intro hcomma
    rw [hcomma] at hword
    cases hword
    exact hfirst rfl

/-! ### What a step tracks -/

/-- A step that finishes no token leaves the brackets as they are. -/
theorem tracks_silent (hlexemes : lexemes.filterMap finished? = [])
    (hopened : after.opened = s.opened) (houtside : after.Outside) : Tracks s (lexemes, after) where
  bracketed := by
    rw [hlexemes]
    trivial
  kinds_eq := by
    rw [hlexemes, kinds, kinds, hopened]
    rfl
  outside := houtside

theorem tracks_token (hfits : token.FitsIn s.kinds) (halone : token.StandsAlone)
    (hopened : openAfter s.kinds token = after.kinds) (houtside : after.Outside) :
    Tracks s ([.token token], after) where
  bracketed := ⟨hfits, halone, trivial⟩
  kinds_eq := hopened
  outside := houtside

/-- The word in front of a lexeme is no token yet. -/
theorem Tracks.flush (h : Tracks s (lexemes, after)) (word : String) :
    Tracks s (flush word ++ lexemes, after) := by
  have hfinished :
      (Lexeme.flush word ++ lexemes).filterMap finished? = lexemes.filterMap finished? := by
    rw [List.filterMap_append, filterMap_finished_flush, List.nil_append]
  exact ⟨hfinished ▸ h.bracketed, hfinished ▸ h.kinds_eq, h.outside⟩

theorem tracks_flush (word : String) (hopened : after.opened = s.opened)
    (houtside : after.Outside) : Tracks s (Lexeme.flush word, after) :=
  tracks_silent (filterMap_finished_flush word) hopened houtside

theorem tracks_grows (h : s.Outside) (hquoted : s.mode ≠ .quoted) (hc : s.mode = .plain → c ≠ ',')
    (mode : Mode) : Tracks s ([], { s.push c with mode := mode }) :=
  tracks_silent rfl rfl (h.push hquoted hc mode)

/-- A blank and the signs are left to the second reading. -/
theorem tracks_unfinished {lexeme : Lexeme} (h : lexeme.finished? = none) :
    Tracks s (Lexeme.flush s.word ++ [lexeme], s.fresh) := by
  have hsilent : Tracks s ([lexeme], s.fresh) := by
    refine tracks_silent ?_ rfl (outside_fresh s s.opened)
    rw [List.filterMap_cons_none h, List.filterMap_nil]
  exact hsilent.flush s.word

/-- A token that is no stop, is not stray and divides no values stands anywhere. -/
theorem tracks_plain (hrole : token.role = .nothing ∨ token.role = .start)
    (hkind : token.kind ∉ [Kind.unknown, .infixOperator, .prefixOperator])
    (htext : token.text ≠ ",") (hopened : openAfter s.kinds token = after.kinds)
    (houtside : after.Outside) : Tracks s ([.token token], after) := by
  have hnone : token.role ≠ .stop ∧ token.role ≠ .intersection := by
    rcases hrole with h | h <;> simp [h]
  simp only [List.mem_cons, List.not_mem_nil, or_false, not_or] at hkind
  rcases hkind with ⟨hunknown, hoperator, hnegation⟩
  exact tracks_token (fitsIn_of_ne hnone.1 hunknown (Or.inr htext))
    (standsAlone_of_ne hnone.2 hoperator hnegation) hopened houtside

theorem tracks_operator {op : Operator} (hcomma : op.text ≠ ",")
    (halone : (Token.operator op).StandsAlone) :
    Tracks s ([.token (.operator op)], s.fresh) :=
  tracks_token (fitsIn_operator hcomma) halone (openAfter_operator op) (outside_fresh s s.opened)

theorem tracks_operand (kind : OperandKind) (text : String) :
    Tracks s ([.token (.operand kind text)], s.fresh) :=
  tracks_token (fitsIn_operand kind text) (standsAlone_operand kind text)
    (openAfter_operand kind text) (outside_fresh s s.opened)

/-- A closing bracket closes what was opened last, and is stray with nothing open. -/
theorem tracks_close (hc : c ≠ ',') : Tracks s (s.close c) := by
  unfold close
  split
  · rename_i bracket opened hopened
    have hkinds : s.kinds = kindOfBracket bracket :: opened.map kindOfBracket := by
      rw [kinds, hopened, List.map_cons]
    refine (tracks_token ?_ ?_ ?_ (outside_fresh s opened)).flush s.word
    · rw [hkinds]
      exact { stop := fun _ => rfl
              unknown := fun hunknown => by cases bracket <;> cases hunknown
              comma := fun htext => absurd htext (by simp [Token.text]) }
    · cases bracket <;> exact standsAlone_of_ne (by decide) (by decide) (by decide)
    · rw [hkinds]
      rfl
  · rename_i hopened
    have hkinds : s.kinds = [] := by
      rw [kinds, hopened, List.map_nil]
    refine (tracks_token ?_ ?_ rfl (outside_fresh s s.opened)).flush s.word
    · refine ⟨by simp [role], fun _ => hkinds, fun htext => absurd htext ?_⟩
      intro hcomma
      have hlist : [c] = [','] := by
        simpa [Token.text, Char.toString] using congrArg String.toList hcomma
      cases hlist
      exact hc rfl
    · exact standsAlone_of_ne (by simp [role]) (by simp [Token.kind]) (by simp [Token.kind])

theorem tracks_callStart {name : String} (hname : name ≠ ",") :
    Tracks s ([.token (.callStart name)], { s.fresh with opened := .call :: s.opened }) :=
  tracks_plain (Or.inr rfl) (by simp [Token.kind]) hname rfl (outside_fresh s _)

theorem tracks_openParenthesis (hname : s.word ≠ ",") : Tracks s s.openParenthesis := by
  unfold openParenthesis
  split
  · exact tracks_plain (Or.inr rfl) (by decide) (by decide) rfl (outside_fresh s _)
  · exact tracks_callStart hname

/-- Calls are open as functions, so that the scan and its tokens agree on what a comma is. -/
theorem head?_kinds_eq_function : s.kinds.head? = some .function ↔ s.opened.head? = some .call := by
  rw [kinds, List.head?_map, Option.map_eq_some_iff]
  constructor
  · rintro ⟨bracket, hhead, hbracket⟩
    cases bracket with
    | call => exact hhead
    | group => cases hbracket
  · intro hhead
    exact ⟨.call, hhead, rfl⟩

theorem tracks_comma : Tracks s ([.token s.comma], s.fresh) := by
  unfold comma
  split
  · rename_i hcall
    refine tracks_token ⟨by simp [role], by simp [Token.kind], fun _ _ => ?_⟩
      (standsAlone_of_ne (by decide) (by decide) (by decide)) rfl (outside_fresh s s.opened)
    rw [if_pos (head?_kinds_eq_function.2 hcall)]
    rfl
  · rename_i hcall
    refine tracks_token ⟨by simp [role, roleOfOperator], by simp [Token.kind], fun _ _ => ?_⟩
      ⟨by decide, by decide, by decide⟩ rfl (outside_fresh s s.opened)
    rw [if_neg (mt head?_kinds_eq_function.1 hcall)]
    rfl

theorem tracks_plainStep (houtside : s.Outside) (hmode : s.mode = .plain) (c : Char) :
    Tracks s (s.plainStep c) := by
  have hplain : s.mode ≠ .quoted := by
    rw [hmode]
    decide
  unfold plainStep
  split
  -- a sign that belongs to an exponent is no comma either
  · rename_i hsign
    refine tracks_grows houtside hplain (fun _ => ?_) s.mode
    rintro rfl
    exact absurd hsign.1 (by decide)
  · split
    · exact tracks_flush s.word rfl (.quoted rfl)
    · exact tracks_flush s.word rfl (outside_starting s .path (by decide))
    · exact tracks_grows houtside hplain (fun _ => by decide) .bracketed
    · exact tracks_flush s.word rfl (outside_starting s .errorCode (by decide))
    · exact (tracks_callStart (by decide)).flush s.word
    · exact tracks_close (by decide)
    · exact tracks_close (by decide)
    · exact tracks_openParenthesis (houtside.word_ne hmode)
    · exact tracks_comma.flush s.word
    · exact (tracks_plain (Or.inl rfl) (by decide) (by decide) rfl
        (outside_fresh s s.opened)).flush s.word
    · exact tracks_unfinished rfl
    · exact tracks_unfinished rfl
    · exact tracks_unfinished rfl
    · exact tracks_unfinished rfl
    · exact tracks_unfinished rfl
    · exact tracks_unfinished rfl
    · exact (tracks_plain (Or.inl rfl) (by decide) (by decide) rfl
        (outside_fresh s s.opened)).flush s.word
    · split
      · rename_i op hop
        exact (tracks_operator (operator?_spec hop).1 (operator?_spec hop).2).flush s.word
      · exact tracks_grows houtside hplain (fun _ => by assumption) s.mode

theorem tracks_step (houtside : s.Outside) (c : Char) : Tracks s (s.step c) := by
  unfold step
  split
  · exact tracks_plainStep houtside (by assumption) c
  · rename_i hmode
    split
    · exact tracks_operand .text s.word
    · exact tracks_silent rfl rfl (.quoted hmode)
  · rename_i hmode
    have hgrows := tracks_grows (c := c) houtside (by simp [hmode]) (by simp [hmode])
    split
    · exact hgrows .plain
    · exact hgrows s.mode
  · rename_i hmode
    have hgrows := tracks_grows (c := c) houtside (by simp [hmode]) (by simp [hmode])
    split
    · exact hgrows .plain
    · exact hgrows s.mode
  · rename_i hmode
    unfold errorStep
    dsimp only
    split
    · exact tracks_operand .error (s.word.push c)
    · exact tracks_grows houtside (by simp [hmode]) (by simp [hmode]) s.mode

theorem tracks_of_pair? (houtside : s.Outside) (h : s.pair? c d = some result) :
    Tracks s result := by
  unfold pair? at h
  split at h
  · rename_i hmode
    split at h
    · cases h
      exact tracks_silent rfl rfl (.quoted hmode)
    · cases h
  · rename_i hmode
    split at h
    · cases h
      exact tracks_grows houtside (by simp [hmode]) (by simp [hmode]) s.mode
    · cases h
  · rcases Option.map_eq_some_iff.1 h with ⟨op, hop, rfl⟩
    exact (tracks_operator (comparison?_spec hop).1 (comparison?_spec hop).2).flush s.word
  · cases h
  · cases h

/-- What a step tracks goes on with what the rest tracks. -/
theorem Tracks.append {more : List Lexeme} (h : Tracks s (lexemes, after))
    (hmore : Bracketed after.kinds (more.filterMap finished?)) :
    Bracketed s.kinds ((lexemes ++ more).filterMap finished?) := by
  rw [List.filterMap_append, bracketed_append, h.kinds_eq]
  exact ⟨h.bracketed, hmore⟩

end Scan

/-- The first reading brings out tokens that fit in the brackets that are open. -/
theorem bracketed_scan {s : Scan} (h : s.Outside) (text : List Char) :
    Bracketed s.kinds ((scan s text).filterMap finished?) := by
  have hend : ∀ (after : Scan), Bracketed after.kinds ((flush after.word).filterMap finished?) := by
    intro after
    rw [filterMap_finished_flush]
    trivial
  fun_induction scan s text with
  | case1 s => exact hend s
  | case2 s c => exact (Scan.tracks_step h c).append (hend _)
  | case3 s c d rest lexemes after hpair ih =>
    have htracks := Scan.tracks_of_pair? h hpair
    exact htracks.append (ih htracks.outside)
  | case4 s c d rest hpair ih =>
    have htracks := Scan.tracks_step h c
    exact htracks.append (ih htracks.outside)

theorem bracketed_ofChars (text : List Char) :
    Bracketed [] ((ofChars text).filterMap finished?) := by
  have hscan : ∀ rest, Bracketed [] ((scan {} rest).filterMap finished?) := by
    intro rest
    have hstart : Scan.Outside {} := .fresh rfl rfl
    exact bracketed_scan hstart rest
  unfold ofChars
  split
  · exact hscan _
  · exact hscan _

/-! ## The second reading -/

variable {opened : List Kind} {before : Option Token} {lexemes : List Lexeme}

/-- A lexeme that starts a value becomes a token that does. -/
theorem exists_mem_head?_settleAll (h : lexemes.head?.any startsValue = true) :
    ∃ right ∈ (settleAll before lexemes).head?, right.kind = .operand ∨ right.role = .start := by
  cases lexemes with
  | nil => cases h
  | cons lexeme rest =>
    cases lexeme with
    | word text => exact ⟨_, rfl, Or.inl rfl⟩
    | blank | plus | minus => cases h
    | token t =>
      refine ⟨t, rfl, ?_⟩
      cases t with
      | operand kind text => exact Or.inl rfl
      | callStart name => exact Or.inr rfl
      | groupStart => exact Or.inr rfl
      | stop | argument | negation | operator | percent | stray => cases h

theorem any_endsValue_iff :
    before.any endsValue = true ↔ ∃ left ∈ before, left.kind = .operand ∨ left.role = .stop := by
  simp only [Option.any_eq_true, endsValue_iff, Option.mem_def]

/-- Right behind an operand, a stop or a percent sign a sign is an operator. -/
theorem signIsOperator_iff :
    (before.any endsValue || before = some .percent) = true ↔
      ∃ left ∈ before, left.EndsOperand := by
  have hpercent : before = some .percent ↔ ∃ left ∈ before, left.kind = .postfixOperator := by
    constructor
    · rintro rfl
      exact ⟨.percent, rfl, rfl⟩
    · rintro ⟨left, rfl, hkind⟩
      rw [eq_percent_iff.1 hkind]
  rw [Bool.or_eq_true, any_endsValue_iff, decide_eq_true_iff, hpercent]
  simp only [EndsOperand, ← or_assoc, and_or_left, exists_or]

/-- The tokens that a lexeme becomes which is none yet, between the token `before` and the lexeme
`next`. -/
inductive Settles (before : Option Token) (next : Option Lexeme) : Token → Prop where
  | word (kind : OperandKind) (text : String) : Settles before next (.operand kind text)
  | intersection : before.any endsValue = true → next.any startsValue = true →
    Settles before next (.operator .intersection)
  | sign {op : Operator} : op = .plus ∨ op = .minus → (∃ left ∈ before, left.EndsOperand) →
    Settles before next (.operator op)
  | negation : ¬ (∃ left ∈ before, left.EndsOperand) → Settles before next .negation

theorem settles_of_settle {lexeme : Lexeme} {next : Option Lexeme} {kept : Token}
    (hnone : lexeme.finished? = none) (h : settle before lexeme next = some kept) :
    Settles before next kept := by
  cases lexeme with
  | token t => cases hnone
  | word text =>
    cases h
    exact .word _ text
  | blank =>
    simp only [settle] at h
    split at h
    · rename_i hvalues
      cases h
      rw [Bool.and_eq_true] at hvalues
      exact .intersection hvalues.1 hvalues.2
    · cases h
  | plus =>
    simp only [settle] at h
    split at h
    · rename_i hsign
      cases h
      exact .sign (Or.inl rfl) (signIsOperator_iff.1 hsign)
    · cases h
  | minus =>
    simp only [settle] at h
    split at h
    · rename_i hsign
      cases h
      exact .sign (Or.inr rfl) (signIsOperator_iff.1 hsign)
    · rename_i hsign
      cases h
      exact .negation (mt signIsOperator_iff.2 hsign)

namespace Settles

variable {next : Option Lexeme} {kept : Token}

theorem fitsIn (h : Settles before next kept) : kept.FitsIn opened := by
  cases h with
  | word kind text => exact fitsIn_operand kind text
  | intersection hleft hright => exact fitsIn_operator (by decide)
  | sign hop hleft =>
    rcases hop with rfl | rfl
    · exact fitsIn_operator (by decide)
    · exact fitsIn_operator (by decide)
  | negation hleft => exact fitsIn_of_ne (by decide) (by decide) (Or.inr (by decide))

theorem openAfter_eq (h : Settles before next kept) : openAfter opened kept = opened := by
  cases h with
  | word kind text => exact openAfter_operand kind text
  | intersection hleft hright => rfl
  | sign hop hleft => exact openAfter_operator _
  | negation hleft => rfl

theorem standsBetween (h : Settles before lexemes.head? kept) :
    kept.StandsBetween before (settleAll (some kept) lexemes).head? := by
  cases h with
  | word kind text => exact (standsAlone_operand kind text).standsBetween _ _
  | intersection hleft hright =>
    refine ⟨fun _ => ⟨any_endsValue_iff.1 hleft, exists_mem_head?_settleAll hright⟩, ?_, ?_⟩
    · intro _ htext
      exact absurd htext (by decide)
    · intro hkind
      cases hkind
  | sign hop hleft =>
    refine ⟨?_, fun _ _ => hleft, ?_⟩
    · rcases hop with rfl | rfl
      · intro hrole
        cases hrole
      · intro hrole
        cases hrole
    · intro hkind
      cases hkind
  | negation hleft =>
    refine ⟨?_, ?_, fun _ => ⟨rfl, ?_⟩⟩
    · intro hrole
      cases hrole
    · intro hkind
      cases hkind
    · intro left hmem hends
      exact hleft ⟨left, hmem, hends⟩

end Settles

/-- The second reading keeps the brackets of the first, and what depends on neighbours has them. -/
theorem reads_settleAll (h : Bracketed opened (lexemes.filterMap finished?)) :
    Reads opened before (settleAll before lexemes) := by
  induction lexemes generalizing opened before with
  | nil => trivial
  | cons lexeme rest ih =>
    cases hfinished : lexeme.finished? with
    | some t =>
      rw [List.filterMap_cons_some hfinished] at h
      rw [finished?_eq_some_iff.1 hfinished]
      exact ⟨h.1, h.2.1.standsBetween _ _, ih h.2.2⟩
    | none =>
      rw [List.filterMap_cons_none hfinished] at h
      rw [settleAll]
      cases hsettle : settle before lexeme rest.head? with
      | none => exact ih h
      | some kept =>
        have hsettles := settles_of_settle hfinished hsettle
        refine ⟨hsettles.fitsIn, hsettles.standsBetween, ?_⟩
        rw [hsettles.openAfter_eq]
        exact ih h

end Lexeme

/-- In the stream of any text each token stands where it may. -/
theorem Token.wellFormed_ofText (text : String) : WellFormed (Token.ofText text) :=
  (Lexeme.reads_settleAll (Lexeme.bracketed_ofChars text.toList)).wellFormed

end SheetLedger
