import PageCalc.Proofs.Formula.Cursor

/-!
# Nothing is lost in scanning

The tokens of a text take up all of it but for blanks, each a span of its own in their order. A token is
scanned from its span alone, unless it is a name that comes directly before a parenthesis.
-/

namespace PageCalc.Token

open Text

variable {c : Char} {cs rest after : List Char} {token : Token}

/-! ## Spans

A scanner takes up a span if it gives the token for the span alone, and what comes after the span is left. -/

def TakesUp (scanner : List Char → Except FormulaError (Token × List Char)) (cs : List Char) (token : Token)
    (after : List Char) : Prop :=
  ∃ span, cs = span ++ after ∧ scanner span = .ok (token, [])

/-- What begins like a text that ends a run, or is empty, ends the run as well. -/
theorem endsRun_of_append {p : Char → Bool} {span : List Char} (ends : EndsRun p (span ++ after)) :
    EndsRun p span := by
  intro c first
  exact ends c (by rw [List.head?_append, first, Option.some_or])

theorem takeWhile_self {p : Char → Bool} (cs : List Char) :
    (cs.takeWhile p).takeWhile p = cs.takeWhile p ∧ (cs.takeWhile p).dropWhile p = [] := by
  have nothing : EndsRun p [] := by rintro c ⟨⟩
  have all : ∀ c ∈ cs.takeWhile p, p c := fun c => List.mem_takeWhile_imp
  have first := takeWhile_run all nothing
  have rest := dropWhile_run all nothing
  rw [List.append_nil] at first rest
  exact ⟨first, rest⟩

theorem endsRun_dropWhile {p : Char → Bool} (cs : List Char) : EndsRun p (cs.dropWhile p) := by
  intro c first
  have stops := List.head?_dropWhile_not p cs
  rw [first] at stops
  simpa using stops

/-! ## Texts -/

theorem takesUp_text {inner : List Char} (found : scanText cs = some (inner, after)) :
    ∃ span, cs = span ++ after ∧ scanText span = some (inner, []) := by
  fun_induction scanText cs generalizing inner with
  | case1 => cases found
  | case2 rest ih =>
    obtain ⟨⟨inside, left⟩, foundLater, same⟩ := Option.map_eq_some_iff.1 found
    cases same
    obtain ⟨span, rfl, scanned⟩ := ih foundLater
    exact ⟨'"' :: '"' :: span, rfl, by rw [scanText, scanned]; rfl⟩
  | case3 rest => cases found; exact ⟨['"'], rfl, rfl⟩
  | case4 c rest notTwice notQuote ih =>
    obtain ⟨⟨inside, left⟩, foundLater, same⟩ := Option.map_eq_some_iff.1 found
    cases same
    obtain ⟨span, rfl, scanned⟩ := ih foundLater
    refine ⟨c :: span, rfl, ?_⟩
    rw [scanText, scanned]
    · rfl
    · exact fun _ quote => absurd quote notQuote
    · exact notQuote

/-! ## Numbers -/

/-- An exponent begins with its mark. -/
theorem endsRun_spanExponent {p : Char → Bool} (notMark : p 'e' = false ∧ p 'E' = false) (cs : List Char) :
    EndsRun p (spanExponent cs).1 := by
  intro c first
  unfold spanExponent at first
  split at first
  · cases first
  · split at first
    · next mark =>
      cases first
      rcases mark with rfl | rfl
      · exact notMark.1
      · exact notMark.2
    · cases first

theorem spanSign_cases (cs : List Char) :
    (spanSign cs).1 = ['+'] ∨ (spanSign cs).1 = ['-'] ∨ (spanSign cs).1 = [] := by
  unfold spanSign
  split
  · exact .inl rfl
  · exact .inr (.inl rfl)
  · exact .inr (.inr rfl)

theorem spanFraction_cases (cs : List Char) : (spanFraction cs).1 = [] ∨
    ∃ digits, (spanFraction cs).1 = '.' :: digits ∧ ∀ c ∈ digits, c.isDigit := by
  unfold spanFraction
  split
  · exact .inr ⟨_, rfl, fun c => List.mem_takeWhile_imp⟩
  · exact .inl rfl

theorem spanSign_self {more : List Char} (noSign : more.head? ≠ some '+' ∧ more.head? ≠ some '-')
    (cs : List Char) : spanSign ((spanSign cs).1 ++ more) = ((spanSign cs).1, more) := by
  rcases spanSign_cases cs with sign | sign | sign
  · rw [sign]
    rfl
  · rw [sign]
    rfl
  · rw [sign, List.nil_append]
    unfold spanSign
    split
    · exact absurd rfl noSign.1
    · exact absurd rfl noSign.2
    · rfl

theorem spanExponent_self (cs : List Char) : spanExponent (spanExponent cs).1 = ((spanExponent cs).1, []) := by
  cases cs with
  | nil => rfl
  | cons mark rest =>
    by_cases isMark : mark = 'e' ∨ mark = 'E'
    · have digits := takeWhile_self (p := Char.isDigit) (spanSign rest).2
      have noSign : ((spanSign rest).2.takeWhile Char.isDigit).head? ≠ some '+' ∧
          ((spanSign rest).2.takeWhile Char.isDigit).head? ≠ some '-' := by
        constructor <;> intro first <;> cases List.mem_takeWhile_imp (List.mem_of_head? first)
      simp only [spanExponent, if_pos isMark, spanSign_self noSign, digits]
    · simp only [spanExponent, if_neg isMark]

/-- A point and its digits are told from an exponent that comes after them. -/
theorem spanFraction_self (cs more : List Char) :
    spanFraction ((spanFraction cs).1 ++ (spanExponent more).1) = ((spanFraction cs).1, (spanExponent more).1) := by
  have ends : EndsRun Char.isDigit (spanExponent more).1 := endsRun_spanExponent (by decide) more
  have noPoint : EndsRun (· == '.') (spanExponent more).1 := endsRun_spanExponent (by decide) more
  rcases spanFraction_cases cs with nothing | ⟨digits, isFraction, areDigits⟩
  · rw [nothing, List.nil_append]
    unfold spanFraction
    split
    · next point => exact absurd (noPoint '.' (by rw [point]; rfl)) (by decide)
    · rfl
  · rw [isFraction, List.cons_append]
    simp only [spanFraction, takeWhile_run areDigits ends, dropWhile_run areDigits ends]

theorem spanNumber_self (cs : List Char) : spanNumber (spanNumber cs).1 = ((spanNumber cs).1, []) := by
  let fraction := spanFraction (cs.dropWhile Char.isDigit)
  let exponent := spanExponent fraction.2
  have isShown : (spanNumber cs).1 = cs.takeWhile Char.isDigit ++ (fraction.1 ++ exponent.1) :=
    List.append_assoc ..
  have digits : ∀ c ∈ cs.takeWhile Char.isDigit, c.isDigit := fun c => List.mem_takeWhile_imp
  have ends : EndsRun Char.isDigit (fraction.1 ++ exponent.1) := by
    rcases spanFraction_cases (cs.dropWhile Char.isDigit) with nothing | ⟨digits, isFraction, -⟩
    · rw [nothing]
      exact endsRun_spanExponent (by decide) fraction.2
    · rw [isFraction]
      rintro c ⟨⟩
      rfl
  rw [isShown]
  simp only [spanNumber, takeWhile_run digits ends, dropWhile_run digits ends, fraction, exponent,
    spanFraction_self, spanExponent_self, List.append_assoc]

/-- A number is scanned from the characters that look like it. -/
theorem takesUp_number (scanned : scanNumber cs = .ok (token, after)) : TakesUp scanNumber cs token after := by
  obtain ⟨value, found, rfl, rfl⟩ := scanNumber_eq_ok_iff.1 scanned
  refine ⟨(spanNumber cs).1, (spanNumber_append cs).symm, scanNumber_eq_ok_iff.2 ⟨value, ?_, rfl, ?_⟩⟩
  · rw [spanNumber_self, found]
  · rw [spanNumber_self]

/-! ## Words -/

/-- A range is scanned from a colon and the address of its other corner. -/
theorem ScansRange.takesUp {first : Address} (scans : ScansRange first cs token after) :
    ∃ span, cs = span ++ after ∧ ScansRange first span token [] := by
  cases scans with
  | @range rest last shaped found =>
    obtain ⟨kept, nothingLeft⟩ := takeWhile_self (p := isWordChar) rest
    refine ⟨':' :: rest.takeWhile isWordChar, ?_, ?_⟩
    · rw [List.cons_append, List.takeWhile_append_dropWhile]
    · rw [← nothingLeft]
      exact .range (by rw [kept, shaped]) (by rw [kept, found])
  | cell => exact ⟨[], rfl, .cell (by simp)⟩

/-- A name that comes directly before a parenthesis; the same characters may be scanned otherwise without it. -/
def Called (token : Token) (after : List Char) : Prop :=
  (∃ name, token = .name name) ∧ after.head? = some '('

theorem ScansWord.takesUp {word : List Char} (scans : ScansWord word rest token after)
    (notCalled : ¬ Called token after) : ∃ span, rest = span ++ after ∧ ScansWord word span token [] := by
  have noCall : ([] : List Char).head? ≠ some '(' := by simp
  cases scans with
  | called call => exact absurd ⟨⟨_, rfl⟩, call⟩ notCalled
  | isTrue _ isTrue => exact ⟨[], rfl, .isTrue noCall isTrue⟩
  | isFalse _ isFalse => exact ⟨[], rfl, .isFalse noCall isFalse⟩
  | address noCall notTrue notFalse shaped found range =>
    obtain ⟨span, rfl, spanned⟩ := range.takesUp
    -- The word is not called before the span, since the span is all that comes first after it.
    have noCallSpan : span.head? ≠ some '(' := fun call =>
      noCall (by rw [List.head?_append, call, Option.some_or])
    exact ⟨span, rfl, .address noCallSpan notTrue notFalse shaped found spanned⟩
  | name _ notTrue notFalse unshaped => exact ⟨[], rfl, .name noCall notTrue notFalse unshaped⟩

/-- A word is scanned from its characters, and from those of the other corner of a range. -/
theorem takesUp_word (scanned : scanWord cs = .ok (token, after)) (notCalled : ¬ Called token after) :
    TakesUp scanWord cs token after := by
  obtain ⟨span, isRest, spanned⟩ := (scanWord_eq_ok_iff.1 scanned).takesUp notCalled
  have isWord : ∀ c ∈ cs.takeWhile isWordChar, isWordChar c := fun c => List.mem_takeWhile_imp
  have ends : EndsRun isWordChar span := endsRun_of_append (isRest ▸ endsRun_dropWhile cs)
  refine ⟨cs.takeWhile isWordChar ++ span, ?_, scanWord_eq_ok_iff.2 ?_⟩
  · rw [List.append_assoc, ← isRest, List.takeWhile_append_dropWhile]
  · rwa [takeWhile_run isWord ends, dropWhile_run isWord ends]

/-! ## References to other pages -/

theorem ScansTarget.takesUp {page : PageRef} (scans : ScansTarget page cs token after) :
    ∃ span, cs = span ++ after ∧ ScansTarget page span token [] := by
  -- A name is no target, so what comes after the word does not matter.
  cases scans with
  | cell found =>
    obtain ⟨span, rfl, spanned⟩ := takesUp_word found (by rintro ⟨⟨_, named⟩, -⟩; cases named)
    exact ⟨':' :: span, rfl, .cell spanned⟩
  | range found =>
    obtain ⟨span, rfl, spanned⟩ := takesUp_word found (by rintro ⟨⟨_, named⟩, -⟩; cases named)
    exact ⟨':' :: span, rfl, .range spanned⟩
  | wholeSheet => exact ⟨[], rfl, .wholeSheet (by simp)⟩

theorem ScansPage.takesUp (scans : ScansPage cs token after) :
    ∃ span, cs = span ++ after ∧ ScansPage span token [] := by
  cases scans with
  | @page _ label identifier _ _ _ _ isLabel isIdentifier nonblank target =>
    obtain ⟨rfl, labelUnmarked⟩ := cutAt?_eq_some isLabel
    obtain ⟨rfl, identifierUnmarked⟩ := cutAt?_eq_some isIdentifier
    obtain ⟨span, rfl, spanned⟩ := target.takesUp
    refine ⟨'[' :: (label ++ ']' :: '(' :: (identifier ++ ')' :: span)), by simp, ?_⟩
    exact .page (cutAt?_append labelUnmarked) (cutAt?_append identifierUnmarked) nonblank spanned

/-! ## Operators -/

theorem takesUp_less (scanned : scanLess cs = (token, after)) :
    ∃ span, cs = span ++ after ∧ scanLess span = (token, []) := by
  unfold scanLess at scanned
  split at scanned <;> cases scanned
  · exact ⟨['='], rfl, rfl⟩
  · exact ⟨['>'], rfl, rfl⟩
  · exact ⟨[], rfl, rfl⟩

theorem takesUp_greater (scanned : scanGreater cs = (token, after)) :
    ∃ span, cs = span ++ after ∧ scanGreater span = (token, []) := by
  unfold scanGreater at scanned
  split at scanned <;> cases scanned
  · exact ⟨['='], rfl, rfl⟩
  · exact ⟨[], rfl, rfl⟩

/-! ## All tokens -/

/-- The characters of a number begin one. -/
theorem startsNumber_of_scanned {span : List Char} (starts : startsNumber c (span ++ after))
    (scanned : scanNumber (c :: span) = .ok (token, [])) : startsNumber c span := by
  cases span with
  | cons d span => exact starts
  | nil =>
    rw [startsNumber, Bool.or_eq_true, Bool.and_eq_true, decide_eq_true_eq] at starts
    rcases starts with digit | ⟨rfl, -⟩
    · rw [startsNumber, digit, Bool.true_or]
    · -- A point alone is no number.
      cases scanned

/-- A token is scanned from its first character and what else it takes up. -/
theorem ScansToken.takesUp (scans : ScansToken c cs token after) (notCalled : ¬ Called token after) :
    ∃ span, cs = span ++ after ∧ ScansToken c span token [] := by
  obtain ⟨inner, whole⟩ := scans.suffix
  have eq_inner {span : List Char} (same : c :: cs = span ++ after) : span = c :: inner := by
    rw [← whole] at same
    exact (List.append_cancel_right same).symm
  cases scans with
  | single found => exact ⟨[], rfl, .single found⟩
  | less found =>
    obtain ⟨span, same, spanned⟩ := takesUp_less found
    exact ⟨span, same, .less spanned⟩
  | greater found =>
    obtain ⟨span, same, spanned⟩ := takesUp_greater found
    exact ⟨span, same, .greater spanned⟩
  | text found =>
    obtain ⟨span, same, spanned⟩ := takesUp_text found
    exact ⟨span, same, .text spanned⟩
  | page page =>
    obtain ⟨span, same, spanned⟩ := page.takesUp
    exact ⟨span, same, .page spanned⟩
  -- A number and a word are scanned with the character that they begin with, so this is in their span.
  | number starts found =>
    obtain ⟨span, same, spanned⟩ := takesUp_number found
    rw [eq_inner same] at spanned
    exact ⟨inner, whole.symm, .number (startsNumber_of_scanned (whole.symm ▸ starts) spanned) spanned⟩
  | word starts _ found =>
    obtain ⟨span, same, spanned⟩ := takesUp_word found notCalled
    rw [eq_inner same] at spanned
    exact ⟨inner, whole.symm, .word starts (not_startsNumber_of_startsWord starts) spanned⟩

/-! ## The whole text -/

/-- A token with the blanks before it and the characters that it takes up. -/
structure Piece where
  gap : List Char
  span : List Char
  token : Token

/-- The text of pieces, and what comes after them. -/
def Piece.spell (pieces : List Piece) (rest : List Char) : List Char :=
  pieces.flatMap (fun piece => piece.gap ++ piece.span) ++ rest

/-- A piece takes up some characters after blanks, and its token is the only one of these characters unless it is
a name that comes directly before a parenthesis. -/
structure Piece.Sound (piece : Piece) (after : List Char) : Prop where
  blank : ∀ c ∈ piece.gap, isBlank c
  nonempty : piece.span ≠ []
  stable : ¬ Called piece.token after → ofText (String.ofList piece.span) = .ok [piece.token]

/-- The characters from which a token is scanned have it as their only token. -/
theorem ofText_span {span : List Char} (notBlank : isBlank c = false) (scans : ScansToken c span token []) :
    ofText (String.ofList (c :: span)) = .ok [token] := by
  have start : (c :: span).dropWhile isBlank = c :: span := List.dropWhile_cons_of_neg (by simp [notBlank])
  rw [ofText_eq_ok_iff, String.toList_ofList]
  exact .cons start scans (.nil rfl)

/-- The characters that a token takes up make a piece, with the blanks before them. -/
theorem Piece.Sound.of_scans {gap inner : List Char} (blank : ∀ d ∈ gap, isBlank d) (notBlank : isBlank c = false)
    (scans : ScansToken c (inner ++ after) token after) : Piece.Sound ⟨gap, c :: inner, token⟩ after where
  blank := blank
  nonempty := List.cons_ne_nil c inner
  stable notCalled := by
    obtain ⟨span, same, spanned⟩ := scans.takesUp notCalled
    rw [List.append_cancel_right same]
    exact ofText_span notBlank spanned

theorem ScansText.exists_pieces {tokens : List Token} (scans : ScansText cs tokens) :
    ∃ (pieces : List Piece) (rest : List Char), cs = Piece.spell pieces rest ∧ pieces.map Piece.token = tokens ∧
      (∀ c ∈ rest, isBlank c) ∧
      ∀ before piece later, pieces = before ++ piece :: later → piece.Sound (Piece.spell later rest) := by
  induction scans with
  | @nil cs allBlank =>
    refine ⟨[], cs, rfl, rfl, List.dropWhile_eq_nil_iff.1 allBlank, ?_⟩
    intro before piece later none
    simp at none
  | @cons cs rest after c token tokens start first others ih =>
    obtain ⟨pieces, blanks, isAfter, rfl, allBlank, sound⟩ := ih
    obtain ⟨inner, rfl⟩ := first.suffix
    have notBlank : isBlank c = false := endsRun_dropWhile cs c (by rw [start]; rfl)
    have isFirst : Piece.Sound ⟨cs.takeWhile isBlank, c :: inner, token⟩ after :=
      .of_scans (fun _ => List.mem_takeWhile_imp) notBlank first
    refine ⟨⟨cs.takeWhile isBlank, c :: inner, token⟩ :: pieces, blanks, ?_, rfl, allBlank, ?_⟩
    · have isText : cs = cs.takeWhile isBlank ++ (c :: inner) ++ after := by
        rw [List.append_assoc, List.cons_append, ← start, List.takeWhile_append_dropWhile]
      rw [Piece.spell, List.flatMap_cons, List.append_assoc]
      exact isText.trans (congrArg _ isAfter)
    · intro before piece later split
      rcases List.cons_eq_append_iff.1 split with ⟨rfl, isHead⟩ | ⟨before, rfl, isTail⟩
      · cases isHead
        exact isAfter ▸ isFirst
      · exact sound before piece later isTail

/-- Scanning loses nothing. It ends, with the cursor after the last byte, and the end of the text comes once and
after all tokens; nothing is ever looked at in the middle of a character. If no token is refused, the text is that of
pieces in the order of their tokens, with blanks before, between and after them, and every piece is the text of its
token alone, unless the token is a name that comes directly before a parenthesis. -/
theorem ofText_lossless (text : String) :
    (∀ rounds, text.toList.length < rounds → Lexer.tokenize rounds text.toList 0 =
      some ((ofText text).map fun tokens => (tokens.map some ++ [none], byteLength text.toList))) ∧
    ∀ tokens, ofText text = .ok tokens → ∃ (pieces : List Piece) (rest : List Char),
      text.toList = Piece.spell pieces rest ∧ pieces.map Piece.token = tokens ∧ (∀ c ∈ rest, isBlank c) ∧
      ∀ before piece later, pieces = before ++ piece :: later → piece.Sound (Piece.spell later rest) :=
  ⟨fun _ enough => Lexer.tokenize_eq text enough, fun _ scanned => (ofText_eq_ok_iff.1 scanned).exists_pieces⟩

end PageCalc.Token
