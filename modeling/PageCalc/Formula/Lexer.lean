import PageCalc.Formula.Error
import PageCalc.Formula.Token

/-!
# The tokens of a text

Cuts the body of a formula, what follows its equals sign, into tokens. Blanks separate tokens
and are otherwise skipped; every other character belongs to a token. Positions in error
messages count bytes from the start of the body.
-/

namespace PageCalc.Token

def byteLength (cs : List Char) : Nat := cs.foldl (fun sum c => sum + c.utf8Size) 0

/-- The position at which the end `cs` of a body of `total` bytes begins. -/
def position (total : Nat) (cs : List Char) : Nat := total - byteLength cs

/-! ## Literals -/

/-- The characters of a text up to its closing quote, and what follows the quote. A quote
written twice stands for itself. -/
def scanText : List Char → Option (List Char × List Char)
  | [] => none
  | '"' :: '"' :: rest => (scanText rest).map fun (inner, after) => ('"' :: inner, after)
  | '"' :: rest => some ([], rest)
  | c :: rest => (scanText rest).map fun (inner, after) => (c :: inner, after)

/-- A point and the digits after it, and what follows them. -/
def spanFraction : List Char → List Char × List Char
  | '.' :: rest => ('.' :: rest.takeWhile Char.isDigit, rest.dropWhile Char.isDigit)
  | cs => ([], cs)

def spanSign : List Char → List Char × List Char
  | '+' :: rest => (['+'], rest)
  | '-' :: rest => (['-'], rest)
  | cs => ([], cs)

/-- The mark, the sign and the digits of an exponent, and what follows them. -/
def spanExponent : List Char → List Char × List Char
  | [] => ([], [])
  | mark :: rest =>
    if mark = 'e' ∨ mark = 'E' then
      let (sign, digits) := spanSign rest
      (mark :: (sign ++ digits.takeWhile Char.isDigit), digits.dropWhile Char.isDigit)
    else ([], mark :: rest)

/-- The characters that look like a number, and what follows them. -/
def spanNumber (cs : List Char) : List Char × List Char :=
  let (fraction, rest) := spanFraction (cs.dropWhile Char.isDigit)
  let (exponent, after) := spanExponent rest
  (cs.takeWhile Char.isDigit ++ fraction ++ exponent, after)

/-- Scans a number. What looks like one has to be one, and a finite one. -/
def scanNumber (cs : List Char) : Except FormulaError (Token × List Char) :=
  let (shown, after) := spanNumber cs
  match (Number.ofDecimalText? shown).filter Float.isFinite with
  | some value => .ok (.number value, after)
  | none => .error (.parse s!"Invalid number '{String.ofList shown}'")

/-! ## Words -/

def isWordChar (c : Char) : Bool := c.isAlphanum || c = '_' || c = '$' || c = '.'

/-- Whether a word has the shape of an address: letters and then digits, each with an optional
marker before it. -/
def isCellShaped (word : List Char) : Bool :=
  let unmarked := Address.dropMarker word
  let digits := Address.dropMarker (unmarked.dropWhile Char.isAlpha)
  !(unmarked.takeWhile Char.isAlpha).isEmpty && !digits.isEmpty && digits.all Char.isDigit

/-- The address that a word of the right shape stands for. -/
def addressOfWord (word : List Char) : Except FormulaError Address :=
  let shown := String.ofList word
  (Address.ofText shown).mapError fun fault =>
    .parse s!"Invalid cell reference '{shown}': {fault.message}"

/-- Scans what follows the address `first`, written `shown`: with a colon and another address it
is a range. -/
def scanRange (first : Address) (shown : String) :
    List Char → Except FormulaError (Token × List Char)
  | ':' :: rest =>
    let word := rest.takeWhile isWordChar
    if isCellShaped word then do
      let last ← addressOfWord word
      return (.range (.spanning first last), rest.dropWhile isWordChar)
    else .error (.parse s!"Expected cell reference after '{shown}:'")
  | cs => .ok (.cell first, cs)

/-- Scans a word. Directly before a parenthesis it is a name, even if it looks like an
address. -/
def scanWord (cs : List Char) : Except FormulaError (Token × List Char) :=
  let word := cs.takeWhile isWordChar
  let rest := cs.dropWhile isWordChar
  let shown := String.ofList word
  if rest.head? = some '(' then .ok (.name shown, rest)
  else if Text.upperAscii shown = "TRUE" then .ok (.boolean true, rest)
  else if Text.upperAscii shown = "FALSE" then .ok (.boolean false, rest)
  else if isCellShaped word then do
    let first ← addressOfWord word
    scanRange first shown rest
  else .ok (.name shown, rest)

/-! ## References to other pages -/

/-- Scans what follows the label and the identifier of a page: after a colon, a cell or a
range. -/
def scanTarget (page : PageRef) : List Char → Except FormulaError (Token × List Char)
  | ':' :: rest => do
    let (token, after) ← scanWord rest
    match token with
    | .cell a => return (.external ⟨page, .cell a⟩, after)
    | .range r => return (.external ⟨page, .range r⟩, after)
    | _ => throw (.parse s!"Expected cell or range after '{page.text}:'")
  | cs => .ok (.external ⟨page, .wholeSheet⟩, cs)

def scanIdentifier (label : String) : List Char → Except FormulaError (Token × List Char)
  | '(' :: rest =>
    match Text.cutAt? ')' rest with
    | none => .error (.parse s!"Unterminated page id after label '{label}'")
    | some (identifier, after) =>
      if (Text.trim identifier).isEmpty then
        .error (.parse s!"Empty page id in reference to '{label}'")
      else scanTarget ⟨String.ofList identifier, label⟩ after
  | _ => .error (.parse s!"Expected '(' after page label '{label}'")

/-- Scans what follows the `@` at position `start`. -/
def scanPage (start : Nat) : List Char → Except FormulaError (Token × List Char)
  | '[' :: rest =>
    match Text.cutAt? ']' rest with
    | none => .error (.parse s!"Unterminated page label starting at position {start}")
    | some (label, after) => scanIdentifier (String.ofList label) after
  | _ => .error (.parse s!"Expected '[' after '@' at position {start}")

/-! ## Tokens -/

def single? : Char → Option Token
  | '+' => some (.operator .add)
  | '-' => some (.operator .subtract)
  | '*' => some (.operator .multiply)
  | '/' => some (.operator .divide)
  | '&' => some (.operator .concat)
  | '=' => some (.operator .equal)
  | ',' => some .comma
  | '(' => some .leftParen
  | ')' => some .rightParen
  | _ => none

/-- The comparison that begins with `<`, and what follows it. -/
def scanLess : List Char → Token × List Char
  | '=' :: rest => (.operator .lessEqual, rest)
  | '>' :: rest => (.operator .notEqual, rest)
  | cs => (.operator .less, cs)

/-- The comparison that begins with `>`, and what follows it. -/
def scanGreater : List Char → Token × List Char
  | '=' :: rest => (.operator .greaterEqual, rest)
  | cs => (.operator .greater, cs)

def startsNumber (c : Char) (rest : List Char) : Bool :=
  c.isDigit || (c = '.' && rest.head?.any Char.isDigit)

def startsWord (c : Char) : Bool := c.isAlpha || c = '_' || c = '$'

/-- Scans the token that begins with `c`, which is no blank, in a body of `total` bytes. -/
def scan (total : Nat) (c : Char) (rest : List Char) :
    Except FormulaError (Token × List Char) :=
  match single? c with
  | some token => .ok (token, rest)
  | none =>
    if c = '<' then .ok (scanLess rest)
    else if c = '>' then .ok (scanGreater rest)
    else if c = '"' then
      match scanText rest with
      | some (inner, after) => .ok (.text (String.ofList inner), after)
      | none =>
        let start := position total (c :: rest)
        .error (.parse s!"Unterminated string starting at position {start}")
    else if c = '@' then scanPage (position total (c :: rest)) rest
    else if startsNumber c rest then scanNumber (c :: rest)
    else if startsWord c then scanWord (c :: rest)
    else
      let start := position total (c :: rest)
      .error (.parse s!"Unexpected character '{c}' at position {start}")

/-! ## What is scanned

Each scanner gives a token in one of a few ways, and otherwise refuses the text. What holds of scanned tokens is
shown by these ways, not by the tests that lead to them. -/

variable {c : Char} {cs rest after : List Char} {token : Token}

theorem scanNumber_eq_ok_iff : scanNumber cs = .ok (token, after) ↔
    ∃ value, (Number.ofDecimalText? (spanNumber cs).1).filter Float.isFinite = some value ∧
      token = .number value ∧ after = (spanNumber cs).2 := by
  unfold scanNumber
  dsimp only
  split
  · next value found =>
    constructor
    · intro scanned
      cases scanned
      exact ⟨value, found, rfl, rfl⟩
    · rintro ⟨other, same, rfl, rfl⟩
      cases found.symm.trans same
      rfl
  · next none =>
    constructor
    · intro scanned
      cases scanned
    · rintro ⟨value, found, -⟩
      cases none.symm.trans found

/-- The cell `first`, or the range that it is a corner of. -/
inductive ScansRange (first : Address) : List Char → Token → List Char → Prop where
  | range {rest : List Char} {last : Address} (shaped : isCellShaped (rest.takeWhile isWordChar))
      (found : addressOfWord (rest.takeWhile isWordChar) = .ok last) :
      ScansRange first (':' :: rest) (.range (.spanning first last)) (rest.dropWhile isWordChar)
  | cell {cs : List Char} (noColon : cs.head? ≠ some ':') : ScansRange first cs (.cell first) cs

theorem scanRange_eq_ok_iff {first : Address} {shown : String} :
    scanRange first shown cs = .ok (token, after) ↔ ScansRange first cs token after := by
  constructor
  · intro scanned
    unfold scanRange at scanned
    split at scanned
    · next rest =>
      simp only at scanned
      split at scanned
      · next shaped =>
        cases found : addressOfWord (rest.takeWhile isWordChar) with
        | error fault => rw [found] at scanned; cases scanned
        | ok last => rw [found] at scanned; cases scanned; exact .range shaped found
      · cases scanned
    · next noColon =>
      cases scanned
      refine .cell fun first => ?_
      cases cs <;> cases first
      exact noColon _ rfl
  · rintro (⟨shaped, found⟩ | noColon)
    · simp only [scanRange, shaped, if_true, found]
      rfl
    · unfold scanRange
      split
      · exact absurd rfl noColon
      · rfl

/-- What a word stands for with what follows it, `rest`. -/
inductive ScansWord (word rest : List Char) : Token → List Char → Prop where
  | called (call : rest.head? = some '(') : ScansWord word rest (.name (String.ofList word)) rest
  | isTrue (noCall : rest.head? ≠ some '(') (isTrue : Text.upperAscii (String.ofList word) = "TRUE") :
      ScansWord word rest (.boolean true) rest
  | isFalse (noCall : rest.head? ≠ some '(') (isFalse : Text.upperAscii (String.ofList word) = "FALSE") :
      ScansWord word rest (.boolean false) rest
  | address (noCall : rest.head? ≠ some '(') (notTrue : Text.upperAscii (String.ofList word) ≠ "TRUE")
      (notFalse : Text.upperAscii (String.ofList word) ≠ "FALSE") (shaped : isCellShaped word) {first : Address}
      (found : addressOfWord word = .ok first) {token : Token} {after : List Char}
      (range : ScansRange first rest token after) : ScansWord word rest token after
  | name (noCall : rest.head? ≠ some '(') (notTrue : Text.upperAscii (String.ofList word) ≠ "TRUE")
      (notFalse : Text.upperAscii (String.ofList word) ≠ "FALSE") (unshaped : ¬ isCellShaped word) :
      ScansWord word rest (.name (String.ofList word)) rest

theorem scanWord_eq_ok_iff : scanWord cs = .ok (token, after) ↔
    ScansWord (cs.takeWhile isWordChar) (cs.dropWhile isWordChar) token after := by
  constructor
  · intro scanned
    unfold scanWord at scanned
    simp only at scanned
    split at scanned
    · next call => cases scanned; exact .called call
    next noCall =>
    split at scanned
    · next isTrue => cases scanned; exact .isTrue noCall isTrue
    next notTrue =>
    split at scanned
    · next isFalse => cases scanned; exact .isFalse noCall isFalse
    next notFalse =>
    split at scanned
    · next shaped =>
      cases found : addressOfWord (cs.takeWhile isWordChar) with
      | error fault => rw [found] at scanned; cases scanned
      | ok first =>
        rw [found] at scanned
        exact .address noCall notTrue notFalse shaped found (scanRange_eq_ok_iff.1 scanned)
    · next unshaped => cases scanned; exact .name noCall notTrue notFalse unshaped
  · intro scans
    unfold scanWord
    cases scans with
    | called call => rw [if_pos call]
    | isTrue noCall isTrue => rw [if_neg noCall, if_pos isTrue]
    | isFalse noCall isFalse => simp [noCall, isFalse]
    | address noCall notTrue notFalse shaped found range =>
      rw [if_neg noCall, if_neg notTrue, if_neg notFalse, if_pos shaped, found]
      exact scanRange_eq_ok_iff.2 range
    | name noCall notTrue notFalse unshaped => rw [if_neg noCall, if_neg notTrue, if_neg notFalse, if_neg unshaped]

/-- A cell or a range of the page after a colon, or else the whole page. -/
inductive ScansTarget (page : PageRef) : List Char → Token → List Char → Prop where
  | cell {rest after : List Char} {a : Address} (found : scanWord rest = .ok (.cell a, after)) :
      ScansTarget page (':' :: rest) (.external ⟨page, .cell a⟩) after
  | range {rest after : List Char} {r : Range} (found : scanWord rest = .ok (.range r, after)) :
      ScansTarget page (':' :: rest) (.external ⟨page, .range r⟩) after
  | wholeSheet {cs : List Char} (noColon : cs.head? ≠ some ':') :
      ScansTarget page cs (.external ⟨page, .wholeSheet⟩) cs

theorem scanTarget_eq_ok_iff {page : PageRef} :
    scanTarget page cs = .ok (token, after) ↔ ScansTarget page cs token after := by
  constructor
  · intro scanned
    unfold scanTarget at scanned
    split at scanned
    · next rest =>
      cases found : scanWord rest with
      | error fault => rw [found] at scanned; cases scanned
      | ok pair =>
        obtain ⟨word, left⟩ := pair
        rw [found] at scanned
        cases word <;> cases scanned
        · exact .cell found
        · exact .range found
    · next noColon =>
      cases scanned
      refine .wholeSheet fun first => ?_
      cases cs <;> cases first
      exact noColon _ rfl
  · rintro (found | found | noColon)
    · simp only [scanTarget, found]
      rfl
    · simp only [scanTarget, found]
      rfl
    · unfold scanTarget
      split
      · exact absurd rfl noColon
      · rfl

/-- The label and the identifier of a page, and what is meant of it. -/
inductive ScansPage : List Char → Token → List Char → Prop where
  | page {rest label identifier left cs after : List Char} {token : Token}
      (isLabel : Text.cutAt? ']' rest = some (label, '(' :: left))
      (isIdentifier : Text.cutAt? ')' left = some (identifier, cs))
      (nonblank : (Text.trim identifier).isEmpty = false)
      (target : ScansTarget ⟨String.ofList identifier, String.ofList label⟩ cs token after) :
      ScansPage ('[' :: rest) token after

theorem scanPage_eq_ok_iff {start : Nat} :
    scanPage start cs = .ok (token, after) ↔ ScansPage cs token after := by
  constructor
  · intro scanned
    unfold scanPage at scanned
    split at scanned
    · next rest =>
      split at scanned
      · cases scanned
      · next label left isLabel =>
        unfold scanIdentifier at scanned
        split at scanned
        · next left =>
          split at scanned
          · cases scanned
          · next isIdentifier =>
            split at scanned
            · cases scanned
            · next nonblank =>
              exact .page isLabel isIdentifier (Bool.eq_false_iff.2 nonblank) (scanTarget_eq_ok_iff.1 scanned)
        · cases scanned
    · cases scanned
  · rintro ⟨isLabel, isIdentifier, nonblank, target⟩
    simp only [scanPage, isLabel, scanIdentifier, isIdentifier, nonblank]
    exact scanTarget_eq_ok_iff.2 target

/-- The token that comes first in a text that begins with a character. -/
inductive ScansToken : Char → List Char → Token → List Char → Prop where
  | single {c : Char} {rest : List Char} {token : Token} (found : single? c = some token) :
      ScansToken c rest token rest
  | less {rest after : List Char} {token : Token} (found : scanLess rest = (token, after)) :
      ScansToken '<' rest token after
  | greater {rest after : List Char} {token : Token} (found : scanGreater rest = (token, after)) :
      ScansToken '>' rest token after
  | text {rest inner after : List Char} (found : scanText rest = some (inner, after)) :
      ScansToken '"' rest (.text (String.ofList inner)) after
  | page {rest after : List Char} {token : Token} (page : ScansPage rest token after) :
      ScansToken '@' rest token after
  | number {c : Char} {rest after : List Char} {token : Token} (starts : startsNumber c rest)
      (found : scanNumber (c :: rest) = .ok (token, after)) : ScansToken c rest token after
  | word {c : Char} {rest after : List Char} {token : Token} (starts : startsWord c)
      (notNumber : ¬ startsNumber c rest) (found : scanWord (c :: rest) = .ok (token, after)) :
      ScansToken c rest token after

/-- What begins a number or a word begins no other token. -/
theorem scan_of_starts {total : Nat} (starts : startsNumber c rest ∨ startsWord c) :
    scan total c rest = if startsNumber c rest then scanNumber (c :: rest) else scanWord (c :: rest) := by
  have notSingle : single? c = none := by
    unfold single?
    split
    case h_10 => rfl
    all_goals rcases starts with starts | starts <;> cases starts
  have unmarked : c ≠ '<' ∧ c ≠ '>' ∧ c ≠ '"' ∧ c ≠ '@' := by
    refine ⟨?_, ?_, ?_, ?_⟩ <;> rintro rfl <;> rcases starts with starts | starts <;> cases starts
  obtain ⟨notLess, notGreater, notQuote, notAt⟩ := unmarked
  simp only [scan, notSingle, notLess, notGreater, notQuote, notAt, if_false]
  split
  · rfl
  · next notNumber => rw [if_pos (starts.resolve_left notNumber)]

theorem scan_eq_ok_iff {total : Nat} : scan total c rest = .ok (token, after) ↔ ScansToken c rest token after := by
  constructor
  · intro scanned
    unfold scan at scanned
    split at scanned
    · next found => cases scanned; exact .single found
    split at scanned
    · next isLess => subst isLess; exact .less (Except.ok.inj scanned)
    split at scanned
    · next isGreater => subst isGreater; exact .greater (Except.ok.inj scanned)
    split at scanned
    · next isQuote =>
      subst isQuote
      split at scanned <;> cases scanned
      next found => exact .text found
    split at scanned
    · next isAt => subst isAt; exact .page (scanPage_eq_ok_iff.1 scanned)
    split at scanned
    · next starts => exact .number starts scanned
    next notNumber =>
    split at scanned
    · next starts => exact .word starts notNumber scanned
    · cases scanned
  · intro scans
    cases scans with
    | single found => rw [scan, found]
    | less found | greater found => exact congrArg Except.ok found
    | text found =>
      have notSingle : single? '"' = none := rfl
      simp [scan, notSingle, found]
    | page page => exact scanPage_eq_ok_iff.2 page
    | number starts found => rw [scan_of_starts (.inl starts), if_pos starts, found]
    | word starts notNumber found => rw [scan_of_starts (.inr starts), if_neg notNumber, found]

/-! ## Progress

What is left after a token is an end of what came after the first character of the token. -/

theorem scanText_suffix {cs inside after : List Char}
    (h : scanText cs = some (inside, after)) : after <:+ cs := by
  fun_induction scanText cs generalizing inside after with
  | case1 => simp at h
  | case2 rest ih =>
    obtain ⟨⟨inner, left⟩, found, same⟩ := Option.map_eq_some_iff.1 h
    cases same
    exact (ih found).trans ⟨['"', '"'], rfl⟩
  | case3 rest => cases h; exact ⟨['"'], rfl⟩
  | case4 c rest _ _ ih =>
    obtain ⟨⟨inner, left⟩, found, same⟩ := Option.map_eq_some_iff.1 h
    cases same
    exact (ih found).trans ⟨[c], rfl⟩

theorem cutAt?_suffix {mark : Char} {cs before after : List Char}
    (h : Text.cutAt? mark cs = some (before, after)) : after <:+ cs := by
  induction cs generalizing before after with
  | nil => simp [Text.cutAt?] at h
  | cons c rest ih =>
    unfold Text.cutAt? at h
    split at h
    · cases h; exact ⟨[c], rfl⟩
    · obtain ⟨⟨inner, left⟩, found, same⟩ := Option.map_eq_some_iff.1 h
      cases same
      exact (ih found).trans ⟨[c], rfl⟩

theorem spanFraction_suffix (cs : List Char) : (spanFraction cs).2 <:+ cs := by
  unfold spanFraction
  split
  · exact (List.dropWhile_suffix _).trans ⟨['.'], rfl⟩
  · exact List.suffix_rfl

theorem spanSign_suffix (cs : List Char) : (spanSign cs).2 <:+ cs := by
  unfold spanSign
  split
  · exact ⟨['+'], rfl⟩
  · exact ⟨['-'], rfl⟩
  · exact List.suffix_rfl

theorem spanExponent_suffix (cs : List Char) : (spanExponent cs).2 <:+ cs := by
  unfold spanExponent
  split
  · exact List.suffix_rfl
  · next mark rest =>
    split
    · exact ((List.dropWhile_suffix _).trans (spanSign_suffix rest)).trans ⟨[mark], rfl⟩
    · exact List.suffix_rfl

/-- A number that begins with a digit or with a point takes up at least that character. -/
theorem spanNumber_suffix {c : Char} {rest : List Char} (h : startsNumber c rest) :
    (spanNumber (c :: rest)).2 <:+ rest := by
  have tail : (spanNumber (c :: rest)).2 <:+
      (spanFraction ((c :: rest).dropWhile Char.isDigit)).2 := spanExponent_suffix _
  refine tail.trans ?_
  by_cases digit : c.isDigit
  · rw [List.dropWhile_cons_of_pos digit]
    exact (spanFraction_suffix _).trans (List.dropWhile_suffix _)
  · have point : c = '.' := by
      simp only [startsNumber, digit, Bool.false_or, Bool.and_eq_true, decide_eq_true_eq] at h
      exact h.1
    subst point
    rw [List.dropWhile_cons_of_neg digit]
    exact List.dropWhile_suffix _

theorem ScansRange.suffix {first : Address} (scans : ScansRange first cs token after) : after <:+ cs := by
  cases scans with
  | range => exact (List.dropWhile_suffix _).trans ⟨[':'], rfl⟩
  | cell => exact List.suffix_rfl

theorem scanWord_suffix (scanned : scanWord cs = .ok (token, after)) : after <:+ cs.dropWhile isWordChar := by
  cases scanWord_eq_ok_iff.1 scanned with
  | called | isTrue | isFalse | name => exact List.suffix_rfl
  | address _ _ _ _ _ range => exact range.suffix

theorem isWordChar_of_startsWord {c : Char} (h : startsWord c) : isWordChar c := by
  simp only [startsWord, isWordChar, Char.isAlphanum, Bool.or_eq_true, decide_eq_true_eq] at *
  rcases h with (h | h) | h <;> simp [h]

theorem ScansTarget.suffix {page : PageRef} (scans : ScansTarget page cs token after) : after <:+ cs := by
  cases scans with
  | cell found | range found =>
    exact ((scanWord_suffix found).trans (List.dropWhile_suffix _)).trans ⟨[':'], rfl⟩
  | wholeSheet => exact List.suffix_rfl

theorem ScansPage.suffix (scans : ScansPage cs token after) : after <:+ cs := by
  cases scans with
  | page isLabel isIdentifier _ target =>
    have label := (cutAt?_suffix isLabel).trans ⟨['['], rfl⟩
    have identifier := (cutAt?_suffix isIdentifier).trans ⟨['('], rfl⟩
    exact (target.suffix.trans identifier).trans label

theorem scanLess_suffix (cs : List Char) : (scanLess cs).2 <:+ cs := by
  unfold scanLess
  split
  · exact ⟨['='], rfl⟩
  · exact ⟨['>'], rfl⟩
  · exact List.suffix_rfl

theorem scanGreater_suffix (cs : List Char) : (scanGreater cs).2 <:+ cs := by
  unfold scanGreater
  split
  · exact ⟨['='], rfl⟩
  · exact List.suffix_rfl

theorem ScansToken.suffix (scans : ScansToken c rest token after) : after <:+ rest := by
  cases scans with
  | single => exact List.suffix_rfl
  | less found =>
    have kept := scanLess_suffix rest
    rwa [found] at kept
  | greater found =>
    have kept := scanGreater_suffix rest
    rwa [found] at kept
  | text found => exact scanText_suffix found
  | page page => exact page.suffix
  | number starts found =>
    obtain ⟨value, -, -, rfl⟩ := scanNumber_eq_ok_iff.1 found
    exact spanNumber_suffix starts
  | word starts _ found =>
    -- A word takes up at least the character that it begins with.
    have kept := scanWord_suffix found
    rw [List.dropWhile_cons_of_pos (isWordChar_of_startsWord starts)] at kept
    exact kept.trans (List.dropWhile_suffix _)

theorem scan_suffix {total : Nat} (scanned : scan total c rest = .ok (token, after)) : after <:+ rest :=
  (scan_eq_ok_iff.1 scanned).suffix

/-! ## The whole text -/

/-- The tokens of the end `cs` of a body of `total` bytes. -/
def scanAll (total : Nat) (cs : List Char) : Except FormulaError (List Token) :=
  match _start : cs.dropWhile Text.isBlank with
  | [] => .ok []
  | c :: rest =>
    match _found : scan total c rest with
    | .error fault => .error fault
    | .ok (token, after) => (scanAll total after).map (token :: ·)
termination_by cs.length
decreasing_by
  have shorter := (scan_suffix _found).length_le
  have whole := (List.dropWhile_suffix Text.isBlank (l := cs)).length_le
  rw [_start] at whole
  simp at whole
  omega

def ofText (body : String) : Except FormulaError (List Token) :=
  scanAll (byteLength body.toList) body.toList

/-- The tokens of a text, with blanks before, between and behind them. -/
inductive ScansText : List Char → List Token → Prop where
  | nil {cs : List Char} (blank : cs.dropWhile Text.isBlank = []) : ScansText cs []
  | cons {cs rest after : List Char} {c : Char} {token : Token} {tokens : List Token}
      (start : cs.dropWhile Text.isBlank = c :: rest) (first : ScansToken c rest token after)
      (others : ScansText after tokens) : ScansText cs (token :: tokens)

theorem scanAll_eq_ok_iff {total : Nat} {tokens : List Token} :
    scanAll total cs = .ok tokens ↔ ScansText cs tokens := by
  constructor
  · intro scanned
    fun_induction scanAll total cs generalizing tokens with
    | case1 cs blank =>
      cases scanned
      exact .nil blank
    | case2 => cases scanned
    | case3 cs c rest start token after found ih =>
      cases others : scanAll total after with
      | error fault => rw [others] at scanned; cases scanned
      | ok tokens =>
        rw [others] at scanned
        cases scanned
        exact .cons start (scan_eq_ok_iff.1 found) (ih others)
  · intro scans
    induction scans with
    | @nil cs blank =>
      rw [scanAll]
      split
      · rfl
      · next start => cases blank.symm.trans start
    | @cons cs rest after c token tokens start first others ih =>
      have found : scan total c rest = .ok (token, after) := scan_eq_ok_iff.2 first
      rw [scanAll]
      split
      · next none => cases none.symm.trans start
      · next startToo =>
        cases startToo.symm.trans start
        split
        · next failed => cases failed.symm.trans found
        · next foundToo =>
          cases foundToo.symm.trans found
          rw [ih]
          rfl

theorem ofText_eq_ok_iff {body : String} {tokens : List Token} :
    ofText body = .ok tokens ↔ ScansText body.toList tokens := scanAll_eq_ok_iff

end PageCalc.Token
