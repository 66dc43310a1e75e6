import Mathlib
import PageCalc.Formula.Lexer
import PageCalc.Formula.Printer
import PageCalc.Proofs.Formula.Grammar
import PageCalc.Proofs.Grid.Address
import PageCalc.Proofs.Number.Text

/-!
# Scanning printed tokens

Each token has a text by which it is printed. A token that the scanner has given is scanned from its
text again, as long as what follows the text does not go on with it.
-/

namespace PageCalc

open Text

/-! ## Characters -/

section Characters

variable {c : Char}

theorem toNat_lt_of_isWordChar (word : Token.isWordChar c) : c.toNat < 128 := by
  simp only [Token.isWordChar, Bool.or_eq_true, decide_eq_true_eq] at word
  rcases word with ((letterOrDigit | rfl) | rfl) | rfl
  · exact toNat_lt_of_isAlphanum letterOrDigit
  all_goals decide

namespace Token

theorem isWordChar_spec (word : isWordChar c) : isBlank c = false ∧ single? c = none ∧ c ≠ '<' ∧ c ≠ '>' ∧
    c ≠ '"' ∧ c ≠ '@' ∧ isWordChar c.toUpper ∧ c.toUpper.toUpper = c.toUpper := by
  have ascii := toNat_lt_of_isWordChar word
  revert word
  refine forall_ascii c ascii ?_
  decide

theorem startsWord_spec (starts : startsWord c) :
    c.isDigit = false ∧ c ≠ '.' ∧ startsWord c.toUpper := by
  have ascii := toNat_lt_of_isWordChar (isWordChar_of_startsWord starts)
  revert starts
  refine forall_ascii c ascii ?_
  decide

theorem isWordChar_of_isDigit (digit : c.isDigit) : isWordChar c := by
  simp [isWordChar, Char.isAlphanum, digit]

/-- The characters that may follow an operand. -/
def closers : List Char := ['+', '-', '*', '/', '&', '=', '<', '>', ',', ')']

theorem closers_spec (closer : c ∈ closers) : isWordChar c = false ∧ c ≠ '"' ∧ c ≠ '(' ∧ c ≠ ':' := by
  simp only [closers, List.mem_cons, List.not_mem_nil, or_false] at closer
  rcases closer with rfl | rfl | rfl | rfl | rfl | rfl | rfl | rfl | rfl | rfl <;> decide

end Token
end Characters

namespace Token

/-- Nothing comes after an operand that goes on with it. -/
def Closes (rest : List Char) : Prop := ∀ c, rest.head? = some c → c ∈ closers

variable {rest : List Char}

theorem closes_cons {c : Char} (closer : c ∈ closers) : Closes (c :: rest) := by
  rintro d first
  cases first
  exact closer

theorem Closes.endsRun (closes : Closes rest) : EndsRun isWordChar rest :=
  fun c first => (closers_spec (closes c first)).1

theorem Closes.head?_ne (closes : Closes rest) :
    rest.head? ≠ some '"' ∧ rest.head? ≠ some '(' ∧ rest.head? ≠ some ':' :=
  ⟨fun first => (closers_spec (closes _ first)).2.1 rfl,
    fun first => (closers_spec (closes _ first)).2.2.1 rfl,
    fun first => (closers_spec (closes _ first)).2.2.2 rfl⟩

/-! ## Printed tokens -/

/-- The text by which a token is printed. -/
def chars : Token → List Char
  | .number x => (Number.text x).toList
  | .text t => Expr.quote t
  | .boolean b => if b then ['T', 'R', 'U', 'E'] else ['F', 'A', 'L', 'S', 'E']
  | .name n => n.toList
  | .cell a => a.text.toList
  | .range r => r.text.toList
  | .external e => e.text.toList
  | .operator o => o.symbol.toList
  | .comma => [',']
  | .leftParen => ['(']
  | .rightParen => [')']

end Token

/-! ## What can be printed -/

/-- A word that may be a name. -/
structure IsName (name : String) : Prop where
  starts : ∃ c rest, name.toList = c :: rest ∧ Token.startsWord c
  word : ∀ c ∈ name.toList, Token.isWordChar c

/-- Both corners lie in the largest possible grid. -/
structure Range.InBounds (range : Range) : Prop where
  first : range.first.InBounds
  last : range.last.InBounds

def PageTarget.InBounds : PageTarget → Prop
  | .wholeSheet => True
  | .cell a => a.InBounds
  | .range r => r.InBounds

/-- What is printed after the identifier of a page. -/
def PageTarget.chars : PageTarget → List Char
  | .wholeSheet => []
  | .cell a => ':' :: a.chars
  | .range r => ':' :: r.text.toList

/-- A reference that can be told where its label and its identifier end. -/
structure ExternalReference.Printable (external : ExternalReference) : Prop where
  label : ']' ∉ external.page.label.toList
  identifier : ')' ∉ external.page.identifier.toList
  nonblank : (Text.trim external.page.identifier.toList).isEmpty = false
  target : external.target.InBounds

/-- A number that is written without a sign. -/
structure Number.IsLiteral (x : Float) : Prop where
  finite : x.isFinite
  unsigned : Number.isNegative x = false

/-- What the scanner can give. -/
def Token.Printable : Token → Prop
  | .number x => Number.IsLiteral x
  | .name n => IsName n
  | .cell a => a.InBounds
  | .range r => r.InBounds
  | .external e => e.Printable
  | .text _ | .boolean _ | .operator _ | .comma | .leftParen | .rightParen => True

namespace Token

/-- A token comes first in a text, and nothing else belongs to it. -/
def ComesFirst (token : Token) (text rest : List Char) : Prop :=
  ∀ total, ∃ c cs, text = c :: cs ∧ isBlank c = false ∧ scan total c cs = .ok (token, rest)

theorem scanAll_of_comesFirst {token : Token} {text : List Char} (first : token.ComesFirst text rest)
    (total : Nat) : scanAll total text = (scanAll total rest).map (token :: ·) := by
  obtain ⟨c, cs, rfl, notBlank, scanned⟩ := first total
  have start : (c :: cs).dropWhile isBlank = c :: cs := List.dropWhile_cons_of_neg (by simp [notBlank])
  rw [scanAll]
  split
  · next none => rw [start] at none; cases none
  · next c' cs' same =>
    rw [start] at same
    cases same
    split
    · next failed => rw [scanned] at failed; cases failed
    · next found => rw [scanned] at found; cases found; rfl

/-! ## Words -/

variable {word : List Char} {c : Char} {cs : List Char} {total : Nat}

theorem not_startsNumber_of_startsWord (starts : startsWord c) : ¬ startsNumber c cs := by
  obtain ⟨notDigit, notPoint, -⟩ := startsWord_spec starts
  simp [startsNumber, notDigit, notPoint]

theorem scan_of_startsWord (starts : startsWord c) : scan total c cs = scanWord (c :: cs) := by
  rw [scan_of_starts (.inr starts), if_neg (not_startsNumber_of_startsWord starts)]

/-- A word that is scanned as a token comes first in its text. -/
theorem comesFirst_of_scanWord {token : Token} (starts : ∃ c cs, word = c :: cs ∧ startsWord c)
    {after : List Char} (scanned : scanWord (word ++ after) = .ok (token, rest)) :
    token.ComesFirst (word ++ after) rest := by
  obtain ⟨c, cs, rfl, start⟩ := starts
  intro total
  refine ⟨c, cs ++ after, rfl, (isWordChar_spec (isWordChar_of_startsWord start)).1, ?_⟩
  rw [scan_of_startsWord start]
  exact scanned

theorem name_comesFirst {name : String} (isName : IsName name) (call : rest.head? = some '(') :
    (Token.name name).ComesFirst (name.toList ++ rest) rest := by
  have ends : EndsRun isWordChar rest := fun c first => by
    rw [call] at first
    cases first
    rfl
  refine comesFirst_of_scanWord isName.starts (scanWord_eq_ok_iff.2 ?_)
  have called : ScansWord name.toList rest (.name (String.ofList name.toList)) rest := .called call
  rw [String.ofList_toList] at called
  rwa [takeWhile_run isName.word ends, dropWhile_run isName.word ends]

theorem boolean_comesFirst (b : Bool) (closes : Closes rest) :
    (Token.boolean b).ComesFirst ((Token.boolean b).chars ++ rest) rest := by
  have isWord : ∀ c ∈ (Token.boolean b).chars, isWordChar c :=
    List.all_eq_true.1 (by cases b <;> rfl)
  have starts : ∃ c cs, (Token.boolean b).chars = c :: cs ∧ startsWord c := by
    cases b <;> exact ⟨_, _, rfl, rfl⟩
  refine comesFirst_of_scanWord starts (scanWord_eq_ok_iff.2 ?_)
  rw [takeWhile_run isWord closes.endsRun, dropWhile_run isWord closes.endsRun]
  cases b with
  | true => exact .isTrue closes.head?_ne.2.1 rfl
  | false => exact .isFalse closes.head?_ne.2.1 rfl

/-! ## Cells and ranges -/

open Address

theorem isWordChar_of_mem_chars {a : Address} {c : Char} (member : c ∈ a.chars) : isWordChar c := by
  rcases List.mem_append.1 member with inColumn | inRow
  · simp [isWordChar, Char.isAlphanum, isAlpha_of_mem_columnChars inColumn]
  · exact isWordChar_of_isDigit (isDigit_of_mem_row inRow)

theorem chars_startsWord (a : Address) : ∃ c cs, a.chars = c :: cs ∧ startsWord c := by
  obtain ⟨c, cs, split⟩ := List.exists_cons_of_ne_nil (columnChars_ne_nil a.column)
  have alpha : c.isAlpha := isAlpha_of_mem_columnChars (by rw [split]; exact List.mem_cons_self)
  exact ⟨c, cs ++ Nat.toDigits 10 (a.row + 1), by rw [Address.chars, split]; rfl, by simp [startsWord, alpha]⟩

section Shapes

variable {letters digits : List Char} {a : Address}

theorem isCellShaped_of_shaped (shaped : Shaped letters digits word) : isCellShaped word := by
  obtain ⟨foundLetters, foundDigits⟩ := shaped.found
  unfold isCellShaped
  cases shaped with
  | parts _ someLetters _ _ someDigits areDigits =>
    simp only [foundLetters, foundDigits, Bool.and_eq_true, Bool.not_eq_true', List.isEmpty_eq_false_iff, ne_eq,
      someLetters, someDigits, not_false_eq_true, List.all_eq_true, true_and]
    exact areDigits

/-- A word of the shape of an address is not reserved: it has a digit, and no reserved word has one. -/
theorem upperAscii_ne_of_shaped {reserved : String} (shaped : Shaped letters digits word)
    (noDigits : ∀ c ∈ reserved.toList, c.isDigit = false) : Text.upperAscii (String.ofList word) ≠ reserved := by
  cases shaped with
  | parts _ _ _ _ someDigits areDigits =>
    intro same
    obtain ⟨d, isLast⟩ := List.exists_mem_of_ne_nil _ someDigits
    have digit := areDigits d isLast
    have inWord : d ∈ reserved.toList := by
      rw [← same, Text.upperAscii, String.toList_ofList, String.toList_ofList]
      refine List.mem_map.2 ⟨d, ?_, (digit_spec digit).2.2.2⟩
      simp only [List.mem_append, isLast, or_true]
    rw [noDigits d inWord] at digit
    cases digit

theorem addressOfWord_of_ofText (read : Address.ofText (String.ofList word) = .ok a) :
    addressOfWord word = .ok a := by
  simp only [addressOfWord, read]
  rfl

/-- A word that is read as an address is scanned as the address, or as the first corner of a range. -/
theorem scanWord_of_shaped (shaped : Shaped letters digits word) (isWord : ∀ c ∈ word, isWordChar c)
    (read : Address.ofText (String.ofList word) = .ok a) (ends : EndsRun isWordChar rest)
    (noCall : rest.head? ≠ some '(') : scanWord (word ++ rest) = scanRange a (String.ofList word) rest := by
  have notTrue : Text.upperAscii (String.ofList word) ≠ "TRUE" := upperAscii_ne_of_shaped shaped (by simp)
  have notFalse : Text.upperAscii (String.ofList word) ≠ "FALSE" := upperAscii_ne_of_shaped shaped (by simp)
  unfold scanWord
  simp only [takeWhile_run isWord ends, dropWhile_run isWord ends, noCall, if_false, notTrue, notFalse,
    isCellShaped_of_shaped shaped, if_true, addressOfWord_of_ofText read]
  rfl

end Shapes

theorem addressOfWord_chars {a : Address} (inBounds : a.InBounds) : addressOfWord a.chars = .ok a :=
  addressOfWord_of_ofText (Address.ofText_text inBounds)

theorem scanWord_chars {a : Address} (inBounds : a.InBounds) (ends : EndsRun isWordChar rest)
    (noCall : rest.head? ≠ some '(') : scanWord (a.chars ++ rest) = scanRange a a.text rest :=
  scanWord_of_shaped (shaped_chars a) (fun _ => isWordChar_of_mem_chars) (Address.ofText_text inBounds) ends noCall

theorem scanWord_cell {a : Address} (inBounds : a.InBounds) (closes : Closes rest) :
    scanWord (a.chars ++ rest) = .ok (.cell a, rest) := by
  rw [scanWord_chars inBounds closes.endsRun closes.head?_ne.2.1]
  exact scanRange_eq_ok_iff.2 (.cell closes.head?_ne.2.2)

theorem range_chars (r : Range) : r.text.toList = r.first.chars ++ ':' :: r.last.chars := by
  simp [Range.text, toString, Address.text]

theorem spanning_corners (r : Range) : Range.spanning r.first r.last = r := by
  obtain ⟨first, last, row_le, column_le⟩ := r
  simp [Range.spanning, row_le, column_le]

theorem scanWord_range {r : Range} (inBounds : r.InBounds) (closes : Closes rest) :
    scanWord (r.text.toList ++ rest) = .ok (.range r, rest) := by
  have ends : EndsRun isWordChar (':' :: (r.last.chars ++ rest)) := fun c first => by cases first; rfl
  have isWord : ∀ c ∈ r.last.chars, isWordChar c := fun c => isWordChar_of_mem_chars
  rw [range_chars, List.append_assoc, List.cons_append, scanWord_chars inBounds.first ends (by simp)]
  simp only [scanRange, takeWhile_run isWord closes.endsRun, dropWhile_run isWord closes.endsRun,
    isCellShaped_of_shaped (shaped_chars r.last), if_true, addressOfWord_chars inBounds.last]
  show Except.ok (Token.range (.spanning r.first r.last), rest) = _
  rw [spanning_corners]

/-! ## References to other pages -/

theorem external_chars (external : ExternalReference) (rest : List Char) :
    external.text.toList ++ rest = '@' :: '[' :: (external.page.label.toList ++ ']' :: '(' ::
      (external.page.identifier.toList ++ ')' :: (external.target.chars ++ rest))) := by
  obtain ⟨⟨identifier, label⟩, target⟩ := external
  cases target <;> simp [ExternalReference.text, PageRef.text, toString, Address.text, PageTarget.chars]

theorem scanTarget_chars {page : PageRef} {target : PageTarget} (inBounds : target.InBounds)
    (closes : Closes rest) :
    scanTarget page (target.chars ++ rest) = .ok (.external ⟨page, target⟩, rest) := by
  cases target with
  | wholeSheet =>
    exact scanTarget_eq_ok_iff.2 (.wholeSheet closes.head?_ne.2.2)
  | cell a =>
    exact scanTarget_eq_ok_iff.2 (.cell (scanWord_cell inBounds closes))
  | range r =>
    exact scanTarget_eq_ok_iff.2 (.range (scanWord_range inBounds closes))

theorem external_comesFirst {external : ExternalReference} (printable : external.Printable)
    (closes : Closes rest) : (Token.external external).ComesFirst (external.text.toList ++ rest) rest := by
  intro total
  refine ⟨'@', _, external_chars external rest, rfl, scan_eq_ok_iff.2 (.page ?_)⟩
  refine .page (cutAt?_append printable.label) (cutAt?_append printable.identifier) printable.nonblank ?_
  rw [String.ofList_toList, String.ofList_toList]
  exact scanTarget_eq_ok_iff.1 (scanTarget_chars printable.target closes)

/-! ## Numbers and texts -/

/-- Digits, a point and letters that mark an exponent may all stand in words. -/
theorem endsRun_isDigit (closes : Closes rest) : EndsRun Char.isDigit rest :=
  closes.endsRun.mono fun c notWord => by
    refine Bool.eq_false_iff.2 fun digit => ?_
    rw [isWordChar_of_isDigit digit] at notWord
    cases notWord

theorem spanExponent_closes (closes : Closes rest) : spanExponent rest = ([], rest) := by
  cases rest with
  | nil => rfl
  | cons c rest =>
    have notWord := closes.endsRun c rfl
    have noMark : ¬ (c = 'e' ∨ c = 'E') := by
      rintro (rfl | rfl) <;> exact absurd notWord (by decide)
    rw [spanExponent, if_neg noMark]

theorem spanFraction_closes (closes : Closes rest) : spanFraction rest = ([], rest) := by
  unfold spanFraction
  split
  · exact absurd (closes.endsRun '.' rfl) (by decide)
  · rfl

theorem spanNumber_plain {shown : List Char} (plain : Number.Plain shown) (closes : Closes rest) :
    spanNumber (shown ++ rest) = (shown, rest) := by
  have ends := endsRun_isDigit closes
  cases plain with
  | whole nonempty areDigits =>
    simp only [spanNumber, takeWhile_run areDigits ends, dropWhile_run areDigits ends,
      spanFraction_closes closes, spanExponent_closes closes, List.append_nil]
  | @pointed digits fraction nonempty areDigits fractionDigits =>
    have endsToo : EndsRun Char.isDigit ('.' :: (fraction ++ rest)) := fun c first => by cases first; rfl
    rw [List.append_assoc, List.cons_append]
    simp only [spanNumber, takeWhile_run areDigits endsToo, dropWhile_run areDigits endsToo, spanFraction,
      takeWhile_run fractionDigits ends, dropWhile_run fractionDigits ends, spanExponent_closes closes,
      List.append_nil]

theorem number_comesFirst {x : Float} (literal : Number.IsLiteral x) (closes : Closes rest) :
    (Token.number x).ComesFirst ((Number.text x).toList ++ rest) rest := by
  obtain ⟨plain, read⟩ := Number.text_spec literal.finite literal.unsigned
  have span := spanNumber_plain plain closes
  obtain ⟨c, cs, split, digit⟩ := plain.exists_cons
  have starts : startsNumber c (cs ++ rest) := by simp [startsNumber, digit]
  have isText : (Number.text x).toList ++ rest = c :: (cs ++ rest) := by rw [split, List.cons_append]
  intro total
  refine ⟨c, cs ++ rest, isText, (isWordChar_spec (isWordChar_of_isDigit digit)).1, ?_⟩
  rw [scan_of_starts (.inl starts), if_pos starts, ← isText]
  refine scanNumber_eq_ok_iff.2 ⟨x, ?_, rfl, by rw [span]⟩
  rw [span, read, Option.filter_some, if_pos literal.finite]

theorem scanText_quoted (cs : List Char) (closes : Closes rest) :
    scanText (cs.flatMap (fun c => if c = '"' then ['"', '"'] else [c]) ++ '"' :: rest) =
      some (cs, rest) := by
  induction cs with
  | nil =>
    rw [List.flatMap_nil, List.nil_append, scanText]
    rintro after rfl
    exact closes.head?_ne.1 rfl
  | cons c cs ih =>
    rw [List.flatMap_cons, List.append_assoc]
    by_cases quote : c = '"'
    · rw [if_pos quote, quote, List.cons_append, List.singleton_append, scanText, ih]
      rfl
    · rw [if_neg quote, List.singleton_append, scanText, ih]
      · rfl
      · exact fun _ same => absurd same quote
      · exact fun same => absurd same quote

theorem text_comesFirst (t : String) (closes : Closes rest) :
    (Token.text t).ComesFirst (Expr.quote t ++ rest) rest := by
  intro total
  have found : scanText (t.toList.flatMap (fun c => if c = '"' then ['"', '"'] else [c]) ++ ['"'] ++ rest) =
      some (t.toList, rest) := by
    rw [List.append_assoc, List.singleton_append, scanText_quoted t.toList closes]
  refine ⟨'"', _, rfl, rfl, (scan_eq_ok_iff.2 (.text found)).trans ?_⟩
  rw [String.ofList_toList]

/-! ## Operators -/

/-- What an operand begins with, so that no operator goes on with it. -/
def Opens (text : List Char) : Prop := ∃ c cs, text = c :: cs ∧ isBlank c = false ∧ c ≠ '=' ∧ c ≠ '>'

/-- Only operators begin with what goes on with an operator. -/
theorem opens_of_comesFirst {token : Token} {text : List Char} (first : token.ComesFirst text rest)
    (notOperator : ∀ operator, token ≠ .operator operator) : Opens text := by
  obtain ⟨c, cs, rfl, notBlank, scanned⟩ := first 0
  refine ⟨c, cs, rfl, notBlank, ?_, ?_⟩
  · rintro rfl
    cases scanned
    exact notOperator .equal rfl
  · rintro rfl
    have greater : scanGreater cs = (token, rest) := Except.ok.inj scanned
    unfold scanGreater at greater
    split at greater <;> cases greater <;> exact notOperator _ rfl

theorem operator_comesFirst (operator : Operator) (opens : Opens rest) :
    (Token.operator operator).ComesFirst (operator.symbol.toList ++ rest) rest := by
  obtain ⟨c, cs, rfl, -, notEqual, notGreater⟩ := opens
  intro total
  have less : scanLess (c :: cs) = (.operator .less, c :: cs) := by
    unfold scanLess
    split
    · next same => cases same; exact absurd rfl notEqual
    · next same => cases same; exact absurd rfl notGreater
    · rfl
  have greater : scanGreater (c :: cs) = (.operator .greater, c :: cs) := by
    unfold scanGreater
    split
    · next same => cases same; exact absurd rfl notEqual
    · rfl
  cases operator with
  | less => exact ⟨'<', _, rfl, rfl, congrArg Except.ok less⟩
  | greater => exact ⟨'>', _, rfl, rfl, congrArg Except.ok greater⟩
  | add | subtract | multiply | divide | equal | notEqual | lessEqual | greaterEqual | concat =>
    exact ⟨_, _, rfl, rfl, rfl⟩

theorem symbol_closes (operator : Operator) : Closes (operator.symbol.toList ++ rest) := by
  cases operator <;> exact closes_cons (by decide)

/-! ## All tokens -/

/-- An operand that is a token by itself comes first if what follows closes it. -/
theorem atom_comesFirst {token : Token} {e : Expr} (atom : Atom token e) (printable : token.Printable)
    (closes : Closes rest) : token.ComesFirst (token.chars ++ rest) rest := by
  cases atom with
  | number x => exact number_comesFirst printable closes
  | text t => exact text_comesFirst t closes
  | boolean b => exact boolean_comesFirst b closes
  | cell a =>
    rw [chars, Address.text, String.toList_ofList]
    exact comesFirst_of_scanWord (chars_startsWord a) (scanWord_cell printable closes)
  | range r =>
    obtain ⟨c, cs, split, starts⟩ := chars_startsWord r.first
    have shown : r.text.toList = c :: (cs ++ ':' :: r.last.chars) := by rw [range_chars, split]; rfl
    exact comesFirst_of_scanWord ⟨c, _, shown, starts⟩ (scanWord_range printable closes)
  | external external => exact external_comesFirst printable closes

end Token
end PageCalc
