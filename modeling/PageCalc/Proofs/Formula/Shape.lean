import PageCalc.Proofs.Formula.Scanning

/-!
# Words shaped like addresses

The scanner tells addresses from names by the shape of a word, before anything is read. Every address has the
shape, so that none is taken for a name. A word of the shape that is no address would lie outside the largest
grid, and is refused for that alone.
-/

namespace PageCalc

open Text

variable {word letters digits rest : List Char} {a : Address}

namespace Address

/-! ## Reading by parts -/

/-- What reading a word with the given letters and digits gives: the address that they stand for, or else the
fault of a column or a row outside the largest grid. Rows count from 1, and columns are looked at first. -/
inductive Verdict (letters digits word : List Char) : Except GridError Address → Prop where
  | inside {a : Address} (inBounds : a.InBounds) (isColumn : lettersValue letters = a.column + 1)
      (isRow : Nat.ofDigitChars 10 digits 0 = a.row + 1) : Verdict letters digits word (.ok a)
  | columnBeyond (beyond : maxColumns < lettersValue letters) :
      Verdict letters digits word (.error (.columnOutOfBounds (upperAscii (String.ofList letters))))
  | rowZero (columnInside : lettersValue letters ≤ maxColumns) (zero : Nat.ofDigitChars 10 digits 0 = 0) :
      Verdict letters digits word
        (.error (.invalidAddress s!"row number must be >= 1 in '{String.ofList word}'"))
  | rowBeyond {number : Nat} (columnInside : lettersValue letters ≤ maxColumns)
      (isNumber : Nat.ofDigitChars 10 digits 0 = number) (beyond : maxRows < number)
      (readable : number < rowNumberLimit) :
      Verdict letters digits word (.error (.rowOutOfBounds (number - 1) (maxRows - 1)))
  | rowFarBeyond (columnInside : lettersValue letters ≤ maxColumns)
      (beyond : rowNumberLimit ≤ Nat.ofDigitChars 10 digits 0) :
      Verdict letters digits word (.error (.invalidAddress s!"invalid row number in '{String.ofList word}'"))

/-- Letters are refused for no other reason than their value. -/
theorem readLetters_fault {text : String} {sum : Nat} {fault : GridError} (areLetters : ∀ c ∈ letters, c.isAlpha)
    (refused : readLetters text sum letters = .error fault) : fault = .columnOutOfBounds (upperAscii text) := by
  induction letters generalizing sum with
  | nil => cases refused
  | cons c letters ih =>
    obtain ⟨isLetter, others⟩ := List.forall_mem_cons.1 areLetters
    simp only [readLetters, isLetter, Bool.not_true, Bool.false_eq_true, if_false] at refused
    split at refused
    · cases refused
      rfl
    · exact ih others refused

theorem columnOfLetters_of_alpha (someLetters : letters ≠ []) (areLetters : ∀ c ∈ letters, c.isAlpha) :
    columnOfLetters (String.ofList letters) =
      if lettersValue letters ≤ maxColumns then .ok (lettersValue letters - 1)
      else .error (.columnOutOfBounds (upperAscii (String.ofList letters))) := by
  have positive := lettersValue_pos someLetters areLetters
  split
  · exact columnOfLetters_eq_ok_iff.2 ⟨someLetters, areLetters, by omega, by omega⟩
  · next beyond =>
    cases isColumn : columnOfLetters (String.ofList letters) with
    | ok column =>
      obtain ⟨-, -, isValue, inside⟩ := columnOfLetters_eq_ok_iff.1 isColumn
      omega
    | error fault =>
      have filled : (String.ofList letters).isEmpty = false := by simp [someLetters]
      rw [columnOfLetters, filled, String.toList_ofList] at isColumn
      cases found : readLetters (String.ofList letters) 0 letters with
      | ok value => rw [found] at isColumn; cases isColumn
      | error faultToo =>
        rw [found] at isColumn
        cases isColumn
        rw [readLetters_fault areLetters found]

theorem readRow_of_digits {shown : String} {number : Nat} (someDigits : digits ≠ [])
    (areDigits : ∀ c ∈ digits, c.isDigit) (isNumber : Nat.ofDigitChars 10 digits 0 = number) :
    readRow shown digits =
      if rowNumberLimit ≤ number then .error (.invalidAddress s!"invalid row number in '{shown}'")
      else if number = 0 then .error (.invalidAddress s!"row number must be >= 1 in '{shown}'")
      else if maxRows < number then .error (.rowOutOfBounds (number - 1) (maxRows - 1))
      else .ok (number - 1) := by
  have filled : digits.isEmpty = false := List.isEmpty_eq_false_iff.2 someDigits
  have all : digits.all Char.isDigit = true := List.all_eq_true.2 areDigits
  simp only [readRow, filled, all, Number.Decimal.digitsValue, isNumber, Bool.not_true, Bool.false_eq_true, if_false]

theorem verdict_of_shaped (shaped : Shaped letters digits word) :
    Verdict letters digits word (ofText (String.ofList word)) := by
  have isBody : trim (String.ofList word).toList = word := by
    have trimmed : trim ([] ++ (word ++ [])) = word := trim_append nofun nofun shaped.noBlank
    rw [List.append_nil, List.nil_append] at trimmed
    rw [String.toList_ofList, trimmed]
  have shapedBody : Shaped letters digits (trim (String.ofList word).toList) := isBody.symm ▸ shaped
  have read := ofText_of_shaped shapedBody
  cases shaped with
  | parts _ someLetters areLetters _ someDigits areDigits =>
    have positive := lettersValue_pos someLetters areLetters
    rw [read, isBody, columnOfLetters_of_alpha someLetters areLetters, readRow_of_digits someDigits areDigits rfl]
    by_cases columnInside : lettersValue letters ≤ maxColumns
    · rw [if_pos columnInside]
      split
      · next beyond => exact .rowFarBeyond columnInside beyond
      · next readable =>
        split
        · next zero => exact .rowZero columnInside zero
        · next some =>
          split
          · next beyond => exact .rowBeyond columnInside rfl beyond (Nat.lt_of_not_le readable)
          · next inside =>
            refine .inside ⟨?_, ?_⟩ ?_ ?_ <;> dsimp only <;> omega
    · rw [if_neg columnInside]
      exact .columnBeyond (Nat.lt_of_not_le columnInside)

/-- A word without blanks that is read as an address has the shape of one. -/
theorem exists_shaped_of_ofText (noBlank : ∀ c ∈ word, isBlank c = false)
    (read : ofText (String.ofList word) = .ok a) : ∃ letters digits, Shaped letters digits word := by
  have spells := spells_of_ofText read
  rw [String.toList_ofList] at spells
  cases spells with
  | @parts before _ letters _ digits after _ blankBefore blankAfter columnMarker someLetters areLetters rowMarker
      someDigits areDigits =>
    have nothing {part : List Char} (blank : ∀ c ∈ part, isBlank c) (notBlank : ∀ c ∈ part, isBlank c = false) :
        part = [] :=
      List.eq_nil_iff_forall_not_mem.2 fun c member => Bool.eq_false_iff.1 (notBlank c member) (blank c member)
    obtain ⟨before_eq, inner⟩ := List.forall_mem_append.1 noBlank
    rw [nothing blankBefore before_eq, nothing blankAfter (List.forall_mem_append.1 inner).2, List.append_nil,
      List.nil_append]
    exact ⟨letters, digits, .parts columnMarker someLetters areLetters rowMarker someDigits areDigits⟩

end Address

namespace Token

/-! ## The shape check -/

theorem isCellShaped_iff : isCellShaped word ↔ ∃ letters digits, Address.Shaped letters digits word := by
  refine ⟨fun shaped => ?_, fun ⟨_, _, shaped⟩ => isCellShaped_of_shaped shaped⟩
  unfold isCellShaped at shaped
  obtain ⟨columnMark, columnMarker, isWord⟩ := Address.exists_marker word
  obtain ⟨rowMark, rowMarker, isRest⟩ :=
    Address.exists_marker ((Address.dropMarker word).dropWhile Char.isAlpha)
  have isUnmarked := List.takeWhile_append_dropWhile (p := Char.isAlpha) (l := Address.dropMarker word)
  rw [isRest] at isUnmarked
  rw [← isUnmarked] at isWord
  simp only [Bool.and_eq_true, Bool.not_eq_true', List.isEmpty_eq_false_iff, List.all_eq_true] at shaped
  obtain ⟨⟨someLetters, someDigits⟩, areDigits⟩ := shaped
  rw [isWord]
  exact ⟨_, _, .parts columnMarker someLetters (fun _ => List.mem_takeWhile_imp) rowMarker someDigits areDigits⟩

/-- The shape check and reading agree on every word. What has not the shape is no address, so that an address
is scanned as one unless it comes directly before a parenthesis, and what has the shape is read as an address
or refused for the place in the grid that it would have. -/
theorem isCellShaped_agrees (isWord : ∀ c ∈ word, isWordChar c) :
    (isCellShaped word = false → ∃ fault, Address.ofText (String.ofList word) = .error fault) ∧
    (∀ a rest, Address.ofText (String.ofList word) = .ok a → EndsRun isWordChar rest → rest.head? ≠ some '(' →
      scanWord (word ++ rest) = scanRange a (String.ofList word) rest) ∧
    (isCellShaped word = true → ∃ letters digits, Address.Shaped letters digits word ∧
      Address.Verdict letters digits word (Address.ofText (String.ofList word))) := by
  have noBlank (c : Char) (member : c ∈ word) : isBlank c = false := (isWordChar_spec (isWord c member)).1
  refine ⟨fun unshaped => ?_, fun a rest read ends noCall => ?_, fun shaped => ?_⟩
  · cases read : Address.ofText (String.ofList word) with
    | error fault => exact ⟨fault, rfl⟩
    | ok a =>
      rw [isCellShaped_iff.2 (Address.exists_shaped_of_ofText noBlank read)] at unshaped
      cases unshaped
  · obtain ⟨letters, digits, shaped⟩ := Address.exists_shaped_of_ofText noBlank read
    exact scanWord_of_shaped shaped isWord read ends noCall
  · obtain ⟨letters, digits, shaped⟩ := isCellShaped_iff.1 shaped
    exact ⟨letters, digits, shaped, Address.verdict_of_shaped shaped⟩

/-- One column past the last one there is a word of the right shape that is no address. -/
theorem isCellShaped_agrees_pastLast : (∀ c ∈ ['$', 'x', 'f', 'e', '$', '1'], isWordChar c) ∧
    ∃ letters digits, Address.Shaped letters digits ['$', 'x', 'f', 'e', '$', '1'] ∧
      Address.Verdict letters digits ['$', 'x', 'f', 'e', '$', '1'] (.error (.columnOutOfBounds "XFE")) := by
  have isWord : ∀ c ∈ ['$', 'x', 'f', 'e', '$', '1'], isWordChar c :=
    List.all_eq_true.1 (by decide)
  have read : Address.ofText (String.ofList ['$', 'x', 'f', 'e', '$', '1']) =
      .error (.columnOutOfBounds "XFE") := by
    decide +kernel
  refine ⟨isWord, ?_⟩
  rw [← read]
  exact (isCellShaped_agrees isWord).2.2 (by decide)

end Token
end PageCalc
