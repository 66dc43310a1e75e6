import Mathlib.Data.Nat.Digits.Defs
import PageCalc.Grid.Address
import PageCalc.Proofs.Text.Cut

/-!
# Reading addresses

A text is read as an address exactly if it consists of letters and digits that stand for a column and a row,
each with or without a marker before it, and of blanks around them. The text of an address inside the
largest grid is such a text.
-/

namespace PageCalc.Address

open Text

variable {a b : Address} {text shown : String} {cs letters digits mark rest : List Char} {c : Char}

/-! ## Characters -/

/-- The letters of columns in their order. -/
def alphabet : List Char := "ABCDEFGHIJKLMNOPQRSTUVWXYZ".toList

theorem alpha_spec (alpha : c.isAlpha) :
    isBlank c = false ∧ c ≠ '$' ∧ letterValue c = alphabet.idxOf c.toUpper + 1 := by
  have ascii : c.toNat < 128 := toNat_lt_of_isAlphanum (by simp [Char.isAlphanum, alpha])
  revert alpha
  refine forall_ascii c ascii ?_
  decide +kernel

theorem digit_spec (digit : c.isDigit) :
    c.isAlpha = false ∧ isBlank c = false ∧ c ≠ '$' ∧ c.toUpper = c := by
  have ascii : c.toNat < 128 := toNat_lt_of_isAlphanum (by simp [Char.isAlphanum, digit])
  revert digit
  refine forall_ascii c ascii ?_
  decide +kernel

/-! ## Letters -/

/-- The number that letters stand for in bijective base 26, whose digits are 1 for A to 26 for Z. -/
def lettersValue (letters : List Char) : Nat :=
  Nat.ofDigits 26 (letters.reverse.map fun c => alphabet.idxOf c.toUpper + 1)

theorem lettersValue_cons (alpha : c.isAlpha) (cs : List Char) :
    lettersValue (c :: cs) = letterValue c * 26 ^ cs.length + lettersValue cs := by
  rw [(alpha_spec alpha).2.2, lettersValue, List.reverse_cons, List.map_append, Nat.ofDigits_append,
    List.map_singleton, Nat.ofDigits_singleton, List.length_map, List.length_reverse, lettersValue]
  ring

theorem lettersValue_concat (alpha : c.isAlpha) (cs : List Char) :
    lettersValue (cs ++ [c]) = lettersValue cs * 26 + letterValue c := by
  rw [(alpha_spec alpha).2.2, lettersValue, List.reverse_append, List.reverse_singleton, List.singleton_append,
    List.map_cons, Nat.ofDigits_cons, lettersValue]
  ring

theorem lettersValue_pos (nonempty : letters ≠ []) (alpha : ∀ c ∈ letters, c.isAlpha) :
    0 < lettersValue letters := by
  obtain ⟨c, cs, rfl⟩ := List.exists_cons_of_ne_nil nonempty
  rw [lettersValue_cons (alpha c List.mem_cons_self)]
  have : 0 < letterValue c * 26 ^ cs.length := Nat.mul_pos (Nat.succ_pos _) (Nat.pow_pos (by decide))
  omega

/-- Letters are read as digits are, each one on top of those before it. That reading stops as soon as the
value is out of bounds does not matter, since the value never gets smaller. -/
theorem readLetters_eq_ok_iff {letters : String} {sum value : Nat} (small : sum ≤ maxColumns) :
    readLetters letters sum cs = .ok value ↔ (∀ c ∈ cs, c.isAlpha) ∧
      value = sum * 26 ^ cs.length + lettersValue cs ∧ value ≤ maxColumns := by
  induction cs generalizing sum with
  | nil =>
    rw [readLetters, Except.ok.injEq]
    simp only [List.not_mem_nil, false_imp_iff, implies_true, true_and, List.length_nil, Nat.pow_zero,
      Nat.mul_one]
    show sum = value ↔ value = sum + 0 ∧ value ≤ maxColumns
    omega
  | cons c cs ih =>
    rw [readLetters, List.forall_mem_cons]
    cases alpha : c.isAlpha with
    | false =>
      exact iff_of_false nofun fun ⟨⟨isAlpha, _⟩, _⟩ => by cases isAlpha
    | true =>
      have value_eq : sum * 26 ^ (c :: cs).length + lettersValue (c :: cs) =
          (sum * 26 + letterValue c) * 26 ^ cs.length + lettersValue cs := by
        rw [lettersValue_cons alpha, List.length_cons]
        ring
      simp only [value_eq, Bool.not_true, Bool.false_eq_true, if_false, true_and]
      split
      · next outside =>
        refine iff_of_false nofun fun ⟨_, same, inside⟩ => ?_
        have power : 0 < 26 ^ cs.length := Nat.pow_pos (by decide)
        have grown := Nat.le_mul_of_pos_right (sum * 26 + letterValue c) power
        omega
      · next inside => exact ih (Nat.not_lt.1 inside)

theorem columnOfLetters_eq_ok_iff {column : Nat} : columnOfLetters (String.ofList letters) = .ok column ↔
    letters ≠ [] ∧ (∀ c ∈ letters, c.isAlpha) ∧ lettersValue letters = column + 1 ∧ column < maxColumns := by
  unfold columnOfLetters
  split
  · next empty =>
    refine iff_of_false nofun fun read => read.1 ?_
    simpa [String.isEmpty_iff] using empty
  · next filled =>
    have nonempty : letters ≠ [] := by simpa [String.isEmpty_iff] using filled
    rw [String.toList_ofList]
    constructor
    · intro read
      cases found : readLetters (String.ofList letters) 0 letters with
      | error fault => rw [found] at read; cases read
      | ok value =>
        rw [found] at read
        have isColumn : value - 1 = column := Except.ok.inj read
        obtain ⟨alpha, isValue, inside⟩ := (readLetters_eq_ok_iff (Nat.zero_le _)).1 found
        have positive := lettersValue_pos nonempty alpha
        refine ⟨nonempty, alpha, ?_, ?_⟩ <;> omega
    · rintro ⟨-, alpha, isValue, inside⟩
      have found : readLetters (String.ofList letters) 0 letters = .ok (column + 1) :=
        (readLetters_eq_ok_iff (Nat.zero_le _)).2 ⟨alpha, by omega, inside⟩
      rw [found]
      rfl

/-! ## Rows -/

theorem readRow_eq_ok_iff {row : Nat} : readRow shown digits = .ok row ↔
    digits ≠ [] ∧ (∀ c ∈ digits, c.isDigit) ∧ Nat.ofDigitChars 10 digits 0 = row + 1 ∧ row < maxRows := by
  have limit : maxRows < rowNumberLimit := by decide
  unfold readRow Number.Decimal.digitsValue
  dsimp only
  split
  · next empty => exact iff_of_false nofun fun read => read.1 (List.isEmpty_iff.1 empty)
  · next filled =>
    split
    · next other =>
      refine iff_of_false nofun fun read => ?_
      rw [List.all_eq_true.2 read.2.1] at other
      cases other
    · next areDigits =>
      have nonempty : digits ≠ [] := by simpa using filled
      have areDigits : ∀ c ∈ digits, c.isDigit := by simpa using areDigits
      generalize Nat.ofDigitChars 10 digits 0 = number
      -- Numbers that are too large, or zero, are not those of rows.
      split
      · exact iff_of_false nofun fun ⟨_, _, _, _⟩ => by omega
      · split
        · exact iff_of_false nofun fun ⟨_, _, _, _⟩ => by omega
        · split
          · exact iff_of_false nofun fun ⟨_, _, _, _⟩ => by omega
          · rw [Except.ok.injEq]
            refine ⟨fun isRow => ⟨nonempty, areDigits, ?_, ?_⟩, fun ⟨_, _, _, _⟩ => ?_⟩ <;> omega

/-! ## Markers -/

/-- A marker of an absolute row or column, or nothing. -/
def IsMarker (cs : List Char) : Prop := cs = [] ∨ cs = ['$']

theorem dropMarker_of_not {cs : List Char} (other : ∀ c ∈ cs, c ≠ '$') : dropMarker cs = cs := by
  cases cs with
  | nil => rfl
  | cons c cs =>
    unfold dropMarker
    split
    · next rest same => cases same; exact absurd rfl (other '$' List.mem_cons_self)
    · rfl

theorem dropMarker_append (isMarker : IsMarker mark) (unmarked : dropMarker rest = rest) :
    dropMarker (mark ++ rest) = rest := by
  rcases isMarker with rfl | rfl
  · exact unmarked
  · rfl

theorem exists_marker (cs : List Char) : ∃ mark, IsMarker mark ∧ cs = mark ++ dropMarker cs := by
  unfold dropMarker
  split
  · exact ⟨['$'], .inr rfl, rfl⟩
  · exact ⟨[], .inl rfl, rfl⟩

/-! ## Shapes -/

/-- A text of the shape of an address with the given letters and digits, each with or without a marker before
them. The letters need not stand for a column of the grid, nor the digits for a row. -/
inductive Shaped (letters digits : List Char) : List Char → Prop where
  | parts {columnMark rowMark : List Char} (columnMarker : IsMarker columnMark) (someLetters : letters ≠ [])
      (areLetters : ∀ c ∈ letters, c.isAlpha) (rowMarker : IsMarker rowMark) (someDigits : digits ≠ [])
      (areDigits : ∀ c ∈ digits, c.isDigit) :
      Shaped letters digits (columnMark ++ (letters ++ (rowMark ++ digits)))

theorem Shaped.letters_ne_nil (shaped : Shaped letters digits cs) : letters ≠ [] := by
  cases shaped with
  | parts _ someLetters => exact someLetters

/-- The parts of a shape are found again: letters are no markers, and markers and digits are no letters. -/
theorem Shaped.found (shaped : Shaped letters digits cs) :
    (dropMarker cs).takeWhile Char.isAlpha = letters ∧
      dropMarker ((dropMarker cs).dropWhile Char.isAlpha) = digits := by
  cases shaped with
  | @parts columnMark rowMark columnMarker someLetters areLetters rowMarker _ areDigits =>
    have unmarked : dropMarker (columnMark ++ (letters ++ (rowMark ++ digits))) =
        letters ++ (rowMark ++ digits) := by
      refine dropMarker_append columnMarker ?_
      obtain ⟨c, cs, rfl⟩ := List.exists_cons_of_ne_nil someLetters
      unfold dropMarker
      split
      · next same =>
        cases same
        exact absurd rfl (alpha_spec (areLetters _ List.mem_cons_self)).2.1
      · rfl
    have ends : EndsRun Char.isAlpha (rowMark ++ digits) := by
      intro c first
      rcases rowMarker with rfl | rfl
      · exact (digit_spec (areDigits c (List.mem_of_head? first))).1
      · cases first
        rfl
    rw [unmarked]
    refine ⟨takeWhile_run areLetters ends, ?_⟩
    rw [dropWhile_run areLetters ends]
    exact dropMarker_append rowMarker (dropMarker_of_not fun c member => (digit_spec (areDigits c member)).2.2.1)

theorem Shaped.noBlank (shaped : Shaped letters digits cs) : ∀ c ∈ cs, isBlank c = false := by
  have markerNotBlank {mark : List Char} (isMarker : IsMarker mark) {c : Char} (member : c ∈ mark) :
      isBlank c = false := by
    rcases isMarker with rfl | rfl
    · cases member
    · rw [List.mem_singleton.1 member]
      rfl
  cases shaped with
  | parts columnMarker _ areLetters rowMarker _ areDigits =>
    intro c member
    simp only [List.mem_append] at member
    rcases member with inMark | inLetters | inMark | inDigits
    · exact markerNotBlank columnMarker inMark
    · exact (alpha_spec (areLetters c inLetters)).1
    · exact markerNotBlank rowMarker inMark
    · exact (digit_spec (areDigits c inDigits)).2.1

/-- A text of the shape of an address is read by its letters and its digits. -/
theorem ofText_of_shaped (shaped : Shaped letters digits (trim text.toList)) :
    ofText text = do
      let column ← columnOfLetters (String.ofList letters)
      let row ← readRow (String.ofList (trim text.toList)) digits
      return ⟨row, column⟩ := by
  obtain ⟨foundLetters, foundDigits⟩ := shaped.found
  have someLetters := shaped.letters_ne_nil
  have filled : trim text.toList ≠ [] := by
    intro empty
    rw [empty] at foundLetters
    exact someLetters foundLetters.symm
  unfold ofText
  simp only [foundLetters, foundDigits, List.isEmpty_iff, filled, someLetters, if_false]

/-! ## Whole texts -/

/-- A text that names an address: letters and digits, each with or without a marker before it, and blanks
around them. They stand for a column and a row of the largest grid, counted from 1. -/
inductive Spells : List Char → Address → Prop where
  | parts {before columnMark letters rowMark digits after : List Char} {a : Address}
      (blankBefore : ∀ c ∈ before, isBlank c) (blankAfter : ∀ c ∈ after, isBlank c)
      (columnMarker : IsMarker columnMark) (someLetters : letters ≠ []) (areLetters : ∀ c ∈ letters, c.isAlpha)
      (rowMarker : IsMarker rowMark) (someDigits : digits ≠ []) (areDigits : ∀ c ∈ digits, c.isDigit)
      (isColumn : lettersValue letters = a.column + 1) (columnBound : a.column + 1 ≤ maxColumns)
      (isRow : Nat.ofDigitChars 10 digits 0 = a.row + 1) (rowBound : a.row + 1 ≤ maxRows) :
      Spells (before ++ (columnMark ++ (letters ++ (rowMark ++ digits)) ++ after)) a

theorem Spells.inBounds (spells : Spells cs a) : a.InBounds := by
  cases spells with
  | parts _ _ _ _ _ _ _ _ _ columnBound _ rowBound => exact ⟨rowBound, columnBound⟩

theorem ofText_of_spells (spells : Spells text.toList a) : ofText text = .ok a := by
  generalize isText : text.toList = cs at spells
  cases spells with
  | parts blankBefore blankAfter columnMarker someLetters areLetters rowMarker someDigits areDigits isColumn
      columnBound isRow rowBound =>
    have shaped := Shaped.parts columnMarker someLetters areLetters rowMarker someDigits areDigits
    have isBody := trim_append blankBefore blankAfter shaped.noBlank
    rw [← isText] at isBody
    rw [← isBody] at shaped
    rw [ofText_of_shaped shaped, columnOfLetters_eq_ok_iff.2 ⟨someLetters, areLetters, isColumn, columnBound⟩,
      readRow_eq_ok_iff.2 ⟨someDigits, areDigits, isRow, rowBound⟩]
    rfl

theorem spells_of_ofText (read : ofText text = .ok a) : Spells text.toList a := by
  unfold ofText at read
  dsimp only at read
  split at read
  · cases read
  split at read
  · cases read
  -- Whatever the text is, it consists of these parts; what is read says that they are good.
  obtain ⟨before, after, whole, blankBefore, blankAfter⟩ := exists_trim text.toList
  generalize trim text.toList = body at *
  obtain ⟨columnMark, columnMarker, isBody⟩ := exists_marker body
  obtain ⟨rowMark, rowMarker, isRest⟩ := exists_marker ((dropMarker body).dropWhile Char.isAlpha)
  have isUnmarked := List.takeWhile_append_dropWhile (p := Char.isAlpha) (l := dropMarker body)
  rw [isRest] at isUnmarked
  rw [← isUnmarked] at isBody
  generalize (dropMarker body).takeWhile Char.isAlpha = letters,
    dropMarker ((dropMarker body).dropWhile Char.isAlpha) = digits at *
  cases isColumn : columnOfLetters (String.ofList letters) with
  | error fault => rw [isColumn] at read; cases read
  | ok column =>
    cases isRow : readRow (String.ofList body) digits with
    | error fault => rw [isColumn, isRow] at read; cases read
    | ok row =>
      rw [isColumn, isRow] at read
      cases read
      obtain ⟨someLetters, areLetters, lettersColumn, columnBound⟩ := columnOfLetters_eq_ok_iff.1 isColumn
      obtain ⟨someDigits, areDigits, digitsRow, rowBound⟩ := readRow_eq_ok_iff.1 isRow
      rw [whole, isBody]
      exact .parts blankBefore blankAfter columnMarker someLetters areLetters rowMarker someDigits areDigits
        lettersColumn columnBound digitsRow rowBound

theorem ofText_eq_ok_iff : ofText text = .ok a ↔ Spells text.toList a := ⟨spells_of_ofText, ofText_of_spells⟩

/-- Every address that is read lies in the largest possible grid. -/
theorem inBounds_of_ofText (read : ofText text = .ok a) : a.InBounds := (spells_of_ofText read).inBounds

/-! ## The text of an address -/

theorem letter_spec : ∀ place < 26, (letter place).isAlpha ∧ letterValue (letter place) = place + 1 := by
  decide

theorem columnChars_ne_nil (column : Nat) : columnChars column ≠ [] := by
  rw [columnChars]
  split <;> simp

theorem isAlpha_of_mem_columnChars {column : Nat} (member : c ∈ columnChars column) : c.isAlpha := by
  fun_induction columnChars column with
  | case1 column small =>
    rw [List.mem_singleton.1 member]
    exact (letter_spec column small).1
  | case2 column large ih =>
    rcases List.mem_append.1 member with earlier | last
    · exact ih earlier
    · rw [List.mem_singleton.1 last]
      exact (letter_spec _ (Nat.mod_lt _ (by decide))).1

theorem lettersValue_columnChars (column : Nat) : lettersValue (columnChars column) = column + 1 := by
  fun_induction columnChars column with
  | case1 column small =>
    obtain ⟨alpha, isPlace⟩ := letter_spec column small
    have single := lettersValue_concat alpha []
    rw [isPlace] at single
    exact single.trans (Nat.zero_add _)
  | case2 column large ih =>
    obtain ⟨alpha, isPlace⟩ := letter_spec (column % 26) (Nat.mod_lt _ (by decide))
    rw [lettersValue_concat alpha, ih, isPlace]
    omega

theorem isDigit_of_mem_row {row : Nat} (member : c ∈ Nat.toDigits 10 row) : c.isDigit :=
  Nat.isDigit_of_mem_toDigits (by decide) (by decide) member

theorem spells_chars (inBounds : a.InBounds) : Spells a.chars a := by
  have spells : Spells ([] ++ ([] ++ (columnChars a.column ++ ([] ++ Nat.toDigits 10 (a.row + 1))) ++ [])) a :=
    .parts (by simp) (by simp) (.inl rfl) (columnChars_ne_nil _) (fun _ => isAlpha_of_mem_columnChars)
      (.inl rfl) Nat.toDigits_ne_nil (fun _ => isDigit_of_mem_row) (lettersValue_columnChars _) inBounds.2
      Nat.ofDigitChars_ten_toDigits inBounds.1
  simpa [chars] using spells

/-- Reading the text of an address gives the address. -/
theorem ofText_text (inBounds : a.InBounds) : ofText a.text = .ok a := by
  refine ofText_of_spells ?_
  rw [Address.text, String.toList_ofList]
  exact spells_chars inBounds

theorem shaped_chars (a : Address) : Shaped (columnChars a.column) (Nat.toDigits 10 (a.row + 1)) a.chars :=
  .parts (.inl rfl) (columnChars_ne_nil _) (fun _ => isAlpha_of_mem_columnChars) (.inl rfl) Nat.toDigits_ne_nil
    fun _ => isDigit_of_mem_row

/-- A text is read as an address exactly if it names that address, and else with an error; whatever letters
there are, no sum of their values gets large before it is refused. An address in the largest grid is read
from its own text, so no two of them have the same text. -/
theorem ofText_exact :
    (∀ text a, ofText text = .ok a ↔ Spells text.toList a) ∧
    (∀ text, (∀ a, ¬ Spells text.toList a) → ∃ fault, ofText text = .error fault) ∧
    (∀ letters cs c sum, readLetters letters 0 cs = .ok sum → c.isAlpha → sum * 26 + letterValue c < 2 ^ 32) ∧
    (∀ a : Address, a.InBounds → ofText a.text = .ok a) ∧
    (∀ a b : Address, a.InBounds → b.InBounds → a.text = b.text → a = b) := by
  refine ⟨fun text a => ofText_eq_ok_iff, fun text none => ?_,
    fun letters cs c sum read alpha => ?_, fun a => ofText_text, fun a b inBounds inBoundsToo same => ?_⟩
  · cases read : ofText text with
    | error fault => exact ⟨fault, rfl⟩
    | ok a => exact absurd (spells_of_ofText read) (none a)
  · have small := ((readLetters_eq_ok_iff (Nat.zero_le _)).1 read).2.2
    have place : alphabet.idxOf c.toUpper ≤ alphabet.length := List.idxOf_le_length
    have length : alphabet.length = 26 := by decide
    have bound : maxColumns = 16384 := rfl
    rw [(alpha_spec alpha).2.2]
    omega
  · have read := ofText_text inBounds
    rw [same, ofText_text inBoundsToo] at read
    exact (Except.ok.inj read).symm

example : ofText " $xFd$0001048576\n" = .ok ⟨1048575, 16383⟩ := by decide +kernel

end PageCalc.Address
