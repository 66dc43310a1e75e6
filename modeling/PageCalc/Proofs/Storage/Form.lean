import PageCalc.Proofs.Collection
import PageCalc.Proofs.Grid.Address
import PageCalc.Proofs.Grid.Typing
import PageCalc.Proofs.Text.Cut
import PageCalc.Storage.Form

/-!
# Reading a stored sheet back

Every form of a sheet is read as a sheet of the same size, whose cells hold what the form shows for them.
The raw form is therefore read as that very sheet. So is every other layout of the lines of the raw form,
with other line ends and with empty lines anywhere.
-/

namespace PageCalc

/-! ## Layouts of lines -/

/-- Lines end in a line feed, or in a carriage return and a line feed. -/
def IsLineEnd (cs : List Char) : Prop := cs = ['\n'] ∨ cs = ['\r', '\n']

/-- A text consists of the given lines, each with an end of its own, and of empty lines that
stand anywhere before, between and behind them. -/
inductive Laid : List (List Char) → List Char → Prop
  | nil : Laid [] []
  | line {lines : List (List Char)} {cs ending : List Char} (line : List Char)
      (isEnd : IsLineEnd ending) (rest : Laid lines cs) : Laid (line :: lines) (line ++ (ending ++ cs))
  | blank {lines : List (List Char)} {cs ending : List Char}
      (isEnd : IsLineEnd ending) (rest : Laid lines cs) : Laid lines (ending ++ cs)

/-- The second text has the lines of the first one in another layout. Every line of the first
text ends in a line feed. -/
def Relaid (text other : String) : Prop :=
  ∃ lines : List (List Char), (∀ line ∈ lines, '\n' ∉ line) ∧
    text.toList = lines.flatMap (· ++ ['\n']) ∧ Laid lines other.toList

theorem laid_flatMap (lines : List (List Char)) : Laid lines (lines.flatMap (· ++ ['\n'])) := by
  induction lines with
  | nil => exact .nil
  | cons line lines ih =>
    rw [List.flatMap_cons, List.append_assoc]
    exact .line line (.inl rfl) ih

theorem isLineFeed_of_ne {c : Char} (other : c ≠ '\n') : (c == '\n') = false := beq_false_of_ne other

theorem pieces_line {line rest : List Char} (unbroken : '\n' ∉ line) :
    Text.pieces (· == '\n') (line ++ '\n' :: rest) = line :: Text.pieces (· == '\n') rest :=
  Text.pieces_append (fun _ member => isLineFeed_of_ne fun same => unbroken (same ▸ member)) rfl

/-- The lines of a text are determined by it. -/
theorem pieces_flatMap {lines : List (List Char)} (unbroken : ∀ line ∈ lines, '\n' ∉ line) :
    Text.pieces (· == '\n') (lines.flatMap (· ++ ['\n'])) = lines ++ [[]] := by
  induction lines with
  | nil => rfl
  | cons line lines ih =>
    rw [List.forall_mem_cons] at unbroken
    rw [List.flatMap_cons, List.append_assoc, List.singleton_append, pieces_line unbroken.1,
      ih unbroken.2]
    rfl

theorem eq_of_flatMap_eq {lines others : List (List Char)} (unbroken : ∀ line ∈ lines, '\n' ∉ line)
    (unbroken' : ∀ line ∈ others, '\n' ∉ line)
    (same : lines.flatMap (· ++ ['\n']) = others.flatMap (· ++ ['\n'])) : lines = others := by
  have pieces := congrArg (Text.pieces (· == '\n')) same
  rw [pieces_flatMap unbroken, pieces_flatMap unbroken'] at pieces
  exact List.append_cancel_right pieces

namespace Sheet

/-- A line that is read as it stands, in whatever layout. -/
structure Legible (line : List Char) : Prop where
  nonempty : line ≠ []
  unbroken : '\n' ∉ line
  unreturned : '\r' ∉ line

theorem dropReturn_of_not_mem {line : List Char} (unreturned : '\r' ∉ line) : dropReturn line = line := by
  unfold dropReturn
  rw [if_neg]
  exact fun last => unreturned (List.mem_of_getLast? last)

theorem dropReturn_append (line : List Char) : dropReturn (line ++ ['\r']) = line := by
  unfold dropReturn
  rw [if_pos List.getLast?_concat, List.dropLast_concat]

/-- The lines of a text that are not empty, without their ends. -/
def filledLines (cs : List Char) : List (List Char) :=
  ((Text.pieces (· == '\n') cs).map dropReturn).filter fun line => !line.isEmpty

theorem map_fst_numberedLines (cs : List Char) : (numberedLines cs).map Prod.fst = filledLines cs := by
  have commute := List.filter_map (f := Prod.fst) (p := fun line : List Char => !line.isEmpty)
    (l := ((Text.pieces (· == '\n') cs).map dropReturn).zipIdx 1)
  rw [List.zipIdx_map_fst] at commute
  exact commute.symm

theorem filledLines_line {ending : List Char} (line cs : List Char) (unbroken : '\n' ∉ line)
    (unreturned : '\r' ∉ line) (isEnd : IsLineEnd ending) :
    filledLines (line ++ (ending ++ cs)) = [line].filter (fun line => !line.isEmpty) ++ filledLines cs := by
  have one (dropped : List Char) (unbroken' : '\n' ∉ dropped) (same : dropReturn dropped = line) :
      filledLines (dropped ++ '\n' :: cs) =
        [line].filter (fun line => !line.isEmpty) ++ filledLines cs := by
    unfold filledLines
    rw [pieces_line unbroken', List.map_cons, same, ← List.filter_append, List.singleton_append]
  rcases isEnd with rfl | rfl
  · exact one line unbroken (dropReturn_of_not_mem unreturned)
  · have whole := one (line ++ ['\r']) (by simp [unbroken]) (dropReturn_append line)
    rwa [List.append_assoc] at whole

theorem filledLines_of_laid {lines : List (List Char)} {cs : List Char} (laid : Laid lines cs)
    (legible : ∀ line ∈ lines, Legible line) : filledLines cs = lines := by
  induction laid with
  | nil => rfl
  | line line isEnd _ ih =>
    rw [List.forall_mem_cons] at legible
    obtain ⟨nonempty, unbroken, unreturned⟩ := legible.1
    rw [filledLines_line _ _ unbroken unreturned isEnd, ih legible.2,
      List.filter_cons_of_pos (by simp [nonempty])]
    rfl
  | @blank _ cs _ isEnd _ ih =>
    have whole := filledLines_line [] cs List.not_mem_nil List.not_mem_nil isEnd
    rwa [ih legible] at whole

/-! ## The lines of a form -/

theorem not_mem_chars {c : Char} (notAlpha : c.isAlpha = false) (notDigit : c.isDigit = false) (a : Address) :
    c ∉ a.chars := by
  intro member
  rcases List.mem_append.1 member with inColumn | inRow
  · rw [Address.isAlpha_of_mem_columnChars inColumn] at notAlpha
    cases notAlpha
  · rw [Address.isDigit_of_mem_row inRow] at notDigit
    cases notDigit

theorem not_mem_toDigits {c : Char} (notDigit : c.isDigit = false) (n : Nat) : c ∉ Nat.toDigits 10 n := by
  intro member
  rw [Address.isDigit_of_mem_row member] at notDigit
  cases notDigit

theorem mem_headerLine {sheet : Sheet} {c : Char} (member : c ∈ sheet.headerLine) :
    c ∈ headerStart ++ " rows=".toList ++ " cols=".toList ∨ c.isDigit := by
  simp only [headerLine, List.mem_append] at member ⊢
  rcases member with (((inStart | inRows) | isDigit) | inColumns) | isDigit
  · exact .inl (.inl (.inl inStart))
  · exact .inl (.inl (.inr inRows))
  · exact .inr (Address.isDigit_of_mem_row isDigit)
  · exact .inl (.inr inColumns)
  · exact .inr (Address.isDigit_of_mem_row isDigit)

theorem legible_headerLine (sheet : Sheet) : Legible sheet.headerLine where
  nonempty empty := absurd (List.append_eq_nil_iff.1 empty).2 Nat.toDigits_ne_nil
  unbroken member := by rcases mem_headerLine member with h | h <;> revert h <;> decide
  unreturned member := by rcases mem_headerLine member with h | h <;> revert h <;> decide

theorem legible_cellLine (a : Address) (text : String) : Legible (cellLine a text) where
  nonempty := by simp [cellLine]
  unbroken := by
    simp [cellLine, not_mem_chars (c := '\n') rfl rfl, Escape.not_mem_encode (.inl rfl)]
  unreturned := by
    simp [cellLine, not_mem_chars (c := '\r') rfl rfl, Escape.not_mem_encode (.inr rfl)]

theorem legible_of_mem_formLines {sheet : Sheet} {shown : Address → String → String} {line : List Char}
    (member : line ∈ sheet.formLines shown) : Legible line := by
  rcases List.mem_cons.1 member with rfl | inCells
  · exact legible_headerLine sheet
  · obtain ⟨entry, -, rfl⟩ := List.mem_map.1 inCells
    exact legible_cellLine entry.1 _

/-- Whatever layout a form is in, its lines are found again. -/
theorem map_fst_numberedLines_of_relaid {sheet : Sheet} {shown : Address → String → String} {other : String}
    (relaid : Relaid (sheet.form shown) other) :
    (numberedLines other.toList).map Prod.fst = sheet.formLines shown := by
  obtain ⟨lines, unbroken, same, laid⟩ := relaid
  rw [form, String.toList_ofList] at same
  have sameLines : sheet.formLines shown = lines :=
    eq_of_flatMap_eq (fun line member => (legible_of_mem_formLines member).unbroken) unbroken same
  subst sameLines
  rw [map_fst_numberedLines]
  exact filledLines_of_laid laid fun line => legible_of_mem_formLines

/-! ## The header -/

theorem count?_toDigits {bound n : Nat} (small : n < bound) :
    Number.count? bound (Nat.toDigits 10 n) = some n := by
  have unsigned : Number.countDigits (Nat.toDigits 10 n) = Nat.toDigits 10 n := by
    unfold Number.countDigits
    split
    · next digits same =>
      have member : '+' ∈ Nat.toDigits 10 n := by rw [same]; exact List.mem_cons_self
      exact absurd member (not_mem_toDigits rfl n)
    · rfl
  have allDigits : (Nat.toDigits 10 n).all Char.isDigit :=
    List.all_eq_true.2 fun c => Address.isDigit_of_mem_row
  simp [Number.count?, unsigned, allDigits, Number.Decimal.digitsValue, Nat.ofDigitChars_ten_toDigits,
    Nat.toDigits_ne_nil, small]

theorem readHeaderField_rows (sizes : HeaderSizes) {rows : Nat} (small : rows < rowCountBound) :
    readHeaderField sizes ("rows=".toList ++ Nat.toDigits 10 rows) = .ok { sizes with rows? := some rows } := by
  have cut : Text.cutAt? '=' (['r', 'o', 'w', 's'] ++ '=' :: Nat.toDigits 10 rows) =
      some (['r', 'o', 'w', 's'], Nat.toDigits 10 rows) :=
    Text.cutAt?_append (by decide)
  show readHeaderField sizes (['r', 'o', 'w', 's'] ++ '=' :: Nat.toDigits 10 rows) = _
  simp only [readHeaderField, cut, count?_toDigits small]

theorem readHeaderField_columns (sizes : HeaderSizes) {columns : Nat} (small : columns < columnCountBound) :
    readHeaderField sizes ("cols=".toList ++ Nat.toDigits 10 columns) =
      .ok { sizes with columns? := some columns } := by
  have cut : Text.cutAt? '=' (['c', 'o', 'l', 's'] ++ '=' :: Nat.toDigits 10 columns) =
      some (['c', 'o', 'l', 's'], Nat.toDigits 10 columns) :=
    Text.cutAt?_append (by decide)
  show readHeaderField sizes (['c', 'o', 'l', 's'] ++ '=' :: Nat.toDigits 10 columns) = _
  simp only [readHeaderField, cut, count?_toDigits small]

theorem words_sizes (rows columns : Nat) :
    Text.words (" rows=".toList ++ Nat.toDigits 10 rows ++ " cols=".toList ++ Nat.toDigits 10 columns) =
      ["rows=".toList ++ Nat.toDigits 10 rows, "cols=".toList ++ Nat.toDigits 10 columns] := by
  have digits (n : Nat) {c : Char} (member : c ∈ Nat.toDigits 10 n) : Text.isBlank c = false :=
    (Address.digit_spec (Address.isDigit_of_mem_row member)).2.1
  have word (start : List Char) (n : Nat) (noBlank : start.all fun c => !Text.isBlank c) :
      ∀ c ∈ start ++ Nat.toDigits 10 n, Text.isBlank c = false := by
    intro c member
    rcases List.mem_append.1 member with inStart | inDigits
    · simpa using List.all_eq_true.1 noBlank c inStart
    · exact digits n inDigits
  have layout : " rows=".toList ++ Nat.toDigits 10 rows ++ " cols=".toList ++ Nat.toDigits 10 columns =
      [] ++ ' ' :: (("rows=".toList ++ Nat.toDigits 10 rows) ++
        ' ' :: ("cols=".toList ++ Nat.toDigits 10 columns)) := by
    simp
  unfold Text.words
  rw [layout, Text.pieces_append (by simp) rfl, Text.pieces_append (word _ rows rfl) rfl,
    Text.pieces_of_unseparated (word _ columns rfl)]
  simp

/-- The header gives the size of the grid, which is not too large. -/
theorem readHeader_headerLine (sheet : Sheet) (number : Nat) :
    readHeader sheet.headerLine number = .ok (withSize sheet.rows sheet.columns) := by
  have fewRows : sheet.rows < rowCountBound := Nat.lt_of_le_of_lt sheet.rows_le (by decide)
  have fewColumns : sheet.columns < columnCountBound := Nat.lt_of_le_of_lt sheet.columns_le (by decide)
  have after : Text.afterStart? headerStart sheet.headerLine =
      some (" rows=".toList ++ Nat.toDigits 10 sheet.rows ++ " cols=".toList ++
        Nat.toDigits 10 sheet.columns) := by
    simp only [headerLine, List.append_assoc]
    exact Text.afterStart?_append _ _
  rw [readHeader, after]
  dsimp only
  rw [words_sizes, ofHeaderFields, List.foldlM_cons, readHeaderField_rows _ fewRows]
  show Except.mapError _ ((List.foldlM readHeaderField _ [_]) >>= _) = _
  rw [List.foldlM_cons, readHeaderField_columns _ fewColumns]
  rfl

/-! ## The cells -/

theorem setLine_cellLine (sheet : Sheet) {a : Address} (inBounds : a.InBounds) (text : String) :
    sheet.setLine (cellLine a text) = (sheet.set a text).mapError .address := by
  have cut : Text.cutAt? '=' (cellLine a text) = some (a.chars, Escape.encode text.toList) :=
    Text.cutAt?_append (not_mem_chars rfl rfl a)
  have read : Address.ofText (String.ofList a.chars) = .ok a := Address.ofText_text inBounds
  rw [setLine, cut]
  dsimp only
  rw [read, Escape.decode_encode]
  simp [Except.mapError, bind, Except.bind]

/-- Typing into a cell of the grid, or clearing it, keeps the size of the grid. -/
theorem exists_setLine_of_inside {sheet : Sheet} {a : Address}
    (inside : a.row < sheet.rows ∧ a.column < sheet.columns) (raw : String) :
    ∃ t, sheet.setLine (cellLine a raw) = .ok t ∧ sheet.Typed a raw t ∧ t.rows = sheet.rows ∧
      t.columns = sheet.columns := by
  have inBounds : a.InBounds :=
    ⟨Nat.lt_of_lt_of_le inside.1 sheet.rows_le, Nat.lt_of_lt_of_le inside.2 sheet.columns_le⟩
  obtain ⟨t, done⟩ := sheet.exists_set_of_inBounds inBounds raw
  have typed := typed_of_set done
  refine ⟨t, ?_, typed, ?_, ?_⟩
  · rw [setLine_cellLine sheet inBounds, done]
    rfl
  · rw [typed.rows]
    split <;> omega
  · rw [typed.columns]
    split <;> omega

/-- The lines of cells of the grid give these cells their texts, none of which has to be an input, and
leave the other cells as they are. -/
theorem setLines_of_distinct {entries : List (Address × String)} {sheet : Sheet}
    {lines : List (List Char × Nat)}
    (written : lines.map Prod.fst = entries.map fun entry => cellLine entry.1 entry.2)
    (inside : ∀ entry ∈ entries, entry.1.row < sheet.rows ∧ entry.1.column < sheet.columns)
    (distinct : (entries.map Prod.fst).Nodup) :
    ∃ result, sheet.setLines lines = .ok result ∧ result.rows = sheet.rows ∧
      result.columns = sheet.columns ∧ (∀ entry ∈ entries, result.get entry.1 = entry.2) ∧
      ∀ a ∉ entries.map Prod.fst, result.get a = sheet.get a := by
  induction entries generalizing sheet lines with
  | nil =>
    rw [List.map_nil, List.map_eq_nil_iff] at written
    subst written
    exact ⟨sheet, rfl, rfl, rfl, fun entry member => absurd member List.not_mem_nil, fun _ _ => rfl⟩
  | cons entry entries ih =>
    obtain ⟨a, text⟩ := entry
    obtain ⟨⟨line, number⟩, lines, rfl, rfl, later⟩ := List.map_eq_cons_iff.1 written
    rw [List.forall_mem_cons] at inside
    rw [List.map_cons, List.nodup_cons] at distinct
    obtain ⟨t, done, typed, rows, columns⟩ := exists_setLine_of_inside inside.1 text
    have insideRest : ∀ entry ∈ entries, entry.1.row < t.rows ∧ entry.1.column < t.columns := by
      rw [rows, columns]
      exact inside.2
    obtain ⟨result, doneRest, rowsRest, columnsRest, listed, unlisted⟩ := ih later insideRest distinct.2
    refine ⟨result, ?_, rowsRest.trans rows, columnsRest.trans columns, ?_, ?_⟩
    · rw [setLines, List.foldlM_cons]
      dsimp only
      rw [done]
      exact doneRest
    · -- No later line is about the first cell.
      refine List.forall_mem_cons.2 ⟨?_, listed⟩
      rw [unlisted a distinct.1, typed.get, if_pos rfl]
    · intro b notListed
      rw [List.map_cons, List.mem_cons, not_or] at notListed
      rw [unlisted b notListed.2, typed.get, if_neg notListed.1]

theorem rows_withSize (sheet : Sheet) : (withSize sheet.rows sheet.columns).rows = sheet.rows :=
  Nat.min_eq_left sheet.rows_le

theorem columns_withSize (sheet : Sheet) : (withSize sheet.rows sheet.columns).columns = sheet.columns :=
  Nat.min_eq_left sheet.columns_le

theorem getElem?_inputs (sheet : Sheet) (a : Address) :
    sheet.inputs[a]? = if sheet.get a = "" then none else some (sheet.get a) := by
  rw [get]
  cases known : sheet.inputs[a]? with
  | some raw => exact (if_neg (sheet.nonempty a raw known)).symm
  | none => rfl

/-- A sheet is told by its size and by what its cells hold. -/
theorem eq_of_get {sheet other : Sheet} (rows : sheet.rows = other.rows)
    (columns : sheet.columns = other.columns) (same : ∀ a, sheet.get a = other.get a) : sheet = other := by
  have inputs : sheet.inputs = other.inputs := Std.ExtTreeMap.ext_getElem? fun a => by
    rw [getElem?_inputs, getElem?_inputs, same]
  cases sheet
  cases other
  cases rows
  cases columns
  cases inputs
  rfl

/-! ## The whole sheet -/

theorem relaid_form (sheet : Sheet) (shown : Address → String → String) :
    Relaid (sheet.form shown) (sheet.form shown) := by
  refine ⟨sheet.formLines shown, ?_, String.toList_ofList, ?_⟩
  · exact fun line member => (legible_of_mem_formLines member).unbroken
  · rw [form, String.toList_ofList]
    exact laid_flatMap _

/-- A form is read as a sheet of the same size that holds what the form shows, in whatever layout. -/
theorem exists_read_of_relaid {sheet : Sheet} {shown : Address → String → String} {other : String}
    (relaid : Relaid (sheet.form shown) other) :
    ∃ read, ofForm other = .ok read ∧ read.rows = sheet.rows ∧ read.columns = sheet.columns ∧
      ∀ a, read.get a = if sheet.get a = "" then "" else shown a (sheet.get a) := by
  have found := map_fst_numberedLines_of_relaid relaid
  obtain ⟨⟨header, number⟩, lines, isLines, isHeader, linesOfCells⟩ := List.map_eq_cons_iff.1 found
  have isHeader : header = sheet.headerLine := isHeader
  let written := sheet.entries.map fun entry => (entry.1, shown entry.1 entry.2)
  have isWritten : lines.map Prod.fst = written.map fun entry => cellLine entry.1 entry.2 := by
    rw [List.map_map]
    exact linesOfCells
  have sameKeys : written.map Prod.fst = sheet.inputs.keys := by
    rw [List.map_map]
    exact Std.ExtTreeMap.map_fst_toList_eq_keys
  have inside : ∀ entry ∈ written, entry.1.row < (withSize sheet.rows sheet.columns).rows ∧
      entry.1.column < (withSize sheet.rows sheet.columns).columns := by
    rw [List.forall_mem_map, rows_withSize, columns_withSize]
    exact fun entry member =>
      sheet.inside entry.1 entry.2 (Std.ExtTreeMap.mem_toList_iff_getElem?_eq_some.1 member)
  obtain ⟨read, done, rows, columns, listed, unlisted⟩ :=
    setLines_of_distinct isWritten inside (sameKeys ▸ Std.ExtTreeMap.nodup_keys)
  refine ⟨read, ?_, rows.trans sheet.rows_withSize, columns.trans sheet.columns_withSize, fun a => ?_⟩
  · rw [ofForm, isLines, isHeader]
    dsimp only
    rw [readHeader_headerLine]
    exact done
  · -- Only the cells that hold something have lines.
    have known := sheet.getElem?_inputs a
    split at known
    · next isBlank =>
      rw [if_pos isBlank, unlisted a]
      · rfl
      · rw [sameKeys, Std.ExtTreeMap.mem_keys]
        exact Collection.not_mem_of_unknown known
    · next filled =>
      rw [if_neg filled]
      exact listed _ (List.mem_map_of_mem (Std.ExtTreeMap.mem_toList_iff_getElem?_eq_some.2 known))

theorem ofForm_form (sheet : Sheet) (shown : Address → String → String) :
    ∃ read, ofForm (sheet.form shown) = .ok read ∧ read.rows = sheet.rows ∧ read.columns = sheet.columns ∧
      ∀ a, read.get a = if sheet.get a = "" then "" else shown a (sheet.get a) :=
  exists_read_of_relaid (sheet.relaid_form shown)

theorem ofForm_of_relaid {sheet : Sheet} {other : String} (relaid : Relaid sheet.rawForm other) :
    ofForm other = .ok sheet := by
  obtain ⟨read, done, rows, columns, holds⟩ := exists_read_of_relaid relaid
  have same : read = sheet := eq_of_get rows columns fun a => by
    rw [holds]
    split
    · next isBlank => exact isBlank.symm
    · rfl
  rw [done, same]

/-- The raw form holds all of a sheet, and its layout does not matter: it is read as the same
sheet, size and all, and so is every text with other line ends and more empty lines. -/
theorem ofForm_rawForm (sheet : Sheet) :
    ofForm sheet.rawForm = .ok sheet ∧ ∀ other, Relaid sheet.rawForm other → ofForm other = .ok sheet :=
  ⟨ofForm_of_relaid (sheet.relaid_form fun _ raw => raw), fun _ => ofForm_of_relaid⟩

theorem ofForm_rawForm_breaks :
    ofForm "\r\n# sheetlink rows=2 cols=1\r\n\nA1==\\r\\n\\\\\n\n" =
      .ok ((withSize 2 1).insert ⟨0, 0⟩ "=\r\n\\" (by decide) (by decide)) := by
  refine (ofForm_rawForm _).2 _
    ⟨["# sheetlink rows=2 cols=1".toList, "A1==\\r\\n\\\\".toList], by decide, by decide +kernel, ?_⟩
  refine .blank (.inr rfl) (.line _ (.inr rfl) (.blank (.inl rfl) ?_))
  exact .line _ (.inl rfl) (.blank (.inl rfl) .nil)

end Sheet
end PageCalc
