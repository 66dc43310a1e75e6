import PageCalc.Proofs.Storage.Form

/-!
# Reading a snapshot

The display form of a sheet is read as a sheet of the same size, whose cells hold the texts that are
shown. Whatever the values, the messages and the inputs are, none of them is taken for another line, for
a header or for an escape.
-/

namespace PageCalc.Sheet

/-! ## The display form -/

/-- What the display form shows for a cell: nothing for a blank one, the input of a cell without a value,
and otherwise the value. An error is shown by its token, with the message behind it if there is one and
messages are wanted. -/
def displayed (sheet : Sheet) (result : Result) (messages : Bool) (a : Address) : String :=
  if sheet.get a = "" then ""
  else match result[a]? with
    | none => sheet.get a
    | some (.error e) =>
      if messages ∧ e.message ≠ "" then e.token ++ " (" ++ e.message ++ ")" else e.token
    | some value => value.display

theorem shownText_error (messages : Bool) (e : CellError) : shownText messages (.error e) =
    if messages ∧ e.message ≠ "" then e.token ++ " (" ++ e.message ++ ")" else e.token := by
  have wanted_iff : (messages && !e.message.isEmpty) = true ↔ messages ∧ e.message ≠ "" := by
    simp
  simp only [shownText, CellValue.error?, wanted_iff]
  rfl

/-- A snapshot cannot be forged: it is read as a sheet of the size of the one that was shown, in which
every cell holds what is displayed for it, whatever texts the result of the evaluation holds. -/
theorem ofForm_displayForm (sheet : Sheet) (result : Result) (messages : Bool) :
    ∃ read, ofForm (sheet.displayForm result messages) = .ok read ∧ read.rows = sheet.rows ∧
      read.columns = sheet.columns ∧ ∀ a, read.get a = sheet.displayed result messages a := by
  obtain ⟨read, done, rows, columns, holds⟩ := sheet.ofForm_form fun a raw =>
    (result[a]?).elim raw (shownText messages)
  refine ⟨read, done, rows, columns, fun a => ?_⟩
  rw [holds, displayed]
  rcases result[a]? with _ | ⟨x | s | b | e⟩
  · rfl
  · rfl
  · rfl
  · rfl
  · simp only [Option.elim_some, shownText_error]

end PageCalc.Sheet
