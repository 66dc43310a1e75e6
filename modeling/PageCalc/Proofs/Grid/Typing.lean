import PageCalc.Grid.Sheet

/-!
# Typing into cells

Typing an input into a cell changes what the cell holds and nothing else, but for the size of the grid,
which grows as far as the cell is away.
-/

namespace PageCalc

namespace Sheet

variable {s t : Sheet} {a b : Address} {raw : String}

theorem get_insert {fits : a.row < s.rows ∧ a.column < s.columns} {filled : raw ≠ ""} :
    (s.insert a raw fits filled).get b = if b = a then raw else s.get b := by
  simp only [get, insert, Std.ExtTreeMap.getElem?_insert, Std.LawfulEqCmp.compare_eq_iff_eq]
  by_cases same : b = a
  · simp [same]
  · simp [same, Ne.symm same]

theorem input_insert {fits : a.row < s.rows ∧ a.column < s.columns} {filled : raw ≠ ""} :
    (s.insert a raw fits filled).input b = if b = a then .ofText raw else s.input b := by
  rw [input, get_insert, apply_ite Input.ofText]
  rfl

theorem get_clear : (s.clear a).get b = if b = a then "" else s.get b := by
  simp only [get, clear, Std.ExtTreeMap.getElem?_erase, Std.LawfulEqCmp.compare_eq_iff_eq]
  by_cases same : b = a
  · simp [same]
  · simp [same, Ne.symm same]

theorem cellsIn_congr (rows : t.rows = s.rows) (columns : t.columns = s.columns) (area : Range) :
    t.cellsIn area = s.cellsIn area := by
  simp only [cellsIn, clamp?, rows, columns]

theorem extent?_congr (rows : t.rows = s.rows) (columns : t.columns = s.columns) : t.extent? = s.extent? := by
  simp only [extent?, rows, columns]

/-- A sheet into one cell of which an input was typed. -/
structure Typed (s : Sheet) (a : Address) (raw : String) (t : Sheet) : Prop where
  get : ∀ b, t.get b = if b = a then raw else s.get b
  rows : t.rows = if raw = "" then s.rows else max s.rows (a.row + 1)
  columns : t.columns = if raw = "" then s.columns else max s.columns (a.column + 1)

theorem typed_of_set (done : s.set a raw = .ok t) : s.Typed a raw t := by
  unfold set at done
  split at done
  · cases done
  split at done
  · cases done
  split at done
  · next isBlank =>
    cases done
    subst isBlank
    exact ⟨fun b => get_clear, rfl, rfl⟩
  · next filled =>
    cases done
    refine ⟨fun b => get_insert, ?_, ?_⟩ <;> simp only [insert, ensureSize, if_neg filled] <;> omega

theorem exists_set_of_inBounds (s : Sheet) (inBounds : a.InBounds) (raw : String) :
    ∃ t, s.set a raw = .ok t := by
  rw [set, dif_neg (Nat.not_le.2 inBounds.1), dif_neg (Nat.not_le.2 inBounds.2)]
  split <;> exact ⟨_, rfl⟩

theorem inBounds_of_set (done : s.set a raw = .ok t) : a.InBounds := by
  unfold set at done
  split at done
  · cases done
  · next row =>
    split at done
    · cases done
    · next column => exact ⟨Nat.not_le.1 row, Nat.not_le.1 column⟩

theorem Typed.rows_le (typed : s.Typed a raw t) : s.rows ≤ t.rows := by
  rw [typed.rows]
  split <;> omega

theorem Typed.columns_le (typed : s.Typed a raw t) : s.columns ≤ t.columns := by
  rw [typed.columns]
  split <;> omega

theorem Typed.input_of_ne (typed : s.Typed a raw t) (other : b ≠ a) : t.input b = s.input b := by
  rw [input, input, typed.get, if_neg other]

theorem Typed.input (typed : s.Typed a raw t) : t.input a = .ofText raw := by
  rw [Sheet.input, typed.get, if_pos rfl]

end Sheet

theorem Input.isFormula_ofText {raw : String} : (Input.ofText raw).isFormula = isFormulaText raw := by
  unfold Input.ofText
  split
  · next blank =>
    rw [String.isEmpty_iff.1 blank]
    rfl
  · split
    · next formula => exact formula.symm
    · next literal =>
      rw [Bool.not_eq_true] at literal
      split <;> exact literal.symm

theorem Input.ofText_of_isFormulaText {raw : String} (isFormula : isFormulaText raw) :
    Input.ofText raw = .formula raw := by
  have filled : raw.isEmpty = false := by
    rw [← Bool.not_eq_true, String.isEmpty_iff]
    rintro rfl
    cases isFormula
  rw [Input.ofText, filled, isFormula]
  rfl

end PageCalc
