import PageCalc.Evaluation.Workbook
import PageCalc.Proofs.Formula.Rendering
import PageCalc.Proofs.Graph.Dependency
import PageCalc.Proofs.Grid.Typing

/-!
# Sheets of known formulas

Where the formulas of a sheet are those of known expressions, the trees of its cells are these expressions. The
smallest sheet with a reference is one whose first cell mirrors another cell, or itself.
-/

namespace PageCalc

open Collection

/-- The reference to a cell of a page, as a formula. -/
def Expr.across (identifier label : String) (a : Address) : Expr :=
  .reference (.external ⟨⟨identifier, label⟩, .cell a⟩)

theorem Expr.ofFormula_across {identifier label : String} {a : Address} (labels : ']' ∉ label.toList)
    (identifiers : ')' ∉ identifier.toList) (nonblank : (Text.trim identifier.toList).isEmpty = false)
    (inBounds : a.InBounds) : ofFormula (across identifier label a).formula = .ok (across identifier label a) :=
  ofFormula_of_room (show ExternalReference.Printable _ from ⟨labels, identifiers, nonblank, inBounds⟩)
    (show 0 + 1 ≤ maxNesting by decide)

theorem Expr.ofFormula_cell {a : Address} (inBounds : a.InBounds) :
    ofFormula (reference (.cell a)).formula = .ok (reference (.cell a)) :=
  ofFormula_of_room (show a.InBounds from inBounds) (show 0 + 1 ≤ maxNesting by decide)

/-- The cache of the formulas of some expressions. -/
def ParseCache.ofExprs : (es : List Expr) → (∀ e ∈ es, Expr.ofFormula e.formula = .ok e) → ParseCache
  | [], _ => .empty
  | e :: es, parsed =>
    (ofExprs es fun e member => parsed e (List.mem_cons_of_mem _ member)).insert e.formula (.ok e)
      (parsed e List.mem_cons_self).symm

/-- The first cell of a sheet. -/
def Address.first : Address := ⟨0, 0⟩

namespace Sheet

/-- A sheet into which inputs are typed one after the other, where they are not refused. -/
def ofInputs (inputs : List (Address × String)) : Sheet :=
  inputs.foldl (fun sheet (a, raw) => (sheet.set a raw).toOption.getD sheet) empty

theorem get_ofInputs_append {inputs : List (Address × String)} {a b : Address} {raw : String} (inBounds : a.InBounds) :
    (ofInputs (inputs ++ [(a, raw)])).get b = if b = a then raw else (ofInputs inputs).get b := by
  obtain ⟨t, done⟩ := (ofInputs inputs).exists_set_of_inBounds inBounds raw
  rw [ofInputs, List.foldl_append, ← (typed_of_set done).get]
  show ((((ofInputs inputs).set a raw).toOption).getD _).get b = _
  rw [done]
  rfl

/-- The trees of a sheet whose formulas are those of known expressions. -/
theorem expr?_eq_some_iff {sheet : Sheet} {entries : List (Address × Expr)} {a : Address} {e : Expr}
    (formulas : sheet.formulas = entries.map fun entry => (entry.1, entry.2.formula))
    (parsed : ∀ entry ∈ entries, Expr.ofFormula entry.2.formula = .ok entry.2) :
    sheet.expr? a = some e ↔ (a, e) ∈ entries := by
  constructor
  · intro isTree
    obtain ⟨source, typed, outcome⟩ := exists_of_expr? isTree
    have listed := input_eq_formula_iff.1 typed
    rw [formulas] at listed
    obtain ⟨entry, member, same⟩ := List.mem_map.1 listed
    cases same
    cases (parsed entry member).symm.trans outcome
    exact member
  · intro member
    have typed : sheet.input a = .formula e.formula := by
      rw [input_eq_formula_iff, formulas]
      exact List.mem_map_of_mem (f := fun entry : Address × Expr => (entry.1, entry.2.formula)) member
    simp only [expr?, typed, parsed _ member, Except.toOption]

section Insert

variable {sheet : Sheet} {a b : Address} {raw : String} {fits : a.row < sheet.rows ∧ a.column < sheet.columns}
variable {filled : raw ≠ ""}

theorem expr?_insert {e : Expr} (formula : isFormulaText raw) (parsed : Expr.ofFormula raw = .ok e) :
    (sheet.insert a raw fits filled).expr? b = if b = a then some e else sheet.expr? b := by
  rw [expr?, input_insert]
  by_cases same : b = a
  · simp [same, Input.ofText_of_isFormulaText formula, parsed, Except.toOption]
  · simp only [same, if_false, expr?]

theorem expr?_insert_of_literal (literal : isFormulaText raw = false) :
    (sheet.insert a raw fits filled).expr? b = if b = a then none else sheet.expr? b := by
  rw [expr?, input_insert]
  by_cases same : b = a
  · simp only [same, if_true]
    split
    · next source formula =>
      rw [← Input.isFormula_ofText, formula] at literal
      cases literal
    · rfl
  · simp only [same, if_false, expr?]

end Insert

/-! ## Mirrors -/

variable {target a b : Address}

/-- The sheet whose first cell holds a formula that refers to another one. -/
def mirror (target : Address) : Sheet :=
  (Sheet.empty.ensureSize 1 1).insert .first ("=" ++ target.text) (by decide) (by simp)

theorem mirror_expr? (inBounds : target.InBounds) : (mirror target).expr? a =
    if a = .first then some (.reference (.cell target)) else none := by
  rw [mirror, expr?_insert (by simp [isFormulaText]) (Expr.ofFormula_text inBounds)]
  rfl

/-- The sheet whose first cell mirrors the one to its right, with an input in the cell beyond. -/
def mirrorBeside (raw : String) (filled : raw ≠ "") : Sheet :=
  ((mirror ⟨0, 1⟩).ensureSize 1 3).insert ⟨0, 2⟩ raw (by decide) filled

theorem mirrorBeside_expr?_text {filled : "=" ++ target.text ≠ ""} (inBounds : target.InBounds) :
    (mirrorBeside ("=" ++ target.text) filled).expr? a =
      if a = ⟨0, 2⟩ then some (.reference (.cell target))
      else if a = .first then some (.reference (.cell ⟨0, 1⟩)) else none := by
  have before : ((mirror ⟨0, 1⟩).ensureSize 1 3).expr? a = _ := mirror_expr? (by decide)
  rw [mirrorBeside, expr?_insert (by simp [isFormulaText]) (Expr.ofFormula_text inBounds), before]

end Sheet

/-- The workbook of a mirror, without other pages. -/
def Workbook.mirror (target : Address) : Workbook := { sheet := .mirror target, pageId := "main" }

end PageCalc
