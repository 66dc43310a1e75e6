import PageCalc.Graph.Dependency
import PageCalc.Proofs.Collection
import PageCalc.Proofs.Graph.Report

/-!
# The reads of a sheet

The dependencies that are gathered from a sheet are the reads of its formulas inside the sheet, and
the cells that are reported as circular are those from which such reads lead back to the cell.
-/

namespace PageCalc

open Collection PageCalc.Graph

/-! ## Reads -/

/-- The cells of its own sheet that a reference stands for. -/
def Reference.localCells (sheet : Sheet) : Reference → List Address
  | .cell a => [a]
  | .range area => sheet.cellsIn area
  | .external _ => []

namespace Sheet

variable {sheet : Sheet} {a b : Address}

/-- The tree of the formula in a cell, if there is a formula that can be parsed. -/
def expr? (sheet : Sheet) (a : Address) : Option Expr :=
  match sheet.input a with
  | .formula source => (Expr.ofFormula source).toOption
  | _ => none

/-- The references of the formula in a cell. -/
def references (sheet : Sheet) (a : Address) : List Reference :=
  ((sheet.expr? a).map Expr.references).getD []

/-- The formula of a cell refers to a cell of the same sheet. -/
def Reads (sheet : Sheet) (a b : Address) : Prop :=
  ∃ r ∈ sheet.references a, b ∈ r.localCells sheet

/-- The cell reads itself, at once or by way of other cells of the sheet. -/
def OnCycle (sheet : Sheet) (a : Address) : Prop := Relation.TransGen sheet.Reads a a

theorem input_eq_formula_iff {source : String} :
    sheet.input a = .formula source ↔ (a, source) ∈ sheet.formulas := by
  rw [formulas, List.mem_filter, entries, Std.ExtTreeMap.mem_toList_iff_getElem?_eq_some]
  unfold input get Input.ofText
  cases typed : sheet.inputs[a]? with
  | none => simp
  | some raw =>
    have filled := sheet.nonempty a raw typed
    simp only [Option.getD_some, String.isEmpty_iff, filled, if_false, Option.some.injEq]
    by_cases isFormula : isFormulaText raw
    · simp only [isFormula, if_true, Input.formula.injEq]
      grind
    · simp only [isFormula]
      split <;> grind

theorem isFormula_iff : sheet.isFormula a ↔ ∃ source, sheet.input a = .formula source := by
  unfold isFormula Input.isFormula
  split <;> simp_all

theorem inBounds_of_mem (typed : a ∈ sheet.inputs) : a.InBounds := by
  obtain ⟨raw, inputs⟩ := mem_iff_exists.1 typed
  have inside := sheet.inside a raw inputs
  exact ⟨Nat.lt_of_lt_of_le inside.1 sheet.rows_le, Nat.lt_of_lt_of_le inside.2 sheet.columns_le⟩

theorem mem_inputs_of_isFormula (formula : sheet.isFormula a) : a ∈ sheet.inputs := by
  obtain ⟨source, typed⟩ := isFormula_iff.1 formula
  have entry := (List.mem_filter.1 (input_eq_formula_iff.1 typed)).1
  exact mem_of_known (Std.ExtTreeMap.mem_toList_iff_getElem?_eq_some.1 entry)

theorem inBounds_of_isFormula (formula : sheet.isFormula a) : a.InBounds :=
  inBounds_of_mem (mem_inputs_of_isFormula formula)

theorem exists_of_expr? {e : Expr} (parsed : sheet.expr? a = some e) :
    ∃ source, sheet.input a = .formula source ∧ Expr.ofFormula source = .ok e := by
  unfold expr? at parsed
  split at parsed
  · next source typed =>
    refine ⟨source, typed, ?_⟩
    cases outcome : Expr.ofFormula source with
    | error fault => simp [outcome, Except.toOption] at parsed
    | ok other =>
      rw [outcome] at parsed
      exact congrArg _ (Option.some.inj parsed)
  · cases parsed

theorem isFormula_of_expr? {e : Expr} (parsed : sheet.expr? a = some e) : sheet.isFormula a := by
  obtain ⟨source, typed, -⟩ := exists_of_expr? parsed
  exact isFormula_iff.2 ⟨source, typed⟩

theorem references_of_formula {source : String} {e : Expr} (typed : sheet.input a = .formula source)
    (parsed : Expr.ofFormula source = .ok e) : sheet.references a = e.references := by
  simp [references, expr?, typed, parsed, Except.toOption]

theorem exists_of_mem_references {r : Reference} (member : r ∈ sheet.references a) :
    ∃ source e, sheet.input a = .formula source ∧ Expr.ofFormula source = .ok e ∧
      r ∈ e.references := by
  unfold references at member
  cases parsed : sheet.expr? a with
  | none => simp [parsed] at member
  | some e =>
    obtain ⟨source, typed, isTree⟩ := exists_of_expr? parsed
    exact ⟨source, e, typed, isTree, by simpa [parsed] using member⟩

theorem reads_iff_expr? : sheet.Reads a b ↔ ∃ e ∈ sheet.expr? a, ∃ r ∈ e.references, b ∈ r.localCells sheet := by
  unfold Reads references
  cases sheet.expr? a <;> simp

theorem Reads.isFormula (reads : sheet.Reads a b) : sheet.isFormula a := by
  obtain ⟨e, parsed, -⟩ := reads_iff_expr?.1 reads
  exact isFormula_of_expr? parsed

end Sheet

/-! ## Dependencies -/

theorem ParseCache.parse_fst (cache : ParseCache) (formula : String) :
    (cache.parse formula).1 = Expr.ofFormula formula := by
  unfold parse
  split
  · next outcome known => exact cache.faithful formula outcome known
  · rfl

namespace Dependencies

variable {sheet : Sheet} {cell a b : Address} {g : Dependencies}

theorem mem_relate {sets : AddressMap AddressSet} {c d : Address} :
    b ∈ (relate sets c d)[a]?.getD ∅ ↔ b ∈ sets[a]?.getD ∅ ∨ a = c ∧ b = d := by
  simp only [relate, Std.ExtTreeMap.getElem?_alter, Std.LawfulEqCmp.compare_eq_iff_eq]
  by_cases same : c = a
  · subst same
    simp only [if_true, Option.getD_some, mem_insert, true_and]
    exact or_comm
  · simp [same, Ne.symm same]

theorem mem_precedentsOf_addDependency {precedent dependent : Address} :
    b ∈ (g.addDependency precedent dependent).precedentsOf a ↔
      b ∈ g.precedentsOf a ∨ a = dependent ∧ b = precedent := by
  simp only [precedentsOf, Std.ExtTreeSet.mem_toList]
  exact mem_relate

theorem mem_precedentsOf_addReference {r : Reference} :
    b ∈ (addReference sheet cell g r).precedentsOf a ↔
      b ∈ g.precedentsOf a ∨ a = cell ∧ b ∈ r.localCells sheet := by
  cases r with
  | cell c => simp [addReference, mem_precedentsOf_addDependency, Reference.localCells]
  | range area =>
    have each (g : Dependencies) (c : Address) : b ∈ (g.addDependency c cell).precedentsOf a ↔
        b ∈ g.precedentsOf a ∨ a = cell ∧ b = c := mem_precedentsOf_addDependency
    refine (holds_foldl (fun g : Dependencies => b ∈ g.precedentsOf a) each _ g).trans ?_
    simp [Reference.localCells, and_comm]
  | external external => simp [addReference, addExternal, precedentsOf, Reference.localCells]

theorem mem_precedentsOf_addOutcome {outcome : ParseOutcome} :
    b ∈ (addOutcome sheet g cell outcome).precedentsOf a ↔
      b ∈ g.precedentsOf a ∨ a = cell ∧
        ∃ e r, outcome = .ok e ∧ r ∈ e.references ∧ b ∈ r.localCells sheet := by
  have noted (a : Address) : (g.addFormula cell).precedentsOf a = g.precedentsOf a := rfl
  cases outcome with
  | error _ => simp [addOutcome, noted]
  | ok e =>
    have each (g : Dependencies) (r : Reference) : b ∈ (addReference sheet cell g r).precedentsOf a ↔
        b ∈ g.precedentsOf a ∨ a = cell ∧ b ∈ r.localCells sheet := mem_precedentsOf_addReference
    refine (holds_foldl (fun g : Dependencies => b ∈ g.precedentsOf a) each e.references _).trans ?_
    rw [noted]
    grind

theorem ofSheet_fst (sheet : Sheet) (cache : ParseCache) :
    (ofSheet sheet cache).1 = sheet.formulas.foldl
      (fun g entry => addOutcome sheet g entry.1 (Expr.ofFormula entry.2)) empty := by
  unfold ofSheet
  -- The cache changes from one formula to the next, but never what is read from it.
  generalize empty = g
  induction sheet.formulas generalizing g cache with
  | nil => rfl
  | cons entry entries ih =>
    rw [List.foldl_cons, List.foldl_cons, ih, ParseCache.parse_fst]

theorem mem_precedentsOf_ofSheet {cache : ParseCache} :
    b ∈ (ofSheet sheet cache).1.precedentsOf a ↔ sheet.Reads a b := by
  have each (g : Dependencies) (entry : Address × String) :
      b ∈ (addOutcome sheet g entry.1 (Expr.ofFormula entry.2)).precedentsOf a ↔ b ∈ g.precedentsOf a ∨
        a = entry.1 ∧ ∃ e r, Expr.ofFormula entry.2 = .ok e ∧ r ∈ e.references ∧ b ∈ r.localCells sheet :=
    mem_precedentsOf_addOutcome
  rw [ofSheet_fst]
  refine (holds_foldl (fun g : Dependencies => b ∈ g.precedentsOf a) each _ _).trans ?_
  constructor
  · rintro (known | ⟨⟨_, source⟩, typed, rfl, e, r, parsed, member, inside⟩)
    · simp [empty, precedentsOf] at known
    · exact ⟨r, Sheet.references_of_formula (Sheet.input_eq_formula_iff.2 typed) parsed ▸ member, inside⟩
  · rintro ⟨r, member, inside⟩
    obtain ⟨source, e, typed, parsed, member⟩ := Sheet.exists_of_mem_references member
    exact .inr ⟨(a, source), Sheet.input_eq_formula_iff.1 typed, rfl, e, r, parsed, member, inside⟩

theorem formulas_addReference (r : Reference) : (addReference sheet cell g r).formulas = g.formulas := by
  cases r with
  | cell c => rfl
  | range area =>
    exact List.foldlRecOn (motive := fun g' : Dependencies => g'.formulas = g.formulas) _ _ rfl
      fun _ same _ _ => same
  | external external => rfl

theorem formulas_addOutcome (outcome : ParseOutcome) :
    (addOutcome sheet g cell outcome).formulas = g.formulas.insert cell := by
  cases outcome with
  | error _ => rfl
  | ok e =>
    exact List.foldlRecOn (motive := fun g' : Dependencies => g'.formulas = g.formulas.insert cell) _ _ rfl
      fun _ same r _ => (formulas_addReference r).trans same

theorem mem_formulas_ofSheet {cache : ParseCache} :
    a ∈ (ofSheet sheet cache).1.formulas ↔ sheet.isFormula a := by
  have each (g : Dependencies) (entry : Address × String) :
      a ∈ (addOutcome sheet g entry.1 (Expr.ofFormula entry.2)).formulas ↔ a ∈ g.formulas ∨ a = entry.1 := by
    rw [formulas_addOutcome, mem_insert, or_comm]
  rw [ofSheet_fst, Sheet.isFormula_iff]
  refine (holds_foldl (fun g : Dependencies => a ∈ g.formulas) each _ _).trans ?_
  simp [empty, Sheet.input_eq_formula_iff]

theorem mem_next_digraph : b ∈ g.digraph.next a ↔ b ∈ g.precedentsOf a := by
  unfold Digraph.next digraph precedentsOf
  rw [Std.ExtTreeMap.getElem?_map]
  cases g.precedents[a]? <;> simp

/-- The cells that are reported as circular are those on cycles of the sheet. -/
theorem mem_cycles_ofSheet {cache : ParseCache} :
    a ∈ (ofSheet sheet cache).1.cycles.members ↔ sheet.OnCycle a := by
  have sameEdges : (fun a b => b ∈ (ofSheet sheet cache).1.digraph.next a) = sheet.Reads := by
    funext a b
    exact propext (mem_next_digraph.trans mem_precedentsOf_ofSheet)
  rw [cycles, Digraph.mem_cycles_members, Digraph.OnCycle, sameEdges, ← Sheet.OnCycle]
  -- A cell on a cycle reads something, so it holds a formula and is one of the roots itself.
  refine and_iff_right_of_imp fun cycle => ⟨a, ?_, .refl⟩
  obtain ⟨b, reads, -⟩ := Relation.TransGen.head'_iff.1 cycle
  rw [formulaCells, Std.ExtTreeSet.mem_toList]
  exact mem_formulas_ofSheet.2 reads.isFormula

end Dependencies
end PageCalc
