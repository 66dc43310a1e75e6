import PageCalc.Proofs.Formula.Occurrence
import PageCalc.Proofs.Graph.Refresh
import PageCalc.Proofs.Grid.Area
import PageCalc.Proofs.Grid.Typing

/-!
# What is gathered from a sheet

The dependencies of a sheet tell what its formulas refer to: the cells of the sheet that they name, the
cells of their ranges inside the grid, and the references to other pages in the order in which they come
first.
-/

namespace PageCalc

/-- The reference to another page that a reference is. -/
def Reference.external? : Reference → Option ExternalReference
  | .external e => some e
  | _ => none

/-! ## Formulas of a sheet -/

namespace Sheet

variable {sheet : Sheet} {a b : Address} {e : Expr}

theorem isFormula_iff_isFormulaText : sheet.isFormula a ↔ isFormulaText (sheet.get a) := by
  rw [isFormula, input, Input.isFormula_ofText]

theorem isFormulaText_of_parsed {source : String} (parsed : Expr.ofFormula source = .ok e) :
    isFormulaText source := by
  unfold Expr.ofFormula at parsed
  unfold isFormulaText
  split at parsed
  · next body begins => simp [begins]
  · cases parsed

theorem mem_formulas_of_parsed (parsed : Expr.ofFormula (sheet.get a) = .ok e) :
    (a, sheet.get a) ∈ sheet.formulas :=
  input_eq_formula_iff.1 (Input.ofText_of_isFormulaText (isFormulaText_of_parsed parsed))

theorem get_of_mem_formulas {source : String} (member : (a, source) ∈ sheet.formulas) :
    sheet.get a = source := by
  rw [formulas, List.mem_filter, entries, Std.ExtTreeMap.mem_toList_iff_getElem?_eq_some] at member
  rw [get, member.1, Option.getD_some]

/-- No cell holds two formulas. -/
theorem formulas_distinct (sheet : Sheet) : sheet.formulas.Pairwise fun f g => f.1 ≠ g.1 := by
  refine (Std.ExtTreeMap.distinct_keys_toList.imp fun different => ?_).filter _
  rwa [Std.LawfulEqCmp.compare_eq_iff_eq] at different

/-- A formula reads the cells that stand in it and those of its ranges inside the grid. -/
theorem reads_iff : sheet.Reads a b ↔ ∃ e, Expr.ofFormula (sheet.get a) = .ok e ∧
    (e.Contains (.cell b) ∨ ∃ area, e.Contains (.range area) ∧ area.contains b ∧
      b.row < sheet.rows ∧ b.column < sheet.columns) := by
  constructor
  · rintro ⟨r, member, inside⟩
    obtain ⟨source, e, typed, parsed, member⟩ := exists_of_mem_references member
    rw [← get_of_mem_formulas (input_eq_formula_iff.1 typed)] at parsed
    refine ⟨e, parsed, ?_⟩
    cases r with
    | cell c =>
      cases List.mem_singleton.1 inside
      exact .inl (Expr.mem_references_iff.1 member)
    | range area => exact .inr ⟨area, Expr.mem_references_iff.1 member, mem_cellsIn.1 inside⟩
    | external external => cases inside
  · rintro ⟨e, parsed, contains⟩
    have references := references_of_formula (input_eq_formula_iff.2 (mem_formulas_of_parsed parsed)) parsed
    rw [Reads, references]
    rcases contains with contains | ⟨area, contains, inside⟩
    · exact ⟨.cell b, Expr.mem_references_iff.2 contains, List.mem_singleton_self b⟩
    · exact ⟨.range area, Expr.mem_references_iff.2 contains, mem_cellsIn.2 inside⟩

end Sheet

/-! ## References to other pages -/

theorem eraseDups_concat {α : Type} [DecidableEq α] (l : List α) (a : α) :
    (l ++ [a]).eraseDups = if a ∈ l.eraseDups then l.eraseDups else l.eraseDups ++ [a] := by
  rw [List.eraseDups_append]
  by_cases known : a ∈ l
  · rw [if_pos (List.mem_eraseDups.2 known)]
    simp [List.removeAll, known]
  · rw [if_neg (mt List.mem_eraseDups.1 known)]
    simp [List.removeAll, known, List.eraseDups_cons]

namespace Dependencies

variable {sheet : Sheet} {cell a : Address} {g : Dependencies} {known : List ExternalReference}

theorem externalsOf_addExternal {external : ExternalReference} :
    (g.addExternal cell external).externalsOf a =
      if a = cell then
        if external ∈ g.externalsOf cell then g.externalsOf cell else g.externalsOf cell ++ [external]
      else g.externalsOf a := by
  simp only [externalsOf, addExternal, Std.ExtTreeMap.getElem?_alter, Std.LawfulEqCmp.compare_eq_iff_eq]
  by_cases same : a = cell
  · subst same
    rw [if_pos rfl, if_pos rfl, Option.getD_some]
    congr
  · rw [if_neg (Ne.symm same), if_neg same]

/-- Steps that note nothing about the pages of a cell leave them as they are. -/
theorem externalsOf_foldl {β : Type} {step : Dependencies → β → Dependencies} {entries : List β}
    (same : ∀ entry ∈ entries, ∀ g, (step g entry).externalsOf a = g.externalsOf a) :
    (entries.foldl step g).externalsOf a = g.externalsOf a :=
  List.foldlRecOn (motive := fun g' : Dependencies => g'.externalsOf a = g.externalsOf a) _ _ rfl
    fun _ before entry member => (same entry member _).trans before

theorem externalsOf_addReference_of_ne {r : Reference} (other : a ≠ cell) :
    (addReference sheet cell g r).externalsOf a = g.externalsOf a := by
  cases r with
  | cell c => rfl
  | range area => exact externalsOf_foldl fun _ _ _ => rfl
  | external external => rw [addReference, externalsOf_addExternal, if_neg other]

theorem externalsOf_addReference {r : Reference} (noted : g.externalsOf cell = known.eraseDups) :
    (addReference sheet cell g r).externalsOf cell = (known ++ r.external?.toList).eraseDups := by
  cases r with
  | cell c => exact noted.trans (congrArg _ (List.append_nil known).symm)
  | range area =>
    have same : (addReference sheet cell g (.range area)).externalsOf cell = g.externalsOf cell :=
      externalsOf_foldl fun _ _ _ => rfl
    exact (same.trans noted).trans (congrArg _ (List.append_nil known).symm)
  | external external =>
    rw [addReference, externalsOf_addExternal, if_pos rfl, noted, Reference.external?, Option.toList_some,
      eraseDups_concat]

theorem externalsOf_foldl_addReference (references : List Reference)
    (noted : g.externalsOf cell = known.eraseDups) :
    (references.foldl (addReference sheet cell) g).externalsOf cell =
      (known ++ references.filterMap Reference.external?).eraseDups := by
  induction references generalizing g known with
  | nil => simpa using noted
  | cons r references ih =>
    rw [List.foldl_cons, ih (externalsOf_addReference noted), List.append_assoc]
    cases isExternal : r.external? <;> simp [isExternal]

theorem externalsOf_addOutcome_of_ne {outcome : ParseOutcome} (other : a ≠ cell) :
    (addOutcome sheet g cell outcome).externalsOf a = g.externalsOf a := by
  cases outcome with
  | error _ => rfl
  | ok e => exact externalsOf_foldl fun _ _ _ => externalsOf_addReference_of_ne other

/-- The references of a formula to other pages, each where it comes first. -/
def outcomeExternals : ParseOutcome → List ExternalReference
  | .ok e => (e.references.filterMap Reference.external?).eraseDups
  | .error _ => []

theorem externalsOf_addOutcome (outcome : ParseOutcome) (unknown : g.externalsOf cell = []) :
    (addOutcome sheet g cell outcome).externalsOf cell = outcomeExternals outcome := by
  have noted : (g.addFormula cell).externalsOf cell = List.eraseDups [] := unknown
  cases outcome with
  | error _ => exact noted
  | ok e => exact externalsOf_foldl_addReference e.references noted

theorem externalsOf_ofSheet {cache : ParseCache} :
    (ofSheet sheet cache).1.externalsOf a = outcomeExternals (Expr.ofFormula (sheet.get a)) := by
  have others (entries : List (Address × String)) (absent : ∀ entry ∈ entries, a ≠ entry.1)
      (g : Dependencies) : (entries.foldl
        (fun g entry => addOutcome sheet g entry.1 (Expr.ofFormula entry.2)) g).externalsOf a =
          g.externalsOf a :=
    externalsOf_foldl fun entry member _ => externalsOf_addOutcome_of_ne (absent entry member)
  rw [ofSheet_fst]
  by_cases noted : (a, sheet.get a) ∈ sheet.formulas
  · -- Only the formula of the cell itself is about the cell.
    obtain ⟨before, after, split⟩ := List.append_of_mem noted
    have distinct := split ▸ sheet.formulas_distinct
    obtain ⟨-, distinct, notBefore⟩ := List.pairwise_append.1 distinct
    have notAfter := (List.pairwise_cons.1 distinct).1
    rw [split, List.foldl_append, List.foldl_cons, others after notAfter]
    refine externalsOf_addOutcome _ ?_
    rw [others before fun entry member => (notBefore entry member _ List.mem_cons_self).symm]
    rfl
  · rw [others sheet.formulas fun entry member same => noted ?_]
    · cases parsed : Expr.ofFormula (sheet.get a) with
      | error _ => rfl
      | ok e => exact absurd (Sheet.mem_formulas_of_parsed parsed) noted
    · rw [same, Sheet.get_of_mem_formulas member]
      exact member

/-! ## The whole sheet -/

theorem mem_formulaCells_ofSheet {cache : ParseCache} :
    a ∈ (ofSheet sheet cache).1.formulaCells ↔ ∃ body, (sheet.get a).toList = '=' :: body := by
  rw [formulaCells, Std.ExtTreeSet.mem_toList, mem_formulas_ofSheet, Sheet.isFormula_iff_isFormulaText,
    isFormulaText, beq_iff_eq, List.head?_eq_some_iff]

/-- The formula cells of a sheet are the cells whose input begins with an equals sign, row by row. A cell
depends on those that its formula names, if this can be parsed, and on those of its ranges that lie in the
grid; it refers to other pages as its formula does, to each once and in the order of the first time. In a
graph with any history, a cell is a dependent of those that are precedents of it. -/
theorem ofSheet_exact (sheet : Sheet) (cache : ParseCache) :
    (∀ c, c ∈ (ofSheet sheet cache).1.formulaCells ↔ ∃ body, (sheet.get c).toList = '=' :: body) ∧
    (ofSheet sheet cache).1.formulaCells.Pairwise (compare · · = .lt) ∧
    (∀ c p, p ∈ (ofSheet sheet cache).1.precedentsOf c ↔
      ∃ e, Expr.ofFormula (sheet.get c) = .ok e ∧
        (e.Contains (.cell p) ∨ ∃ area, e.Contains (.range area) ∧ area.contains p ∧
          p.row < sheet.rows ∧ p.column < sheet.columns)) ∧
    (∀ c, match Expr.ofFormula (sheet.get c) with
      | .ok e => (ofSheet sheet cache).1.externalsOf c =
          (e.references.filterMap Reference.external?).eraseDups
      | .error _ => (ofSheet sheet cache).1.externalsOf c = []) ∧
    ∀ changes d p, d ∈ (after changes).dependentsOf p ↔ p ∈ (after changes).precedentsOf d := by
  refine ⟨fun c => mem_formulaCells_ofSheet, Std.ExtTreeSet.ordered_toList, fun c p => ?_, fun c => ?_,
    fun changes d p => paired_after changes p d⟩
  · exact mem_precedentsOf_ofSheet.trans Sheet.reads_iff
  · rw [externalsOf_ofSheet]
    cases Expr.ofFormula (sheet.get c) <;> rfl

end Dependencies
end PageCalc
