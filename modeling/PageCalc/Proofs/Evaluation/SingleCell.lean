import PageCalc.Proofs.Evaluation.FormulaSheets
import PageCalc.Proofs.Evaluation.Substitution

/-!
# A cell and its range

A reference to a cell may be made one to the range of this cell alone, wherever it stands in a formula and on
whatever page the cell lies. What is read is one value then and a list of it now, or a blank then and an empty
list now if the cell lies outside the grid.
-/

namespace PageCalc

variable {p : Progress} {s : Sheet} {place : Nat} {a b : Address} {read : CellReader}

/-- A reference to a cell, and the one to the range of this cell alone on the same page. -/
inductive Expr.Spanned : Expr → Expr → Prop where
  | own (a : Address) : Spanned (.reference (.cell a)) (.reference (.range (.spanning a a)))
  | across (page : PageRef) (a : Address) : Spanned (.reference (.external ⟨page, .cell a⟩))
      (.reference (.external ⟨page, .range (.spanning a a)⟩))

/-! ## Reading the range -/

theorem Sheet.cellsIn_spanning (s : Sheet) (a : Address) :
    s.cellsIn (.spanning a a) = if s.holds a then [a] else [] := by
  rw [← filter_cells, Range.cells_spanning_self, List.filter_singleton, cond_eq_ite]

theorem Sheet.blank_of_not_holds (outside : s.holds a = false) : s.input a = .blank := by
  by_contra typed
  rw [holds_of_mem (mem_inputs_iff.2 typed)] at outside
  cases outside

/-- A cell outside the grid is blank, and reading it changes nothing. -/
theorem Steady.run_readSeen (steady : Steady read) (sane : p.Sane) (outside : (p.sheet place).holds a = false) :
    (readSeen read ⟨place, a⟩).run p = (.blank, p) := by
  rw [readSeen, StateT.run_map, steady.blank ⟨place, a⟩ p sane (Sheet.blank_of_not_holds outside)]
  rfl

theorem sameEnd_spanning (steady : Steady read) (sane : p.Sane) : SameEnd Value.Interchangeable
    (readSeen read ⟨place, a⟩) (readRange read place (.spanning a a)) p := by
  have isRange : (readRange read place (.spanning a a)).run p =
      (((p.sheet place).cellsIn (.spanning a a)).mapM (fun a => readSeen read ⟨place, a⟩) >>= fun items =>
        pure (Value.list items)).run p := rfl
  rw [Sheet.cellsIn_spanning] at isRange
  cases inside : (p.sheet place).holds a with
  | true =>
    have content := (steady.level ⟨place, a⟩ p p sane.twin).outcomes.propagated
    simp only [inside, if_true, List.mapM_cons, List.mapM_nil, bind_assoc, pure_bind] at isRange
    refine ⟨?_, ?_⟩
    · rw [isRange]
      exact Value.interchangeable_list content.finite
    · rw [isRange]
      rfl
  | false =>
    simp only [inside] at isRange
    refine ⟨?_, ?_⟩
    · rw [isRange, steady.run_readSeen sane inside]
      exact Value.interchangeable_blank
    · rw [isRange, steady.run_readSeen sane inside]
      rfl

theorem harmless_spanned : Harmless Expr.Spanned where
  targets e e' spanned sheet b inside := by
    simp only [Expr.RefersTo]
    cases spanned with
    | own a =>
      simp only [Expr.references, List.mem_singleton, exists_eq_left, Reference.localCells, Sheet.cellsIn_spanning]
      split
      · rw [List.mem_singleton]
      · next outside =>
        refine iff_of_false (fun same => ?_) List.not_mem_nil
        exact outside (same ▸ inside)
    | across page a => simp [Expr.references, Reference.localCells]
  sameEnd w read place p e e' _ steady sane _ spanned := by
    cases spanned with
    | own a => exact sameEnd_spanning steady sane
    | across page a =>
      refine .update ?_
      dsimp only
      cases (p.resolve w page).1 with
      | error failure => exact ⟨.same, rfl⟩
      | ok there => exact sameEnd_spanning steady sane.resolve

namespace Workbook

variable {w w' : Workbook}

/-- No cell shows another value if references to cells are made references to the ranges of these cells alone, any
number of them and anywhere in the formulas of the sheet or of other pages, and neither does a formula that stands
in no cell. -/
theorem evaluateWith_of_spanned (builtin : w.library = .builtin)
    (books : w.Rewritten (Expr.Replaced Expr.Spanned) w') :
    (∀ cache cache', (w'.evaluateWith cache').1 = (w.evaluateWith cache).1 ∧
      (w'.finalState cache').memo = (w.finalState cache).memo ∧
      (w'.finalState cache').calls = (w.finalState cache).calls) ∧
    ∀ formula formula', (Input.formula formula).Rewritten (Expr.Replaced Expr.Spanned) (.formula formula') →
      w'.evaluateFormula formula' = w.evaluateFormula formula :=
  evaluateWith_of_harmless harmless_spanned builtin books

/-- A formula that is the reference to a cell shows the same as one that is the range of this cell. -/
theorem evaluateWith_holding_spanned :
    (holding (.reference (.cell ⟨0, 1⟩))).Rewritten (Expr.Replaced Expr.Spanned)
      (holding (.reference (.range (.spanning ⟨0, 1⟩ ⟨0, 1⟩)))) ∧
    ((holding (.reference (.range (.spanning ⟨0, 1⟩ ⟨0, 1⟩)))).evaluateWith .empty).1 =
      ((holding (.reference (.cell ⟨0, 1⟩))).evaluateWith .empty).1 := by
  have inBounds : Address.InBounds ⟨0, 1⟩ := by decide
  have room : 0 + 1 ≤ maxNesting := by decide
  have books : (holding (.reference (.cell ⟨0, 1⟩))).Rewritten (Expr.Replaced Expr.Spanned)
      (holding (.reference (.range (.spanning ⟨0, 1⟩ ⟨0, 1⟩)))) :=
    rewritten_holding inBounds ⟨inBounds, inBounds⟩ room room (.here (.own ⟨0, 1⟩))
  exact ⟨books, ((evaluateWith_of_spanned rfl books).1 .empty .empty).1⟩

end Workbook

end PageCalc
