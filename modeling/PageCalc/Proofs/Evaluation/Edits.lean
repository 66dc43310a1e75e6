import PageCalc.Proofs.Evaluation.Confined
import PageCalc.Proofs.Evaluation.FormulaSheets
import PageCalc.Proofs.Graph.Refresh

/-!
# Edits

When cells of a sheet are changed, the cells to evaluate again are all that may have another value.
This holds for edits that create cycles and for edits that break them: whoever lies on a cycle depends
on its cells.
-/

namespace PageCalc

open Collection

namespace Sheet

variable {s t : Sheet} {changed : List Address} {a b : Address}

/-- A cell that was not changed itself and depends on no changed cell. -/
def Unaffected (t : Sheet) (changed : List Address) (a : Address) : Prop :=
  a ∉ changed ∧ a ∉ t.refreshOrder changed

theorem Unaffected.reads (unaffected : t.Unaffected changed a) (reads : t.Reads a b) :
    t.Unaffected changed b := by
  obtain ⟨-, fresh⟩ := unaffected
  rw [mem_refreshOrder] at fresh
  refine ⟨fun isChanged => fresh ⟨b, isChanged, .single reads⟩, fun stale => fresh ?_⟩
  obtain ⟨c, isChanged, path⟩ := mem_refreshOrder.1 stale
  exact ⟨c, isChanged, .head reads path⟩

theorem localCells_congr (rows : t.rows = s.rows) (columns : t.columns = s.columns) (r : Reference) :
    r.localCells t = r.localCells s := by
  cases r with
  | cell _ | external _ => rfl
  | range area => exact cellsIn_congr rows columns area

theorem reads_congr (rows : t.rows = s.rows) (columns : t.columns = s.columns)
    (same : t.get a = s.get a) : t.Reads a b ↔ s.Reads a b := by
  simp only [Reads, references, expr?, input, same, localCells_congr rows columns]

end Sheet

namespace Workbook

open Sheet

/-- A cell that was not changed and is not to be evaluated again has the same value as before. -/
theorem evaluateWith_of_not_mem_refreshOrder (w : Workbook) (t : Sheet) (changed : List Address)
    (cache cache' : ParseCache) (isLocal : t.IsLocal)
    (rows : t.rows = w.sheet.rows) (columns : t.columns = w.sheet.columns)
    (unchanged : ∀ b, b ∉ changed → t.get b = w.sheet.get b) {a : Address} (other : a ∉ changed)
    (fresh : a ∉ t.refreshOrder changed) :
    (({ w with sheet := t } : Workbook).evaluateWith cache').1[a]? = (w.evaluateWith cache).1[a]? := by
  have sameInput (b : Address) (unaffected : t.Unaffected changed b) : t.input b = w.sheet.input b :=
    congrArg Input.ofText (unchanged b unaffected.1)
  have sameReads (b c : Address) (unaffected : t.Unaffected changed b) :
      t.Reads b c ↔ w.sheet.Reads b c := reads_congr rows columns (unchanged b unaffected.1)
  have confined' : t.Confined (t.Unaffected changed) := isLocal.confined fun _ _ => Unaffected.reads
  have confined : w.sheet.Confined (t.Unaffected changed) := by
    refine ⟨fun b e r unaffected parsed => isLocal b e r ?_, fun b c unaffected reads => ?_⟩
    · simpa only [expr?, sameInput b unaffected] using parsed
    · exact unaffected.reads ((sameReads b c unaffected).2 reads)
  -- The cells that are not affected read each other alone, and the same in both sheets.
  have embeds : (w.sheet.alone w.library).Embeds (t.alone w.library) id
      fun s => t.Unaffected changed s.address := by
    refine ⟨confined.closed_alone, rfl, fun s unaffected => sameInput s.address unaffected, ?_⟩
    intro s e unaffected parsed r member
    have isLocal := confined.isLocal s.address e r unaffected parsed member
    cases r with
    | cell b => rfl
    | range area =>
      simp only [alone, Atlas.sight, Sight.map, List.map_map, cellsIn_congr rows columns]
      rfl
    | external _ => cases isLocal
  refine w.getElem?_evaluateWith_congr t cache cache' confined confined' embeds.recurs ?_ ⟨other, fresh⟩
  exact fun b unaffected => (embeds.onCycle_iff (s := ⟨(), b⟩) unaffected).symm

/-- The first cell refers to the blank one beside it, and the last one to an input. -/
def tallied (raw : String) : Sheet := .ofInputs ([(⟨0, 0⟩, "=B1"), (⟨0, 3⟩, "=C1")] ++ [(⟨0, 2⟩, raw)])

theorem tallied_expr?_iff {a : Address} {e : Expr} : (tallied "2").expr? a = some e ↔
    (a, e) ∈ ([(⟨0, 0⟩, .reference (.cell ⟨0, 1⟩)), (⟨0, 3⟩, .reference (.cell ⟨0, 2⟩))] :
      List (Address × Expr)) := by
  refine expr?_eq_some_iff (by decide +kernel) ?_
  simp only [List.forall_mem_cons]
  exact ⟨Expr.ofFormula_cell (by decide), Expr.ofFormula_cell (by decide), List.forall_mem_nil _⟩

theorem tallied_reads_iff {a b : Address} : (tallied "2").Reads a b ↔
    a = ⟨0, 0⟩ ∧ b = ⟨0, 1⟩ ∨ a = ⟨0, 3⟩ ∧ b = ⟨0, 2⟩ := by
  constructor
  · intro reads
    obtain ⟨e, parsed, r, member, target⟩ := reads_iff_expr?.1 reads
    have entry := tallied_expr?_iff.1 parsed
    simp only [List.mem_cons, Prod.mk.injEq, List.not_mem_nil, or_false] at entry
    obtain ⟨rfl, rfl⟩ | ⟨rfl, rfl⟩ := entry <;> cases List.mem_singleton.1 member
    · exact .inl ⟨rfl, List.mem_singleton.1 target⟩
    · exact .inr ⟨rfl, List.mem_singleton.1 target⟩
  · have reads {a b : Address} (entry : (a, .reference (.cell b)) ∈ _) : (tallied "2").Reads a b :=
      reads_iff_expr?.2 ⟨_, tallied_expr?_iff.2 entry, _, List.mem_singleton.2 rfl, List.mem_singleton.2 rfl⟩
    rintro (⟨rfl, rfl⟩ | ⟨rfl, rfl⟩)
    · exact reads List.mem_cons_self
    · exact reads (.tail _ List.mem_cons_self)

/-- The last cell is to be evaluated again when the input changes, and the first one shows the same. -/
theorem evaluateWith_tallied :
    ⟨0, 3⟩ ∈ (tallied "2").refreshOrder [⟨0, 2⟩] ∧
    (({ sheet := tallied "2", pageId := "main" } : Workbook).evaluateWith
      .empty).1[(⟨0, 0⟩ : Address)]? =
    (({ sheet := tallied "1", pageId := "main" } : Workbook).evaluateWith
      .empty).1[(⟨0, 0⟩ : Address)]? := by
  have isLocal : (tallied "2").IsLocal := isLocal_of_references fun a e parsed => by
    have entry := tallied_expr?_iff.1 parsed
    simp only [List.mem_cons, Prod.mk.injEq, List.not_mem_nil, or_false] at entry
    obtain ⟨-, rfl⟩ | ⟨-, rfl⟩ := entry <;> exact ⟨.cell _, rfl, rfl⟩
  have stays (b : Address) (other : b ∉ [(⟨0, 2⟩ : Address)]) :
      (tallied "2").get b = (tallied "1").get b := by
    have other : b ≠ ⟨0, 2⟩ := by simpa using other
    exact (get_ofInputs_append (by decide)).trans ((if_neg other).trans
      ((get_ofInputs_append (by decide)).trans (if_neg other)).symm)
  -- Only the last cell reads the input, and no cell reads the last one.
  have fresh : ⟨0, 0⟩ ∉ (tallied "2").refreshOrder [⟨0, 2⟩] := by
    rw [mem_refreshOrder]
    rintro ⟨c, isChanged, path⟩
    obtain rfl := List.mem_singleton.1 isChanged
    obtain ⟨b, before, last⟩ := Relation.TransGen.tail'_iff.1 path
    obtain ⟨-, other⟩ | ⟨rfl, -⟩ := tallied_reads_iff.1 last
    · exact absurd other (by decide)
    · rcases before.cases_tail with same | ⟨d, -, reads⟩
      · exact absurd same (by decide)
      · obtain ⟨-, other⟩ | ⟨-, other⟩ := tallied_reads_iff.1 reads <;> exact absurd other (by decide)
  refine ⟨mem_refreshOrder.2 ⟨⟨0, 2⟩, List.mem_singleton.2 rfl, .single (tallied_reads_iff.2 (.inr ⟨rfl, rfl⟩))⟩, ?_⟩
  exact evaluateWith_of_not_mem_refreshOrder { sheet := tallied "1", pageId := "main" }
    (tallied "2") [⟨0, 2⟩] .empty .empty isLocal rfl rfl stays (by decide) fresh

end Workbook
end PageCalc
