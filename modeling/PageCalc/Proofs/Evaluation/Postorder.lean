import PageCalc.Proofs.Evaluation.Consistency
import PageCalc.Proofs.Evaluation.FormulaSheets
import PageCalc.Proofs.Evaluation.StackIndex
import PageCalc.Proofs.Graph.WorkStack

/-!
# The order of pending precedents

In every state that an evaluation comes to, the pending precedents of a pending formula are all the pending
cells of its page that it leads to through such cells. Each comes once, and after those that it reads itself.
A search that goes on round by round, without recursion, comes to an end with them.
-/

namespace PageCalc

open Collection

namespace Progress

variable {p : Progress} {key : CellKey}

/-! ## Orders -/

/-- A list holds what the formula of a cell waits for on its page: the pending cells that it leads to through
pending cells, each of them once and after those that its own formula reads. -/
structure IsPostorder (p : Progress) (key : CellKey) (order : List Address) : Prop where
  distinct : order.Nodup
  others : key.address ∉ order
  complete : ∀ a, a ∈ order ↔ Relation.TransGen (p.ReadsPending key.page) key.address a
  ordered : ∀ (before after : List Address) (a b : Address), order = before ++ a :: after →
    p.ReadsPending key.page a b → b ∈ before

theorem Kept.isPostorder (kept : p.Kept) (pending : p.isPending key) :
    p.IsPostorder key (p.pendingPrecedents key) where
  distinct := List.nodup_reverse.2 (Graph.nodup_finishOrder ..)
  others member := kept.not_onCycle pending
    (onCycle_of_readsPending ((mem_pendingPrecedents_iff kept pending).1 member))
  complete _ := mem_pendingPrecedents_iff kept pending
  ordered _ _ _ _ split := pendingPrecedents_ordered kept pending split

/-! ## The search -/

/-- The pending cells of a page that the formula of its cell `a` reads. -/
def unfinishedReads (p : Progress) (page : Nat) (a : Address) : List Address :=
  ((p.dependencies page).precedentsOf a).filter fun b => p.isPending ⟨page, b⟩

/-- Searches for the pending precedents of a cell, unless more than `rounds` rounds would be needed. -/
def searchPrecedents (p : Progress) (rounds : Nat) (key : CellKey) : Option (List Address) :=
  Graph.Descent.search (p.unfinishedReads key.page) key.address rounds
    (.begin (p.unfinishedReads key.page) key.address)

theorem Kept.searchPrecedents (kept : p.Kept) (loaded : key.page < p.pages.size) :
    ∃ rounds, ∀ spare, p.searchPrecedents (rounds + spare) key = some (p.pendingPrecedents key) := by
  obtain ⟨cache, same⟩ := kept.dependencies loaded
  have within (a b : Address) (reads : b ∈ p.unfinishedReads key.page a) :
      b ∈ (p.dependencies key.page).formulas ∨ b = key.address := by
    have pending : p.isPending ⟨key.page, b⟩ := (List.mem_filter.1 reads).2
    rw [same, Dependencies.mem_formulas_ofSheet]
    exact .inl (isPending_iff.1 pending).1
  exact Graph.Descent.search_begin within

end Progress

/-! ## The states of evaluations -/

namespace Workbook

/-- The states that evaluations go through, whether they finish the precedents of a formula at once or by plain
recursion. -/
inductive Reaches (w : Workbook) (cache : ParseCache) : Progress → Prop where
  | begin : Reaches w cache (w.begin cache)
  | cells {p : Progress} (addresses : List Address)
      (written : p ∈ (w.evaluateCellsRecorded addresses (w.begin cache)).2.states) : Reaches w cache p
  | expression {p : Progress} (e : Expr)
      (written : p ∈ (w.evaluationRecorded e (w.begin cache)).2.states) : Reaches w cache p
  | visitedCells {s t : Visit} {calls : Nat} {addresses : List Address} {found : List (Address × CellValue)}
      {states : List Visit}
      (returned : ((w.evaluateCellsVisiting calls addresses).run (w.beginVisit cache)).run [] =
        some ((found, t), states)) (written : s ∈ states) : Reaches w cache s.progress
  | visitedExpression {s t : Visit} {calls : Nat} {e : Expr} {v : Value} {states : List Visit}
      (returned : ((w.evaluationVisiting calls e).run (w.beginVisit cache)).run [] = some ((v, t), states))
      (written : s ∈ states) : Reaches w cache s.progress

variable {w : Workbook} {cache : ParseCache} {p : Progress} {key : CellKey} {a b : Address}

theorem Reaches.kept (reaches : w.Reaches cache p) : p.Kept := by
  have begun := w.coherent_beginVisit cache w.options.maxDepth
  cases reaches with
  | begin => exact Progress.begin_kept w cache
  | cells addresses written =>
    exact ((w.records_evaluateCells cache addresses).tells.valid_states (Pass.valid_begin _ cache) p written).toKept
  | expression e written =>
    exact ((w.records_evaluation cache e).tells.valid_states (Pass.valid_begin _ cache) p written).toKept
  | visitedCells returned written =>
    exact ((w.restores_evaluateCells _ _ begun returned).2.2.2 _ written).toKept
  | visitedExpression returned written =>
    exact ((w.restores_evaluateExpr _ _ _ begun returned).2.2.2 _ written).toKept

/-- In every state of an evaluation, the pending precedents of a pending formula are in order, and a search
round by round ends with them. -/
theorem pendingPrecedents_postorder (reached : w.Reaches cache p) (pending : p.isPending key) :
    p.IsPostorder key (p.pendingPrecedents key) ∧
    ∃ rounds, ∀ spare, p.searchPrecedents (rounds + spare) key = some (p.pendingPrecedents key) :=
  ⟨reached.kept.isPostorder pending, reached.kept.searchPrecedents (Progress.isPending_iff.1 pending).1.loaded⟩

/-! ## A chain of mirrors -/

theorem isPending_begin_iff : (w.begin cache).isPending ⟨Progress.root, a⟩ ↔
    w.sheet.isFormula a ∧ ¬ w.sheet.OnCycle a := by
  rw [Progress.isPending_iff]
  refine and_congr_right fun _ => ⟨fun pending onCycle => ?_, fun offCycle => ⟨fun finished => ?_, ?_⟩⟩
  · exact pending.1 (mem_of_known ((Progress.begin_kept w cache).premarked Progress.root a onCycle))
  · obtain ⟨v, known⟩ := mem_iff_exists.1 finished
    exact offCycle (Progress.memo_of_begin known).2
  · exact List.not_mem_nil

theorem relay_filled : "=" ++ Address.first.text ≠ "" := by simp

/-- The first cell mirrors a blank one, and the third cell mirrors the first. -/
def relay : Workbook := { sheet := .mirrorBeside ("=" ++ Address.first.text) relay_filled, pageId := "main" }

theorem relay_reads_iff :
    relay.sheet.Reads a b ↔ a = ⟨0, 2⟩ ∧ b = .first ∨ a = .first ∧ b = ⟨0, 1⟩ := by
  have different : Address.first ≠ ⟨0, 2⟩ := by decide
  unfold Sheet.Reads Sheet.references
  rw [relay, Sheet.mirrorBeside_expr?_text (by decide)]
  by_cases third : a = ⟨0, 2⟩
  · simp [third, different.symm, Expr.references, Reference.localCells]
  · by_cases first : a = .first
    · simp [first, different, Expr.references, Reference.localCells]
    · simp [third, first]

theorem relay_offCycle : ¬ relay.sheet.OnCycle a := by
  intro onCycle
  obtain ⟨b, reads, path⟩ := Relation.TransGen.head'_iff.1 onCycle
  obtain ⟨c, -, back⟩ := Relation.TransGen.tail'_iff.1 onCycle
  rcases relay_reads_iff.1 back with ⟨-, rfl⟩ | ⟨-, rfl⟩
  · -- From the first cell there is no way on behind the blank one.
    obtain ⟨other, -⟩ | ⟨-, rfl⟩ := relay_reads_iff.1 reads
    · exact absurd other (by decide)
    · rcases path.cases_head with same | ⟨d, reads, -⟩
      · exact absurd same (by decide)
      · rcases relay_reads_iff.1 reads with ⟨other, -⟩ | ⟨other, -⟩ <;> exact absurd other (by decide)
  · rcases relay_reads_iff.1 reads with ⟨other, -⟩ | ⟨other, -⟩ <;> exact absurd other (by decide)

theorem relay_readsPending_iff :
    (relay.begin .empty).ReadsPending Progress.root a b ↔ a = ⟨0, 2⟩ ∧ b = .first := by
  have blank : ¬ relay.sheet.isFormula ⟨0, 1⟩ := by decide +kernel
  have waits : relay.sheet.isFormula .first := (relay_reads_iff.2 (.inr ⟨rfl, rfl⟩)).isFormula
  constructor
  · rintro ⟨reads, pending⟩
    rcases relay_reads_iff.1 reads with third | ⟨-, rfl⟩
    · exact third
    · exact absurd (isPending_begin_iff.1 pending).1 blank
  · rintro ⟨rfl, rfl⟩
    exact ⟨relay_reads_iff.2 (.inl ⟨rfl, rfl⟩), isPending_begin_iff.2 ⟨waits, relay_offCycle⟩⟩

/-- Before the third cell is evaluated, it waits for the first one alone. -/
theorem pendingPrecedents_relay :
    (relay.begin .empty).pendingPrecedents ⟨Progress.root, ⟨0, 2⟩⟩ = [.first] := by
  have formula : relay.sheet.isFormula ⟨0, 2⟩ := (relay_reads_iff.2 (.inl ⟨rfl, rfl⟩)).isFormula
  have pending : (relay.begin .empty).isPending ⟨Progress.root, ⟨0, 2⟩⟩ :=
    isPending_begin_iff.2 ⟨formula, relay_offCycle⟩
  obtain ⟨⟨distinct, -, complete, -⟩, -⟩ := pendingPrecedents_postorder .begin pending
  have onlyFirst (a : Address) : a ∈ (relay.begin .empty).pendingPrecedents ⟨Progress.root, ⟨0, 2⟩⟩ ↔
      a ∈ [Address.first] := by
    rw [complete, List.mem_singleton]
    constructor
    · intro path
      obtain ⟨b, -, last⟩ := Relation.TransGen.tail'_iff.1 path
      exact (relay_readsPending_iff.1 last).2
    · rintro rfl
      exact .single (relay_readsPending_iff.2 ⟨rfl, rfl⟩)
  exact List.perm_singleton.1 ((List.perm_ext_iff_of_nodup distinct (List.nodup_singleton _)).2 onlyFirst)

end Workbook
end PageCalc
