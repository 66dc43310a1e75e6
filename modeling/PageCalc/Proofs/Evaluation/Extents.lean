import PageCalc.Proofs.Evaluation.Confined
import PageCalc.Proofs.Evaluation.FormulaSheets
import PageCalc.Proofs.Evaluation.RangeInvariance
import PageCalc.Proofs.Evaluation.Transparency
import PageCalc.Proofs.Formula.Rendering
import PageCalc.Proofs.Grid.Area
import PageCalc.Proofs.Grid.Typing

/-!
# Larger grids

A larger grid shows more blanks in ranges that reach beyond the smaller one. Whoever looks at the members
of a range does not see them. Where a range is used as a single value, they matter only if the range
shows one value at most in the smaller grid and several in the larger one.
-/

namespace PageCalc

open Collection

section Blanks

variable {α : Type} {cells others : α → Value → Prop} {inside : α → Bool} {bs : List α} {us : List Value}

/-- With blanks in all places outside, the values inside are found in the whole list. -/
theorem exists_padded (answered : List.Forall₂ cells (bs.filter inside) us)
    (kept : ∀ b ∈ bs, inside b = true → ∀ u, cells b u → others b u)
    (blank : ∀ b ∈ bs, inside b = false → others b .blank) :
    ∃ vs, List.Forall₂ others bs vs ∧ Value.Padded us vs := by
  induction bs generalizing us with
  | nil =>
    cases answered
    exact ⟨[], .nil, .nil⟩
  | cons b bs ih =>
    obtain ⟨keptFirst, keptRest⟩ := List.forall_mem_cons.1 kept
    obtain ⟨blankFirst, blankRest⟩ := List.forall_mem_cons.1 blank
    cases isInside : inside b with
    | true =>
      rw [List.filter_cons_of_pos isInside] at answered
      cases answered with
      | @cons _ u _ us first rest =>
        obtain ⟨vs, each, padded⟩ := ih rest keptRest blankRest
        exact ⟨u :: vs, .cons (keptFirst isInside u first) each, padded.keep u⟩
    | false =>
      rw [List.filter_cons_of_neg (by simp [isInside])] at answered
      obtain ⟨vs, each, padded⟩ := ih answered keptRest blankRest
      exact ⟨.blank :: vs, .cons (blankFirst isInside) each, padded.blank⟩

end Blanks

namespace Sheet

variable {s t : Sheet} {library : Library} {domain : Address → Prop} {a b : Address} {area : Range}

/-- The range shows several values in the larger grid only if it does so in the smaller one. -/
def Keeps (s t : Sheet) (area : Range) : Prop := 2 ≤ (t.cellsIn area).length → 2 ≤ (s.cellsIn area).length

/-- The second sheet has a larger grid, and the same inputs in the domain. No formula there uses a range
as a single value that shows several values in the larger grid only. -/
structure Widens (library : Library) (s t : Sheet) (domain : Address → Prop) : Prop where
  rows : s.rows ≤ t.rows
  columns : s.columns ≤ t.columns
  input : ∀ a, domain a → t.input a = s.input a
  confined : t.Confined domain
  keeps : ∀ (a : Address) (e : Expr) (area : Range), domain a → t.expr? a = some e →
    .range area ∈ e.singles library .single → s.Keeps t area

namespace Widens

variable (widens : Widens library s t domain)

include widens

theorem expr? (inDomain : domain a) : t.expr? a = s.expr? a := by
  simp only [Sheet.expr?, widens.input a inDomain]

theorem reads (inDomain : domain a) (reads : s.Reads a b) : t.Reads a b := by
  obtain ⟨r, member, target⟩ := reads
  refine ⟨r, by simpa only [references, widens.expr? inDomain] using member, ?_⟩
  cases r with
  | cell _ | external _ => exact target
  | range area => exact cellsIn_subset widens.rows widens.columns target

theorem narrow : s.Confined domain where
  isLocal a e r inDomain parsed :=
    widens.confined.isLocal a e r inDomain ((widens.expr? inDomain).trans parsed)
  closed a b inDomain reads := widens.confined.closed a b inDomain (widens.reads inDomain reads)

theorem blank (inDomain : domain a) (outside : s.holds a = false) : t.input a = .blank := by
  rw [widens.input a inDomain]
  by_contra typed
  rw [holds_of_mem (mem_inputs_iff.2 typed)] at outside
  cases outside

/-- A formula that is read lies in the smaller grid, so it is read there as well. -/
theorem reads_back (inDomain : domain a) (reads : t.Reads a b) (formula : t.isFormula b) : s.Reads a b := by
  have inDomain' := widens.confined.closed a b inDomain reads
  obtain ⟨r, member, target⟩ := reads
  refine ⟨r, by simpa only [references, widens.expr? inDomain] using member, ?_⟩
  cases r with
  | cell _ | external _ => exact target
  | range area =>
    have typed : b ∈ s.inputs := by
      refine mem_inputs_of_isFormula ?_
      rw [isFormula, ← widens.input b inDomain']
      exact formula
    rw [Reference.localCells, ← filter_cellsIn widens.rows widens.columns]
    exact List.mem_filter.2 ⟨target, holds_of_mem typed⟩

theorem onCycle_iff (inDomain : domain a) : s.OnCycle a ↔ t.OnCycle a := by
  constructor
  · exact transGen_along (g := id) widens.narrow.closed (fun b c => widens.reads) inDomain
  · intro onCycle
    obtain ⟨b, first, -⟩ := Relation.TransGen.head'_iff.1 onCycle
    -- Whatever is read on a cycle is a formula.
    have back {c : Address} (path : Relation.TransGen t.Reads c a) :
        domain c → Relation.TransGen s.Reads c a := by
      induction path using Relation.TransGen.head_induction_on with
      | single reads => exact fun inDomain => .single (widens.reads_back inDomain reads first.isFormula)
      | head reads path ih =>
        intro inDomain
        obtain ⟨d, next, -⟩ := Relation.TransGen.head'_iff.1 path
        exact .head (widens.reads_back inDomain reads next.isFormula)
          (ih (widens.confined.closed _ _ inDomain reads))
    exact back onCycle inDomain

/-- What a reference shows in the smaller grid it shows in the larger one, up to blanks. -/
theorem exists_seen {tight : Reference → Prop} {cells others : Site Unit → Value → Prop} {r : Reference}
    {e : Expr} {u : Value} (inDomain : domain a) (parsed : t.expr? a = some e) (member : r ∈ e.references)
    (keeps : ∀ area, r = .range area → tight r → s.Keeps t area)
    (weaker : ∀ b v, s.Reads a b → cells ⟨(), b⟩ v → others ⟨(), b⟩ v)
    (literal : ∀ b v, (t.input b).literal? = some v → others ⟨(), b⟩ v)
    (gives : ((s.alone library).sight () r).Gives cells u) :
    ∃ v, ((t.alone library).sight () r).Gives others v ∧ Seen tight r u v := by
  have inReferences : r ∈ s.references a := by
    simp [references, ← widens.expr? inDomain, parsed, member]
  have inReferences' : r ∈ t.references a := by simp [references, parsed, member]
  cases r with
  | cell b =>
    obtain ⟨x, answered, rfl⟩ := gives
    exact ⟨x.propagated, ⟨x, weaker b x ⟨_, inReferences, List.mem_singleton.2 rfl⟩ answered, rfl⟩, .same⟩
  | range area =>
    obtain ⟨us, answered, rfl⟩ := gives
    have answered : List.Forall₂ (fun b v => cells ⟨(), b⟩ v) ((t.cellsIn area).filter s.holds) us := by
      rw [filter_cellsIn widens.rows widens.columns]
      exact List.forall₂_map_left_iff.1 answered
    have within (b : Address) (target : b ∈ t.cellsIn area) : domain b :=
      widens.confined.closed a b inDomain ⟨_, inReferences', target⟩
    -- What the larger grid shows in addition lies outside the smaller one, and is blank.
    obtain ⟨vs, each, padded⟩ : ∃ vs, List.Forall₂ (fun b v => others ⟨(), b⟩ v) (t.cellsIn area) vs ∧
        Value.Padded us vs := by
      refine exists_padded answered (fun b target isInside v cell => weaker b v ⟨_, inReferences, ?_⟩ cell)
        fun b target outside => literal b .blank ?_
      · rw [Reference.localCells, ← filter_cellsIn widens.rows widens.columns]
        exact List.mem_filter.2 ⟨target, isInside⟩
      · rw [widens.blank (within b target) outside]
        rfl
    refine ⟨_, ⟨vs, List.forall₂_map_left_iff.2 each, rfl⟩, fun isTight => ?_,
      .lists padded.propagated.filled fun isSingle => by cases isSingle⟩
    -- Blanks show where the range is a single value, unless there are several values anyway.
    refine .lists padded.propagated.filled fun _ => padded.propagated.scalar ?_
    rw [List.length_map, List.length_map, ← each.length_eq, ← answered.length_eq,
      filter_cellsIn widens.rows widens.columns]
    exact keeps area rfl isTight
  | external external => cases widens.confined.isLocal a e _ inDomain parsed member

theorem recurs (respects : library.Respects) :
    (s.alone library).Recurs (t.alone library) id fun site => domain site.address where
  closed := widens.narrow.closed_alone
  input site inDomain := widens.input site.address inDomain
  yields site e cells others x inDomain parsed weaker literal yields := by
    have parsed' : t.expr? site.address = some e := (widens.expr? inDomain).trans parsed
    have alike : (e.plan library).Alike (Seen (· ∈ e.singles library .single)) Use.single.Alike
        (e.plan library) := alike_plan respects .single e fun r member => member
    obtain ⟨y, yields', isAlike⟩ : ∃ y, (e.plan library).Yields (fun r u =>
        ((t.alone library).sight () r).Gives others u) y ∧ Use.single.Alike x y := by
      refine alike.yields (yields_within yields) ?_
      rintro r u ⟨member, gives⟩
      refine widens.exists_seen inDomain parsed' (e.evaluated_subset _ member) ?_ ?_
        (fun b => literal ⟨(), b⟩) gives
      · rintro area rfl
        exact widens.keeps site.address e area inDomain parsed'
      · exact fun b v reads => weaker ⟨(), b⟩ v (Atlas.ReadsInside.reads ⟨rfl, reads⟩)
    exact ⟨y, yields', isAlike.finish.symm⟩

end Widens

/-- No formula that the cell leads to uses a range as a single value that shows several values in the
larger grid only. -/
def Steady (library : Library) (s t : Sheet) (a : Address) : Prop :=
  ∀ (b : Address) (e : Expr) (area : Range), Relation.ReflTransGen t.Reads a b → t.expr? b = some e →
    .range area ∈ e.singles library .single → s.Keeps t area

end Sheet

namespace Workbook

open Sheet

variable {w : Workbook} {cache cache' : ParseCache} {a : Address}

/-- In a larger grid a cell that leads only to inputs that stay as they were has the same value. -/
theorem evaluateWith_of_steady (w : Workbook) (t : Sheet) (cache cache' : ParseCache)
    (respects : w.library.Respects) (isLocal : w.sheet.IsLocal) (rows : w.sheet.rows ≤ t.rows)
    (columns : w.sheet.columns ≤ t.columns)
    (same : ∀ b, Relation.ReflTransGen t.Reads a b → t.input b = w.sheet.input b)
    (steady : w.sheet.Steady w.library t a) :
    (({ w with sheet := t } : Workbook).evaluateWith cache').1[a]? = (w.evaluateWith cache).1[a]? := by
  have confined : t.Confined (Relation.ReflTransGen t.Reads a) := by
    refine ⟨fun b e r path parsed => isLocal b e r ?_, fun _ _ path reads => path.tail reads⟩
    simpa only [Sheet.expr?, same b path] using parsed
  have widens : Widens w.library w.sheet t (Relation.ReflTransGen t.Reads a) :=
    ⟨rows, columns, same, confined, fun b e area => steady b e area⟩
  exact w.getElem?_evaluateWith_congr t cache cache' widens.narrow confined (widens.recurs respects)
    (fun b path => widens.onCycle_iff path) .refl

/-- Neither a larger grid nor what is typed outside the grid into a cell that another one does not lead to
changes the value of the other one, unless ranges that are used as single values show several values
then. -/
theorem evaluateWith_of_larger (w : Workbook) (cache cache' : ParseCache) (respects : w.library.Respects)
    (isLocal : w.sheet.IsLocal) :
    (∀ rows columns a, w.sheet.Steady w.library (w.sheet.ensureSize rows columns) a →
      (({ w with sheet := w.sheet.ensureSize rows columns } : Workbook).evaluateWith cache').1[a]? =
        (w.evaluateWith cache).1[a]?) ∧
    (∀ x raw t a, w.sheet.set x raw = .ok t →
      ¬ Relation.ReflTransGen t.Reads a x → w.sheet.Steady w.library t a →
      (({ w with sheet := t } : Workbook).evaluateWith cache').1[a]? = (w.evaluateWith cache).1[a]?) := by
  constructor
  · intro rows columns a steady
    exact w.evaluateWith_of_steady _ cache cache' respects isLocal (Nat.le_max_left ..)
      (Nat.le_max_left ..) (fun _ _ => rfl) steady
  · intro x raw t a done unrelated steady
    have typed := typed_of_set done
    refine w.evaluateWith_of_steady t cache cache' respects isLocal typed.rows_le typed.columns_le ?_ steady
    rintro b path
    exact typed.input_of_ne fun isX => unrelated (isX ▸ path)

/-- The sum of a column that reaches below the grid. -/
def columnSum : Expr := .call "SUM" [.reference (.range (.spanning ⟨0, 1⟩ ⟨8, 1⟩))]

theorem ofFormula_columnSum : Expr.ofFormula columnSum.formula = .ok columnSum := by
  have isName : IsName "SUM" ∧ Text.upper "SUM" = "SUM" :=
    ⟨⟨⟨'S', ['U', 'M'], rfl, by decide⟩, List.all_eq_true.1 rfl⟩, rfl⟩
  have upper : Address.InBounds ⟨0, 1⟩ := by decide
  have lower : Address.InBounds ⟨8, 1⟩ := by decide
  exact Expr.ofFormula_of_room ⟨isName, ⟨upper, lower⟩, trivial⟩ (show 1 + 1 ≤ maxNesting by decide)

def summing : Sheet :=
  ((Sheet.empty.ensureSize 2 2).insert ⟨0, 0⟩ "=SUM(B1:B9)" (by decide) (by decide)).insert ⟨0, 1⟩ "1" (by decide)
    (by decide)

/-- Neither a larger grid nor an input below the grid changes the sum, although its range shows more cells then. -/
theorem evaluateWith_summing :
    (({ sheet := summing.ensureSize 9 9, pageId := "main" } : Workbook).evaluateWith .empty).1[(⟨0, 0⟩ : Address)]? =
      (({ sheet := summing, pageId := "main" } : Workbook).evaluateWith .empty).1[(⟨0, 0⟩ : Address)]? ∧
    ∃ t, summing.set ⟨9, 9⟩ "7" = .ok t ∧
      (({ sheet := t, pageId := "main" } : Workbook).evaluateWith .empty).1[(⟨0, 0⟩ : Address)]? =
        (({ sheet := summing, pageId := "main" } : Workbook).evaluateWith .empty).1[(⟨0, 0⟩ : Address)]? := by
  have trees {t : Sheet} (formulas : t.formulas = [(⟨0, 0⟩, columnSum.formula)]) (a : Address) (e : Expr) :
      t.expr? a = some e ↔ (a, e) ∈ [((⟨0, 0⟩ : Address), columnSum)] :=
    expr?_eq_some_iff formulas fun entry member => by
      rw [List.mem_singleton.1 member]
      exact ofFormula_columnSum
  have steady {t : Sheet} (formulas : t.formulas = [(⟨0, 0⟩, columnSum.formula)]) :
      summing.Steady Library.builtin t ⟨0, 0⟩ := by
    intro b e area _ parsed member
    cases List.mem_singleton.1 ((trees formulas b e).1 parsed)
    have none : columnSum.singles Library.builtin .single = [] := by decide +kernel
    rw [none] at member
    cases member
  have isLocal : summing.IsLocal := by
    intro a e r parsed member
    cases List.mem_singleton.1 ((trees (by decide +kernel) a e).1 parsed)
    cases List.mem_singleton.1 member
    rfl
  obtain ⟨larger, typed⟩ := evaluateWith_of_larger { sheet := summing, pageId := "main" } .empty .empty
    Library.builtin_respects isLocal
  refine ⟨larger 9 9 ⟨0, 0⟩ (steady (by decide +kernel)), _, rfl, typed ⟨9, 9⟩ "7" _ ⟨0, 0⟩ rfl ?_
    (steady (by decide +kernel))⟩
  -- The sum leads to the cells of its range, which hold no formulas, and the input stands in none of them.
  intro path
  rcases path.cases_head with same | ⟨b, first, rest⟩
  · exact absurd same (by decide)
  · obtain ⟨e, parsed, r, member, target⟩ := Sheet.reads_iff_expr?.1 first
    cases List.mem_singleton.1 ((trees (by decide +kernel) _ e).1 parsed)
    cases List.mem_singleton.1 member
    rw [Reference.localCells, mem_cellsIn] at target
    rcases rest.cases_head with rfl | ⟨c, second, -⟩
    · exact absurd target.1 (by decide)
    · obtain ⟨e, parsed, -⟩ := Sheet.reads_iff_expr?.1 second
      cases List.mem_singleton.1 ((trees (by decide +kernel) _ e).1 parsed)
      exact absurd target.1 (by decide)

/-! ## A range that is used as a single value -/

/-- A text, and a formula that refers to a range of which only the cell with the text lies in the grid. -/
def pinched : Workbook where
  sheet := ((Sheet.empty.ensureSize 1 2).insert .first "x" (by decide) (by decide)).insert ⟨0, 1⟩ "=A1:A2"
    (by decide) (by decide)
  pageId := "main"

def pinchedArea : Range := .spanning .first ⟨1, 0⟩

theorem ofFormula_pinched : Expr.ofFormula (Expr.reference (.range pinchedArea)).formula =
    .ok (.reference (.range pinchedArea)) :=
  Expr.ofFormula_of_room (show pinchedArea.InBounds from ⟨by decide, by decide⟩) (show 0 + 1 ≤ maxNesting by decide)

def pinchedCache : ParseCache :=
  .ofExprs [.reference (.range pinchedArea)] fun _ member => List.mem_singleton.1 member ▸ ofFormula_pinched

/-- A larger grid changes the value of a formula that uses a range as a single value. -/
theorem extents_matter : pinched.sheet.IsLocal ∧
    (pinched.evaluateWith .empty).1[(⟨0, 1⟩ : Address)]? = some (.text "x") ∧
    (({ pinched with sheet := pinched.sheet.ensureSize 2 2 } : Workbook).evaluateWith
      .empty).1[(⟨0, 1⟩ : Address)]? = some (.error .severalValues) := by
  have trees (a : Address) (e : Expr) : pinched.sheet.expr? a = some e ↔
      (a, e) ∈ [((⟨0, 1⟩ : Address), Expr.reference (.range pinchedArea))] :=
    expr?_eq_some_iff (by decide +kernel) fun entry member => by
      rw [List.mem_singleton.1 member]
      exact ofFormula_pinched
  have isLocal : pinched.sheet.IsLocal := isLocal_of_references fun a e parsed => by
    cases List.mem_singleton.1 ((trees a e).1 parsed)
    exact ⟨.range pinchedArea, rfl, rfl⟩
  have shown (w : Workbook) (x : CellValue)
      (same : (w.evaluateWith pinchedCache).1[(⟨0, 1⟩ : Address)]? = some x) :
      (w.evaluateWith .empty).1[(⟨0, 1⟩ : Address)]? = some x := by
    rw [evaluateWith_fst] at same
    exact same
  exact ⟨isLocal, shown _ _ (by decide +kernel), shown _ _ (by decide +kernel)⟩

end Workbook
end PageCalc
