import PageCalc.Proofs.Evaluation.Consistency
import PageCalc.Proofs.Evaluation.FinishedMeaning
import PageCalc.Proofs.Evaluation.Transfer

/-!
# Cells that stay on their page

Where formulas refer to cells of their own sheet only, and so do the formulas that they read, their
values are those of the sheet on its own. Nothing else in the workbook matters to them, neither other
pages nor the formulas of the same sheet that refer to these, nor how deeply references nest there.
-/

namespace PageCalc

open Collection

namespace Sheet

/-- The formulas in the domain refer to cells of the sheet only, and the domain holds these cells. -/
structure Confined (sheet : Sheet) (domain : Address → Prop) : Prop where
  isLocal : ∀ (a : Address) (e : Expr) (r : Reference), domain a → sheet.expr? a = some e →
    r ∈ e.references → r.isLocal
  closed : ∀ a b, domain a → sheet.Reads a b → domain b

/-- The atlas of a sheet on its own. -/
def alone (sheet : Sheet) (library : Library) : Atlas Unit where
  sheet _ := sheet
  find _ := .error "Page not found"
  wholeSheet := .reject
  library := library

variable {sheet other : Sheet} {library : Library} {domain : Address → Prop} {a b : Address}

theorem IsLocal.confined (isLocal : sheet.IsLocal) (closed : ∀ a b, domain a → sheet.Reads a b → domain b) :
    sheet.Confined domain :=
  ⟨fun a e r _ => isLocal a e r, closed⟩

theorem mem_inputs_iff : a ∈ sheet.inputs ↔ sheet.input a ≠ .blank := by
  rw [input, get, mem_iff_exists]
  cases typed : sheet.inputs[a]? with
  | none => simp [Input.ofText]
  | some raw =>
    have filled : raw.isEmpty = false := by simpa using sheet.nonempty a raw typed
    simp only [Option.some.injEq, exists_eq', Option.getD_some, Input.ofText, filled, Bool.false_eq_true,
      if_false, true_iff]
    split
    · simp
    · split <;> simp

/-- What stays on the page in some atlas is read in the sheet. -/
theorem Confined.reads {π : Type} {atlas : Atlas π} {page : π} {t : Site π} (confined : sheet.Confined domain)
    (isSheet : atlas.sheet page = sheet) (inDomain : domain a) (reads : atlas.Reads ⟨page, a⟩ t) :
    t.page = page ∧ sheet.Reads a t.address := by
  rcases reads.inside_or_across with ⟨stays, inside⟩ | ⟨e, parsed, r, member, external, -⟩
  · rw [isSheet] at inside
    exact ⟨stays, inside⟩
  · have parsed : (atlas.sheet page).expr? a = some e := parsed
    rw [isSheet] at parsed
    rw [confined.isLocal a e r inDomain parsed member] at external
    cases external

theorem Confined.dependsOn {π : Type} {atlas : Atlas π} {page : π} {t : Site π}
    (confined : sheet.Confined domain) (isSheet : atlas.sheet page = sheet) (inDomain : domain a)
    (path : atlas.DependsOn ⟨page, a⟩ t) :
    t.page = page ∧ domain t.address ∧ Relation.TransGen sheet.Reads a t.address := by
  induction path with
  | single reads =>
    obtain ⟨stays, reads⟩ := confined.reads isSheet inDomain reads
    exact ⟨stays, confined.closed _ _ inDomain reads, .single reads⟩
  | @tail t u _ reads ih =>
    obtain ⟨page, b⟩ := t
    obtain ⟨rfl, inDomain', path⟩ := ih
    obtain ⟨stays, reads⟩ := confined.reads isSheet inDomain' reads
    exact ⟨stays, confined.closed _ _ inDomain' reads, path.tail reads⟩

theorem Confined.closed_alone (confined : sheet.Confined domain) :
    (sheet.alone library).Closed fun s => domain s.address :=
  fun _ t inDomain reads => confined.closed _ t.address inDomain (confined.reads rfl inDomain reads).2

theorem denotes_of_onCycle (onCycle : sheet.OnCycle a) :
    (sheet.alone library).Denotes ⟨(), a⟩ (.error .circular) := by
  have onCycle : (sheet.alone library).OnCycle ⟨(), a⟩ := onCycle
  obtain ⟨e, parsed⟩ := Atlas.expr?_of_onCycle onCycle
  exact .circular trivial parsed onCycle

end Sheet

/-- At the beginning just the cells on cycles of the sheet are finished. -/
theorem Workbook.memo_begin_iff {w : Workbook} {cache : ParseCache} {a : Address} {v : Value} :
    (w.begin cache).memo[(⟨Progress.root, a⟩ : CellKey)]? = some v ↔
      v = .error .circular ∧ w.sheet.OnCycle a := by
  have valid := (Pass.ofSheet w none).valid_begin cache
  have isRoot : (w.begin cache).sheet Progress.root = w.sheet := Pass.root_sheet valid
  constructor
  · intro known
    obtain ⟨isCircular, onCycle⟩ := Progress.memo_of_begin known
    have onCycle : ((w.begin cache).sheet Progress.root).OnCycle a := onCycle
    rw [isRoot] at onCycle
    exact ⟨isCircular, onCycle⟩
  · rintro ⟨rfl, onCycle⟩
    refine valid.premarked Progress.root a ?_
    rw [← isRoot] at onCycle
    exact onCycle

variable {w : Workbook} {domain : Address → Prop}

/-- The values of finished cells in the domain are those of the root on its own. -/
def Progress.Grounded (w : Workbook) (domain : Address → Prop) (p : Progress) : Prop :=
  ∀ (a : Address) (v : Value), domain a → p.memo[(⟨Progress.root, a⟩ : CellKey)]? = some v →
    (w.sheet.alone w.library).Denotes ⟨(), a⟩ v

namespace Pass

variable {pass : Pass} {p p' : Progress} {a b : Address} {v : Value} {r : Reference} {cache : ParseCache}

theorem root_input (valid : pass.Valid p) : p.input ⟨Progress.root, a⟩ = pass.book.sheet.input a := by
  rw [Progress.input, root_sheet valid]

theorem denotes_of_literal (valid : pass.Valid p)
    (literal : (p.input ⟨Progress.root, a⟩).literal? = some v) :
    (pass.book.sheet.alone pass.book.library).Denotes ⟨(), a⟩ v := by
  rw [root_input valid] at literal
  exact .literal literal

/-- A formula under evaluation lies on no cycle of its page: such cells are finished from the start. -/
theorem not_onCycle_of_entered (valid : pass.Valid p) (entered : ⟨Progress.root, a⟩ ∈ p.stack) :
    ¬ pass.book.sheet.OnCycle a := by
  intro onCycle
  rw [← root_sheet valid] at onCycle
  exact (valid.entered _ entered).2 (mem_of_known (valid.premarked Progress.root a onCycle))

theorem unmarked_of_confined (valid : pass.Valid p) (confined : pass.book.sheet.Confined domain)
    (inDomain : domain a) : ⟨Progress.root, a⟩ ∉ p.circular := by
  intro marked
  obtain ⟨entered, path⟩ := valid.marked _ marked
  exact not_onCycle_of_entered valid entered (confined.dependsOn (root_sheet valid) inDomain path).2.2

/-- A formula that stays on the page finds the values of the sheet on its own in what it reads. -/
theorem Answers.denotes {rest : List CellKey} (answers : pass.Answers p ⟨Progress.root, b⟩ v)
    (valid : pass.Valid p) (confined : pass.book.sheet.Confined domain)
    (grounded : p.Grounded pass.book domain) (stackIs : p.stack = ⟨Progress.root, a⟩ :: rest)
    (inDomain : domain a) (reads : pass.book.sheet.Reads a b) :
    (pass.book.sheet.alone pass.book.library).Denotes ⟨(), b⟩ v := by
  have isRoot := root_sheet valid
  have inDomain' := confined.closed a b inDomain reads
  cases answers with
  | finished known => exact grounded b v inDomain' known
  | typed _ literal => exact denotes_of_literal valid literal
  | waiting entered =>
    -- Whatever waits for the innermost formula would lie on a cycle inside the page.
    refine absurd ?_ (not_onCycle_of_entered valid entered)
    have pairwise := valid.pairwise
    rw [stackIs] at entered pairwise
    rcases List.mem_cons.1 entered with same | below
    · cases same
      exact .single reads
    · have path := (List.pairwise_cons.1 pairwise).1 _ below
      exact (confined.dependsOn isRoot inDomain' path).2.2.tail reads
  | tooDeep _ _ asked =>
    rw [AskedAcross, stackIs] at asked
    obtain ⟨e, parsed, r, member, external, -⟩ := asked
    have parsed : (p.sheet Progress.root).expr? a = some e := parsed
    rw [isRoot] at parsed
    rw [confined.isLocal a e r inDomain parsed (e.evaluated_subset _ member)] at external
    cases external

theorem sight_alone (valid : pass.Valid p) (isLocal : r.isLocal) :
    (pass.book.sheet.alone pass.book.library).sight () r =
      ((p.atlas pass.book).sight Progress.root r).map fun _ => () := by
  cases r with
  | cell b => rfl
  | range area =>
    simp only [Atlas.sight, Progress.atlas_sheet, root_sheet valid, Sheet.alone, Sight.map, List.map_map]
    rfl
  | external _ => cases isLocal

theorem Computed.denotes (computed : pass.Computed p ⟨Progress.root, a⟩ v) (valid : pass.Valid p)
    (confined : pass.book.sheet.Confined domain) (grounded : p.Grounded pass.book domain)
    (innermost : p.stack.head? = some ⟨Progress.root, a⟩) (inDomain : domain a) :
    (pass.book.sheet.alone pass.book.library).Denotes ⟨(), a⟩ v := by
  obtain ⟨rest, stackIs⟩ := List.head?_eq_some_iff.1 innermost
  have entered : ⟨Progress.root, a⟩ ∈ p.stack := List.mem_of_head? innermost
  cases computed with
  | fault typed parsed => exact .fault trivial ((root_input valid).symm.trans typed) parsed
  | @value source e x typed parsed yields =>
    have tree : pass.book.sheet.expr? a = some e := by
      have parsed : (p.atlas pass.book).expr? ⟨Progress.root, a⟩ = some e :=
        Atlas.expr?_of_parsed typed parsed
      rw [← root_sheet valid]
      exact parsed
    have inAtlas : (p.atlas pass.book).expr? ⟨Progress.root, a⟩ = some e := Atlas.expr?_of_parsed typed parsed
    -- All that is read stays on the page and in the domain, where what is kept denotes already.
    refine .formula trivial tree (not_onCycle_of_entered valid entered) (fun _ _ => id)
      ((yields_within yields).mono ?_)
    rintro r u ⟨member, -, gives⟩
    have member := e.evaluated_subset _ member
    show ((pass.book.sheet.alone pass.book.library).sight () r).Gives _ u
    rw [sight_alone valid (confined.isLocal a e r inDomain tree member)]
    refine gives.map fun t seen u answers => ?_
    have reads : (p.atlas pass.book).Reads ⟨Progress.root, a⟩ t := ⟨e, inAtlas, r, member, seen⟩
    obtain ⟨stays, reads⟩ := confined.reads (root_sheet valid) inDomain reads
    obtain ⟨place, b⟩ := t
    subst stays
    exact answers.denotes valid confined grounded stackIs inDomain reads

theorem Step.grounded (step : pass.Step p p') (valid : pass.Valid p)
    (confined : pass.book.sheet.Confined domain) (grounded : p.Grounded pass.book domain) :
    p'.Grounded pass.book domain := by
  cases step with
  | parse | close | enter => exact grounded
  | resolve page =>
    intro a v inDomain known
    rcases Progress.memo_of_resolve known with before | ⟨rfl, onCycle⟩
    · exact grounded a v inDomain before
    · have onCycle : ((p.resolve pass.book page).2.sheet Progress.root).OnCycle a := onCycle
      rw [root_sheet (valid.resolve page)] at onCycle
      exact Sheet.denotes_of_onCycle onCycle
  | @leave key v innermost computed =>
    intro a u inDomain known
    rcases memo_of_leave known with before | ⟨rfl, ⟨isMarked, -⟩ | ⟨-, rfl⟩⟩
    · exact grounded a u inDomain before
    · exact absurd isMarked (unmarked_of_confined valid confined inDomain)
    · exact computed.denotes valid confined grounded innermost inDomain

theorem grounded_begin (pass : Pass) (cache : ParseCache) :
    (pass.book.begin cache).Grounded pass.book domain := by
  intro a v _ known
  obtain ⟨rfl, onCycle⟩ := Workbook.memo_begin_iff.1 known
  exact Sheet.denotes_of_onCycle onCycle

theorem Steps.grounded (steps : pass.Steps (pass.book.begin cache) p)
    (confined : pass.book.sheet.Confined domain) : p.Grounded pass.book domain := by
  induction steps with
  | refl => exact pass.grounded_begin cache
  | tail before step ih => exact step.grounded (Steps.valid (pass.valid_begin cache) before) confined ih

end Pass

namespace Workbook

/-- A cell that stays on the page gets the value that it has in the sheet on its own, whatever the other
cells, the resolver and the limit on the depth are, as long as any formula may be entered. -/
theorem getElem?_evaluateWith_of_confined (w : Workbook) (cache : ParseCache)
    (room : 0 < w.options.maxDepth) (confined : w.sheet.Confined domain) {a : Address} (inDomain : domain a) :
    (a ∉ w.sheet.inputs ∧ (w.evaluateWith cache).1[a]? = none) ∨
    (a ∈ w.sheet.inputs ∧ ∃ v, (w.sheet.alone w.library).Denotes ⟨(), a⟩ v ∧
      (w.evaluateWith cache).1[a]? = some v.toCellValue) := by
  refine (w.getElem?_evaluateWith w.options.maxDepth cache a).imp id ?_
  rintro ⟨typed, v, answers, shown⟩
  have runs := w.runs_evaluate w.options.maxDepth cache
  have valid := runs.valid (Pass.valid_begin _ cache)
  refine ⟨typed, v, ?_, shown⟩
  rcases answers.of_idle runs.stack with known | literal | ⟨-, -, isZero⟩
  · exact Pass.Steps.grounded runs.steps confined a v inDomain known
  · exact Pass.denotes_of_literal valid literal
  · exact absurd (Option.some.inj isZero) (Nat.ne_of_gt room)

theorem found_begin_congr {w : Workbook} {t : Sheet} {cache cache' : ParseCache} {a : Address}
    (sameInput : t.input a = w.sheet.input a) (cycles : w.sheet.OnCycle a ↔ t.OnCycle a) :
    (({ w with sheet := t } : Workbook).begin cache').found ⟨Progress.root, a⟩ =
      (w.begin cache).found ⟨Progress.root, a⟩ := by
  have input : (w.begin cache).input ⟨Progress.root, a⟩ = w.sheet.input a :=
    Pass.root_input ((Pass.ofSheet w none).valid_begin cache)
  have input' : (({ w with sheet := t } : Workbook).begin cache').input ⟨Progress.root, a⟩ = t.input a :=
    Pass.root_input ((Pass.ofSheet { w with sheet := t } none).valid_begin cache')
  have memo : (({ w with sheet := t } : Workbook).begin cache').memo[(⟨Progress.root, a⟩ : CellKey)]? =
      (w.begin cache).memo[(⟨Progress.root, a⟩ : CellKey)]? :=
    Option.ext fun v => by rw [memo_begin_iff, memo_begin_iff, cycles]
  rw [Progress.found, Progress.found, input, input', memo, sameInput]

/-- Cells that stay on the page have the same values in two sheets, if they recur in the other one and lie
on the same cycles there. -/
theorem getElem?_evaluateWith_congr (w : Workbook) (t : Sheet) (cache cache' : ParseCache)
    (confined : w.sheet.Confined domain) (confined' : t.Confined domain)
    (recurs : (w.sheet.alone w.library).Recurs (t.alone w.library) id fun s => domain s.address)
    (cycles : ∀ a, domain a → (w.sheet.OnCycle a ↔ t.OnCycle a)) {a : Address} (inDomain : domain a) :
    (({ w with sheet := t } : Workbook).evaluateWith cache').1[a]? = (w.evaluateWith cache).1[a]? := by
  have sameInput : t.input a = w.sheet.input a := recurs.input ⟨(), a⟩ inDomain
  have typed_iff : a ∈ t.inputs ↔ a ∈ w.sheet.inputs := by
    rw [Sheet.mem_inputs_iff, Sheet.mem_inputs_iff, sameInput]
  by_cases noRoom : w.options.maxDepth = 0
  · rw [getElem?_evaluateWith_zero { w with sheet := t } cache' noRoom,
      w.getElem?_evaluateWith_zero cache noRoom, found_begin_congr sameInput (cycles a inDomain)]
    by_cases typed : a ∈ w.sheet.inputs
    · rw [Std.ExtTreeMap.getElem?_eq_some_getElem typed,
        Std.ExtTreeMap.getElem?_eq_some_getElem (typed_iff.2 typed), Option.map_some, Option.map_some]
    · rw [Std.ExtTreeMap.getElem?_eq_none typed,
        Std.ExtTreeMap.getElem?_eq_none fun typed' => typed (typed_iff.1 typed'), Option.map_none]
  have room := Nat.pos_of_ne_zero noRoom
  have known := w.getElem?_evaluateWith_of_confined cache room confined inDomain
  have known' := ({ w with sheet := t } : Workbook).getElem?_evaluateWith_of_confined cache' room confined'
    inDomain
  rcases known with ⟨blank, shown⟩ | ⟨typed, v, denotes, shown⟩
  · have known' := known'.resolve_right fun typed => blank (typed_iff.1 typed.1)
    rw [shown, known'.2]
  · obtain ⟨-, v', denotes', shown'⟩ := known'.resolve_left fun blank => blank.1 (typed_iff.2 typed)
    -- The value in one sheet is denoted in the other one too, and there is only one such value.
    have transferred : (t.alone w.library).Denotes ⟨(), a⟩ v :=
      recurs.denotes (fun s inDomain _ => cycles s.address inDomain) inDomain denotes
    have same := transferred.unique confined'.closed_alone (fun _ _ _ _ => Iff.rfl) inDomain denotes'
    rw [shown, shown', same]

end Workbook
end PageCalc
