import PageCalc.Proofs.Evaluation.SingleCell

/-!
# Flattened arguments

Some functions look at all members of their arguments, in the order of the arguments and of the cells of each
range. To such a function a range is the same as any cells and ranges that list the same cells in the same order:
the cells are read in the same order, what comes of them is put together in the same order, and the same error
comes first.
-/

namespace PageCalc

open PageCalc.Function

/-! ## Pieces -/

/-- A part of a page. -/
inductive Piece where
  | cell (address : Address)
  | range (area : Range)

namespace Piece

/-- The cells of the part, whether or not they lie in a grid. -/
def cells : Piece → List Address
  | cell a => [a]
  | range area => area.cells

/-- The reference to a part of another page, or of the page of the formula. -/
def reference : Option PageRef → Piece → Reference
  | none, cell a => .cell a
  | none, range area => .range area
  | some page, cell a => .external ⟨page, .cell a⟩
  | some page, range area => .external ⟨page, .range area⟩

def expr (page? : Option PageRef) (piece : Piece) : Expr := .reference (piece.reference page?)

/-- Reads the part of a loaded page. -/
def read (read : CellReader) (place : Nat) : Piece → Evaluating Value
  | cell a => readSeen read ⟨place, a⟩
  | range area => readRange read place area

end Piece

/-- A call of a function that looks at all members of its arguments, and the call with references in the place of
a range that list the same cells in the same order. -/
inductive Expr.Flattened : Expr → Expr → Prop where
  | call {name : String} {before after : List Expr} {page? : Option PageRef} {area : Range} {pieces : List Piece}
      (spreading : Text.upper name ∈ spreading) (listed : pieces.flatMap Piece.cells = area.cells) :
      Flattened (.call name (before ++ (Piece.range area).expr page? :: after))
        (.call name (before ++ pieces.map (·.expr page?) ++ after))

/-! ## Functions -/

/-- The function takes any number of arguments but none, and uses the members of them that are not blank. -/
structure Function.Spreads (function : Function) : Prop where
  exact : function.implementation.Exact (.eager .members)
  least : function.least = 1
  most? : function.most? = none

theorem Library.find?_spreading {name : String} (isSpreading : Text.upper name ∈ spreading) :
    ∃ function, builtin.find? name = some function ∧ function.Spreads := by
  have found {function : Function} (named : Text.upper name = function.name)
      (isFunction : builtin.functions[function.name]? = some function) : builtin.find? name = some function := by
    rw [find?, named, isFunction]
  simp only [spreading, List.mem_cons, List.not_mem_nil, or_false] at isSpreading
  rcases isSpreading with named | named | named | named | named | named | named | named | named
  · exact ⟨⟨"SUM", 1, none, .eager sum⟩, found named rfl,
      exact_aggregates _ (by simp [aggregates]), rfl, rfl⟩
  · exact ⟨⟨"AVERAGE", 1, none, .eager average⟩, found named rfl,
      exact_aggregates _ (by simp [aggregates]), rfl, rfl⟩
  · exact ⟨⟨"COUNT", 1, none, .eager count⟩, found named rfl,
      exact_aggregates _ (by simp [aggregates]), rfl, rfl⟩
  · exact ⟨⟨"COUNTA", 1, none, .eager countFilled⟩, found named rfl,
      exact_aggregates _ (by simp [aggregates]), rfl, rfl⟩
  · exact ⟨⟨"MIN", 1, none, .eager minimum⟩, found named rfl,
      exact_aggregates _ (by simp [aggregates]), rfl, rfl⟩
  · exact ⟨⟨"MAX", 1, none, .eager maximum⟩, found named rfl,
      exact_aggregates _ (by simp [aggregates]), rfl, rfl⟩
  · exact ⟨⟨"AND", 1, none, .eager conjunction⟩, found named rfl,
      exact_connectives _ (by simp [choices]), rfl, rfl⟩
  · exact ⟨⟨"OR", 1, none, .eager disjunction⟩, found named rfl,
      exact_connectives _ (by simp [choices]), rfl, rfl⟩
  · exact ⟨⟨"CONCAT", 1, none, .eager join⟩, found named rfl,
      exact_wordings _ (by simp [wordings]), rfl, rfl⟩

/-! ## Members -/

namespace Value

theorem firstError?_eq_allFilled (vs : List Value) :
    vs.findSome? Value.firstError? = (allFilled vs).findSome? error? := by
  unfold allFilled
  induction vs with
  | nil => rfl
  | cons v vs ih =>
    rw [List.findSome?_cons, ih, firstError?_eq_filled, List.flatMap_cons, List.findSome?_append]
    cases v.filled.findSome? error? <;> rfl

end Value

/-- Two lists of arguments have the same members but for blanks, or the same error comes first in both. -/
inductive SameMembers (us vs : List Value) : Prop where
  | members (same : allFilled us = allFilled vs)
  | error {e : CellError} (first : us.findSome? Value.firstError? = some e)
      (first' : vs.findSome? Value.firstError? = some e)

namespace SameMembers

variable {us vs : List Value}

theorem firstError? (same : SameMembers us vs) :
    us.findSome? Value.firstError? = vs.findSome? Value.firstError? := by
  cases same with
  | members same => rw [Value.firstError?_eq_allFilled, Value.firstError?_eq_allFilled, same]
  | error first first' => rw [first, first']

/-- The arguments may stand among others. -/
theorem among (same : SameMembers us vs) (before after : List Value) :
    SameMembers (before ++ (us ++ after)) (before ++ (vs ++ after)) := by
  cases same with
  | members same =>
    refine .members ?_
    simp only [allFilled, List.flatMap_append] at same ⊢
    rw [same]
  | @error e first first' =>
    cases earlier : before.findSome? Value.firstError? with
    | some other => exact .error (e := other) (by simp [earlier]) (by simp [earlier])
    | none => exact .error (e := e) (by simp [earlier, first]) (by simp [earlier, first'])

end SameMembers

/-! ## Reading pieces -/

section Pieces

variable {p q : Progress} {place : Nat} {cells : CellReader} (steady : Steady cells)

include steady

/-- The state after reads of cells is one of the same kind. -/
theorem steady_readCells (sane : p.Sane) (place : Nat) (addresses : List Address) :
    ((addresses.mapM fun a => readSeen cells ⟨place, a⟩).run p).2.Sane ∧
      p.Onward ((addresses.mapM fun a => readSeen cells ⟨place, a⟩).run p).2 := by
  have abreast : Abreast Eq (List.Forall₂ SameContent) (addresses.mapM fun a => readSeen cells ⟨place, a⟩)
      (addresses.mapM fun a => readSeen cells ⟨place, a⟩) p p :=
    .mapM addresses sane.twin fun a _ q q' twin => abreast_readSeen steady.level twin ⟨place, a⟩
  exact ⟨abreast.twin.sane, abreast.onward⟩

/-- A piece is read as its cells in the grid are, one after the other. -/
theorem sameEnd_piece (sane : p.Sane) (place : Nat) (piece : Piece) : SameEnd (fun us v => allFilled us = v.filled)
    ((piece.cells.filter (p.sheet place).holds).mapM fun a => readSeen cells ⟨place, a⟩)
    (piece.read cells place) p := by
  cases piece with
  | cell a =>
    cases inside : (p.sheet place).holds a with
    | true =>
      simp only [Piece.cells, List.filter_cons, inside, List.filter_nil, if_true, List.mapM_cons, List.mapM_nil,
        pure_bind]
      exact ⟨List.append_nil _, rfl⟩
    | false =>
      have isBlank : ((Piece.cell a).read cells place).run p = (.blank, p) := steady.run_readSeen sane inside
      simp only [Piece.cells, List.filter_cons, inside, List.filter_nil]
      refine ⟨?_, ?_⟩
      · rw [isBlank]
        exact Value.filled_blank.symm
      · rw [isBlank]
        rfl
  | range area =>
    rw [Piece.cells, Sheet.filter_cells]
    exact ⟨(filled_list _).symm, rfl⟩

/-- Pieces are read as all their cells in the grid are; the way to a piece may be known, so that it changes nothing
to go there again. -/
theorem sameEnd_pieces {readOne : Piece → Evaluating Value} (sane : p.Sane) (loaded : place < p.pages.size)
    (reads : ∀ piece q, p.Onward q → (readOne piece).run q = (piece.read cells place).run q)
    (pieces : List Piece) : SameEnd (fun us vs => allFilled us = allFilled vs)
      (((pieces.flatMap Piece.cells).filter (p.sheet place).holds).mapM fun a => readSeen cells ⟨place, a⟩)
      (pieces.mapM readOne) p := by
  induction pieces generalizing p with
  | nil => exact ⟨rfl, rfl⟩
  | cons piece pieces ih =>
    obtain ⟨sane', onward⟩ := steady_readCells steady sane place (piece.cells.filter (p.sheet place).holds)
    have sameSheet := onward.sheet loaded
    have first : SameEnd (fun us v => allFilled us = v.filled)
        ((piece.cells.filter (p.sheet place).holds).mapM fun a => readSeen cells ⟨place, a⟩) (readOne piece) p := by
      obtain ⟨outcomes, state⟩ := sameEnd_piece steady sane place piece
      rw [← reads piece p (.refl p)] at outcomes state
      exact ⟨outcomes, state⟩
    rw [List.flatMap_cons, List.filter_append, List.mapM_append, List.mapM_cons]
    refine first.bind fun us v same => ?_
    -- The page keeps its sheet meanwhile, so the grid is the same for the pieces that are left.
    have rest := ih sane' (Nat.lt_of_lt_of_le loaded onward.size) fun piece q after =>
      reads piece q (onward.trans after)
    rw [sameSheet] at rest
    refine rest.bind fun us' vs others => ⟨?_, rfl⟩
    show allFilled (us ++ us') = allFilled (v :: vs)
    simp only [allFilled, List.flatMap_append, List.flatMap_cons] at same others ⊢
    rw [same, others]

/-- Pieces that list the same cells are read with the same members. -/
theorem sameEnd_listed {readOne : Piece → Evaluating Value} (sane : p.Sane) (loaded : place < p.pages.size)
    (reads : ∀ piece q, p.Onward q → (readOne piece).run q = (piece.read cells place).run q)
    {pieces pieces' : List Piece} (listed : pieces'.flatMap Piece.cells = pieces.flatMap Piece.cells) :
    SameEnd SameMembers (pieces.mapM readOne) (pieces'.mapM readOne) p := by
  have first := sameEnd_pieces steady sane loaded reads pieces
  have second := sameEnd_pieces steady sane loaded reads pieces'
  rw [listed] at second
  exact first.of_common second fun us vs vs' same same' => .members (same.symm.trans same')

end Pieces

/-! ## Reading references -/

section References

variable {w : Workbook} {p q : Progress} {place : Nat} {cells : CellReader} {page : PageRef}

/-- Where a reference to a page led, it leads at any later time, and nothing is asked again. -/
theorem resolve_again (onward : (p.resolve w page).2.Onward q) :
    q.resolve w page = ((p.resolve w page).1, q) := by
  have kept := onward.resolutions page.identifier (p.resolve w page).1
  unfold Progress.resolve at kept ⊢
  by_cases own : page.identifier = w.pageId
  · simp only [own, if_true]
  · simp only [own, if_false] at kept ⊢
    cases known : p.resolutions[page.identifier]? with
    | some outcome =>
      simp only [known] at kept ⊢
      rw [kept trivial]
    | none =>
      simp only [known] at kept ⊢
      rw [kept (by simp [Progress.fetch])]

theorem run_readReference_across (piece : Piece) :
    (readReference w cells place (piece.reference (some page))).run p =
      (match (p.resolve w page).1 with
        | .error failure => pure (.error (.fresh .reference failure.message))
        | .ok there => piece.read cells there : Evaluating Value).run (p.resolve w page).2 := by
  cases piece <;> rfl

/-- Reading the first piece finds the page, so it may as well be found before. -/
theorem run_pieces_across {pieces : List Piece} (nonempty : pieces ≠ []) :
    (pieces.mapM fun piece => readReference w cells place (piece.reference (some page))).run p =
      (pieces.mapM fun piece => readReference w cells place (piece.reference (some page))).run
        (p.resolve w page).2 := by
  obtain ⟨piece, pieces, rfl⟩ := List.exists_cons_of_ne_nil nonempty
  have again : (p.resolve w page).2.resolve w page = p.resolve w page := resolve_again (.refl _)
  have sameRun : (readReference w cells place (piece.reference (some page))).run (p.resolve w page).2 = _ :=
    run_readReference_across piece
  rw [again] at sameRun
  rw [List.mapM_cons, StateT.run_bind, StateT.run_bind, sameRun, run_readReference_across]

/-- Where the page is not found, each piece gives the same error. -/
theorem run_pieces_missing {failure : ResolveError} (missing : (p.resolve w page).1 = .error failure)
    (pieces : List Piece) :
    (pieces.mapM fun piece => readReference w cells place (piece.reference (some page))).run (p.resolve w page).2 =
      (pieces.map fun _ => .error (.fresh .reference failure.message), (p.resolve w page).2) := by
  have again : (p.resolve w page).2.resolve w page = p.resolve w page := resolve_again (.refl _)
  induction pieces with
  | nil => rfl
  | cons piece pieces ih =>
    rw [List.mapM_cons, StateT.run_bind, run_readReference_across, again, missing]
    exact congrArg (fun rest => (Value.error (.fresh .reference failure.message) :: rest.1, rest.2)) ih

/-- Pieces with the same cells in the same order have the same members, or the same error. -/
theorem sameEnd_references (w : Workbook) (steady : Steady cells) (sane : p.Sane) (loaded : place < p.pages.size)
    (page? : Option PageRef) {pieces pieces' : List Piece} (nonempty : pieces ≠ []) (nonempty' : pieces' ≠ [])
    (listed : pieces'.flatMap Piece.cells = pieces.flatMap Piece.cells) : SameEnd SameMembers
      (pieces.mapM fun piece => readReference w cells place (piece.reference page?))
      (pieces'.mapM fun piece => readReference w cells place (piece.reference page?)) p := by
  cases page? with
  | none =>
    have reads (piece : Piece) (q : Progress) (_ : p.Onward q) :
        (readReference w cells place (piece.reference none)).run q = (piece.read cells place).run q := by
      cases piece <;> rfl
    exact sameEnd_listed steady sane loaded reads listed
  | some page =>
    refine .of_run (run_pieces_across nonempty) (run_pieces_across nonempty') ?_
    cases outcome : (p.resolve w page).1 with
    | error failure =>
      refine ⟨?_, ?_⟩
      · rw [run_pieces_missing outcome, run_pieces_missing outcome]
        -- There is a first piece on both sides, and its error is the first one.
        obtain ⟨piece, pieces, rfl⟩ := List.exists_cons_of_ne_nil nonempty
        obtain ⟨piece', pieces', rfl⟩ := List.exists_cons_of_ne_nil nonempty'
        exact .error (e := .fresh .reference failure.message)
          (by simp [Value.firstError?, Value.members, Value.error?])
          (by simp [Value.firstError?, Value.members, Value.error?])
      · rw [run_pieces_missing outcome, run_pieces_missing outcome]
    | ok there =>
      have reads (piece : Piece) (q : Progress) (onward : (p.resolve w page).2.Onward q) :
          (readReference w cells place (piece.reference (some page))).run q = (piece.read cells there).run q := by
        rw [run_readReference_across, resolve_again onward, outcome]
      have loaded := sane.resolve_place_lt (Nat.zero_lt_of_lt loaded) outcome
      exact sameEnd_listed steady sane.resolve loaded reads listed

end References

/-! ## Calls -/

section Calls

variable {w : Workbook} {p : Progress} {place : Nat} {cells : CellReader}

/-- The state after arguments is one of the same kind. -/
theorem steady_arguments (w : Workbook) (steady : Steady cells) (sane : p.Sane) (place : Nat) (es : List Expr) :
    ((es.mapM (evaluateExpr w.library (readReference w cells place))).run p).2.Sane ∧
      p.Onward ((es.mapM (evaluateExpr w.library (readReference w cells place))).run p).2 := by
  have abreast : Abreast Eq (List.Forall₂ Eq) (es.mapM (evaluateExpr w.library (readReference w cells place)))
      (es.mapM (evaluateExpr w.library (readReference w cells place))) p p :=
    .mapM es sane.twin fun e _ q q' twin => abreast_same (.refl w) sameTargets_eq steady.level twin place e
  exact ⟨abreast.twin.sane, abreast.onward⟩

theorem sameEnd_arguments (w : Workbook) (steady : Steady cells) (sane : p.Sane) (loaded : place < p.pages.size)
    (page? : Option PageRef) {pieces pieces' : List Piece} (nonempty : pieces ≠ []) (nonempty' : pieces' ≠ [])
    (listed : pieces'.flatMap Piece.cells = pieces.flatMap Piece.cells) (before after : List Expr) :
    SameEnd SameMembers
      ((before ++ (pieces.map (·.expr page?) ++ after)).mapM (evaluateExpr w.library (readReference w cells place)))
      ((before ++ (pieces'.map (·.expr page?) ++ after)).mapM (evaluateExpr w.library (readReference w cells place)))
      p := by
  obtain ⟨sane', onward⟩ := steady_arguments w steady sane place before
  have loaded := Nat.lt_of_lt_of_le loaded onward.size
  have middle := sameEnd_references w steady sane' loaded page? nonempty nonempty' listed
  simp only [List.mapM_append, List.mapM_map, bind_assoc, pure_bind]
  refine .after (.bind middle fun us vs same => .after ?_)
  exact ⟨same.among _ _, rfl⟩

/-- A function that uses the members of its arguments comes to the same, and to the same state. -/
theorem sameEnd_applyFunction {function : Function} (spreads : function.Spreads)
    {arguments arguments' : List (Evaluating Value)}
    (same : SameEnd SameMembers (arguments.mapM id) (arguments'.mapM id) p) :
    SameEnd Eq (applyFunction function arguments) (applyFunction function arguments') p := by
  have exact := spreads.exact
  unfold applyFunction
  cases implementation : function.implementation with
  | lazy demand =>
    rw [implementation] at exact
    exact exact.elim
  | eager apply =>
    rw [implementation] at exact
    simp only [pure_bind]
    refine same.bind fun us vs same => ?_
    have firstError := same.firstError?
    cases same with
    | members same =>
      rw [firstError, exact us vs same]
      exact ⟨rfl, rfl⟩
    | error first first' =>
      rw [first, first']
      exact ⟨rfl, rfl⟩

theorem Function.Spreads.checkCount {function : Function} (spreads : function.Spreads) {count : Nat}
    (given : 0 < count) : function.checkCount count = .ok () := by
  simp only [Function.checkCount, Function.expectedInstead?, spreads.most?, spreads.least,
    if_neg (Nat.not_lt.2 (Nat.succ_le_of_lt given))]

theorem sameEnd_flattened (builtin : w.library = .builtin) (steady : Steady cells) (sane : p.Sane)
    (loaded : place < p.pages.size) {e e' : Expr} (flattened : e.Flattened e') : SameEnd Eq
      (evaluateExpr w.library (readReference w cells place) e)
      (evaluateExpr w.library (readReference w cells place) e') p := by
  cases flattened with
  | @call name before after page? area pieces isSpreading listed =>
    obtain ⟨function, found, spreads⟩ := Library.find?_spreading isSpreading
    have nonempty : pieces ≠ [] := by
      rintro rfl
      exact area.cells_ne_nil listed.symm
    have listed : pieces.flatMap Piece.cells = [Piece.range area].flatMap Piece.cells :=
      listed.trans (List.append_nil _).symm
    have arguments := sameEnd_arguments w steady sane loaded page? (List.cons_ne_nil _ []) nonempty listed before
      after
    have several := List.length_pos_iff.2 nonempty
    simp only [evaluateExpr, evaluators_eq_map, callFunction, builtin, found]
    rw [spreads.checkCount (by simp), spreads.checkCount (by simp; omega)]
    refine sameEnd_applyFunction spreads ?_
    rw [List.mapM_map, List.mapM_map, ← builtin, List.append_assoc]
    exact arguments

end Calls

/-! ## Whole evaluations -/

section Targets

variable {s : Sheet} {b : Address}

theorem mem_localCells_of_holds (inside : s.holds b) (piece : Piece) :
    b ∈ (piece.reference none).localCells s ↔ b ∈ piece.cells := by
  cases piece with
  | cell a => exact Iff.rfl
  | range area =>
    show b ∈ s.cellsIn area ↔ b ∈ area.cells
    rw [← Sheet.filter_cells, List.mem_filter, and_iff_left inside]

/-- Pieces refer to the cells that they list. -/
theorem anyRefersTo_pieces (inside : s.holds b) (page? : Option PageRef) (pieces : List Piece) :
    Expr.AnyRefersTo s (pieces.map (·.expr page?)) b ↔ page? = none ∧ b ∈ pieces.flatMap Piece.cells := by
  induction pieces with
  | nil => simp [Expr.not_anyRefersTo_nil]
  | cons piece pieces ih =>
    rw [List.map_cons, Expr.anyRefersTo_cons, ih, List.flatMap_cons, List.mem_append, and_or_left]
    refine or_congr_left ?_
    simp only [Expr.RefersTo, Piece.expr, Expr.references, List.mem_singleton, exists_eq_left]
    cases page? with
    | none => rw [mem_localCells_of_holds inside, and_iff_right rfl]
    | some page => cases piece <;> simp [Piece.reference, Reference.localCells]

end Targets

theorem harmless_flattened : Harmless Expr.Flattened where
  targets e e' flattened s b inside := by
    cases flattened with
    | @call name before after page? area pieces _ listed =>
      show Expr.AnyRefersTo s _ b ↔ Expr.AnyRefersTo s _ b
      have whole : Expr.AnyRefersTo s [(Piece.range area).expr page?] b ↔ page? = none ∧ b ∈ area.cells := by
        have pieces := anyRefersTo_pieces inside page? [.range area]
        rwa [List.flatMap_singleton] at pieces
      rw [List.append_cons, Expr.anyRefersTo_append, Expr.anyRefersTo_append, whole, Expr.anyRefersTo_append,
        Expr.anyRefersTo_append, anyRefersTo_pieces inside, listed]
  sameEnd w cells place p e e' builtin steady sane loaded flattened := by
    obtain ⟨outcomes, state⟩ := sameEnd_flattened builtin steady sane loaded flattened
    exact ⟨outcomes ▸ .same, state⟩

namespace Workbook

variable {w : Workbook}

/-- In every state of an evaluation a call of a function that looks at all members of its arguments comes to the
same if a range is replaced by cells and ranges that list the same cells in the same order; it gives the same value,
which is the same error if there are errors, and leads to the same state. So nothing changes in any cell if this is
done anywhere in the formulas of a workbook. -/
theorem evaluateWith_of_flattened (builtin : w.library = .builtin) :
    (∀ (pass : Pass) (cache : ParseCache) (p : Progress) (depth place : Nat) (e e' : Expr), pass.book = w →
      pass.Steps (w.begin cache) p → place < p.pages.size → e.Flattened e' →
      (evaluateExpr w.library (readReference w (readCell w depth) place) e').run p =
        (evaluateExpr w.library (readReference w (readCell w depth) place) e).run p) ∧
    ∀ w' : Workbook, w.Rewritten (Expr.Replaced Expr.Flattened) w' →
      (∀ cache cache', (w'.evaluateWith cache').1 = (w.evaluateWith cache).1 ∧
        (w'.finalState cache').memo = (w.finalState cache).memo ∧
        (w'.finalState cache').calls = (w.finalState cache).calls) ∧
      ∀ formula formula', (Input.formula formula).Rewritten (Expr.Replaced Expr.Flattened) (.formula formula') →
        w'.evaluateFormula formula' = w.evaluateFormula formula := by
  refine ⟨?state, fun w' => evaluateWith_of_harmless harmless_flattened builtin⟩
  rintro pass cache p depth place e e' rfl steps loaded flattened
  have steady := steady_readCell pass.book depth
  obtain ⟨outcomes, state⟩ := sameEnd_flattened builtin steady steps.sane loaded flattened
  exact Prod.ext outcomes.symm state

end Workbook

/-! ## Two sums -/

/-- The sum of a range of two cells. -/
def Expr.rangeSum : Expr := .call "SUM" [.reference (.range (.spanning ⟨0, 1⟩ ⟨1, 1⟩))]

/-- The sum of the same two cells. -/
def Expr.cellSum : Expr := .call "SUM" [.reference (.cell ⟨0, 1⟩), .reference (.cell ⟨1, 1⟩)]

theorem Expr.flattened_rangeSum : rangeSum.Flattened cellSum :=
  @Flattened.call "SUM" [] [] none (.spanning ⟨0, 1⟩ ⟨1, 1⟩) [.cell ⟨0, 1⟩, .cell ⟨1, 1⟩] (.head _) rfl

theorem Workbook.rewritten_rangeSum :
    (holding .rangeSum).Rewritten (Expr.Replaced Expr.Flattened) (holding .cellSum) := by
  have isName : IsName "SUM" ∧ Text.upper "SUM" = "SUM" :=
    ⟨⟨⟨'S', ['U', 'M'], rfl, by decide⟩, List.all_eq_true.1 rfl⟩, rfl⟩
  have upper : Address.InBounds ⟨0, 1⟩ := by decide
  have lower : Address.InBounds ⟨1, 1⟩ := by decide
  have room : 1 + 1 ≤ maxNesting := by decide
  exact rewritten_holding ⟨isName, ⟨upper, lower⟩, trivial⟩ ⟨isName, upper, lower, trivial⟩ room room
    (.here Expr.flattened_rangeSum)

/-- The second cell lies outside the grid. Both sums are evaluated alike in the beginning, and show the same. -/
theorem Workbook.evaluateWith_holding_rangeSum :
    (evaluateExpr .builtin (readReference (holding .rangeSum) (readCell (holding .rangeSum) 1) Progress.root)
        .cellSum).run ((holding .rangeSum).begin .empty) =
      (evaluateExpr .builtin (readReference (holding .rangeSum) (readCell (holding .rangeSum) 1) Progress.root)
        .rangeSum).run ((holding .rangeSum).begin .empty) ∧
    ((holding .cellSum).evaluateWith .empty).1 = ((holding .rangeSum).evaluateWith .empty).1 := by
  have builtin : (holding .rangeSum).library = .builtin := rfl
  obtain ⟨inEveryState, inEveryCell⟩ := evaluateWith_of_flattened builtin
  have atFirst := inEveryState ⟨holding .rangeSum, fun _ => True, none⟩ .empty ((holding .rangeSum).begin .empty)
    1 Progress.root .rangeSum .cellSum rfl .refl (Progress.root_lt_begin _ .empty) Expr.flattened_rangeSum
  exact ⟨atFirst, ((inEveryCell (holding .cellSum) rewritten_rangeSum).1 .empty .empty).1⟩

end PageCalc
