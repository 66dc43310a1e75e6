import PageCalc.Proofs.Evaluation.Propagation
import PageCalc.Proofs.Formula.Rendering
import PageCalc.Proofs.Number.Shown
import PageCalc.Proofs.Storage.Display

/-!
# Texts that serve as numbers

The text of a number serves as the number again: where it was typed in, where it is shown, and where a
formula makes a text of the number and a number of the text.
-/

namespace PageCalc

open Collection

/-! ## Finished formulas -/

/-- A formula that reads no other formulas does not depend on itself. -/
theorem Atlas.not_dependsOn_of_literals {π : Type} {atlas : Atlas π} {s : Site π}
    (literals : ∀ t, atlas.Reads s t → ∃ v, (atlas.input t).literal? = some v) : ¬ atlas.DependsOn s s := by
  intro path
  obtain ⟨t, reads, rest⟩ := Relation.TransGen.head'_iff.1 path
  obtain ⟨v, literal⟩ := literals t reads
  have holdsFormula : ∃ c, atlas.Reads t c := by
    rcases rest.cases_head with rfl | ⟨c, readsToo, -⟩
    · exact ⟨t, reads⟩
    · exact ⟨c, readsToo⟩
  obtain ⟨c, e, parsed, -⟩ := holdsFormula
  rw [no_expr?_of_literal literal] at parsed
  cases parsed

namespace Pass

variable {pass : Pass} {p : Progress} {key : CellKey} {u v : Value}

/-- Unless a formula depends on itself, the value that is kept for it was computed at some time. -/
theorem Runs.exists_computed {cache : ParseCache} (runs : pass.Runs (pass.book.begin cache) p)
    (known : p.memo[key]? = some v) (acyclic : ¬ (p.atlas pass.book).DependsOn key key) :
    ∃ before, pass.Valid before ∧ before.Grows p ∧ pass.Computed before key v := by
  obtain ⟨steps, -⟩ := runs
  induction steps generalizing v with
  | refl => exact (acyclic (Atlas.dependsOn_inside (Progress.memo_of_begin known).2)).elim
  | @tail q p steps step ih =>
    have valid := Steps.valid (pass.valid_begin cache) steps
    have grows := step.grows valid
    have earlier (known : q.memo[key]? = some v) :
        ∃ before, pass.Valid before ∧ before.Grows p ∧ pass.Computed before key v := by
      obtain ⟨before, wasValid, growsBefore, computed⟩ :=
        ih known fun path => acyclic (grows.dependsOn valid.toPlaced path)
      exact ⟨before, wasValid, growsBefore.trans grows, computed⟩
    cases step with
    | parse | close | enter => exact earlier known
    | resolve page =>
      rcases Progress.memo_of_resolve known with before | ⟨-, onCycle⟩
      · exact earlier before
      · exact (acyclic (Atlas.dependsOn_inside onCycle)).elim
    | leave innermost computed =>
      rcases memo_of_leave known with before | ⟨rfl, ⟨marked, -⟩ | ⟨-, rfl⟩⟩
      · exact earlier before
      · exact absurd (grows.dependsOn valid.toPlaced (valid.marked _ marked).2) acyclic
      · exact ⟨q, valid, grows, computed⟩

/-- A cell that holds no formula is read as what was typed in. -/
theorem Answers.eq_of_literal (answers : pass.Answers p key v) (valid : pass.Valid p)
    (literal : (p.input key).literal? = some u) : v = u := by
  have noFormula : ¬ p.IsFormula key := fun formula => by
    rw [Progress.literal?_of_isFormula formula] at literal
    cases literal
  cases answers with
  | finished known => exact absurd (valid.finished key (mem_of_known known)) noFormula
  | typed loaded literalToo => exact Option.some.inj (literalToo.symm.trans literal)
  | waiting entered => exact absurd (valid.entered key entered).1 noFormula
  | tooDeep formula => exact absurd formula noFormula

end Pass

/-! ## The formula -/

namespace Expr

/-- Makes a text of what a reference gives, and a number of the text. -/
def reread (r : Reference) : Expr := .binary .add (.binary .concat (.reference r) (.text "")) (.number 0)

theorem formula_reread (a : Address) : (reread (.cell a)).formula = "=(" ++ a.text ++ "&\"\")+0" := by
  have zero : Number.text 0 = "0" := Number.text_of_zero (by decide) (by decide)
  rw [← String.toList_inj]
  simp [reread, formula, chars, zero, Operator.precedence, enclose, quote, Reference.text, Operator.symbol]

theorem ofFormula_reread {a : Address} (inBounds : a.InBounds) :
    ofFormula ("=(" ++ a.text ++ "&\"\")+0") = .ok (reread (.cell a)) := by
  have zero : Number.IsLiteral 0 := ⟨by decide, by decide⟩
  have printable : (reread (.cell a)).Printable := ⟨⟨inBounds, trivial⟩, zero⟩
  have room : (reread (.cell a)).nesting ≤ maxNesting := by
    show (3 : Nat) ≤ maxNesting
    decide
  rw [← formula_reread, ofFormula_of_room printable room]

/-- The sum of zero and what the text of a number is read as is the number that is shown. -/
theorem reread_number {x : Float} (finite : x.isFinite) :
    Operator.add.apply (Operator.concat.apply (.number x) (.text "")) (.number 0) =
      .number (Number.shown x) := by
  have read := Number.ofLiteral?_text finite
  simp [Operator.apply, Operator.applyScalars, Value.scalar, Value.toText, Value.arithmetic, Value.toNumber,
    Value.number?, read, Number.shown_add_zero finite, Value.checkFinite, Number.isFinite_shown finite]

/-- Where a reference gives a number, what rereads it gives the number that is shown for it. -/
theorem Yields.reread {library : Library} {answers : Reference → Value → Prop} {r : Reference} {x : Float}
    {v : Value} (finite : x.isFinite) (yields : ((reread r).plan library).Yields answers v)
    (each : ∀ u, answers r u → u = .number x) : v = .number (Number.shown x) := by
  have yields : (Plan.read r fun u =>
      .done (Operator.add.apply (Operator.concat.apply u (.text "")) (.number 0))).Yields answers v := yields
  cases yields with
  | read answered rest =>
    cases rest
    rw [each _ answered, reread_number finite]

end Expr

namespace Pass

variable {pass : Pass} {p : Progress} {a : Address} {x : Float} {v : Value}

/-- A reference to a cell into which the text of a number was typed gives the number. -/
theorem AnswersReference.eq_number (answers : pass.AnswersReference p Progress.root (.cell a) v)
    (valid : pass.Valid p) (finite : x.isFinite) (typed : pass.book.sheet.get a = Number.text x) :
    v = .number (Number.shown x) := by
  have literal : (p.input ⟨Progress.root, a⟩).literal? = some (.number (Number.shown x)) := by
    rw [Progress.input, root_sheet valid, Sheet.input, typed, Number.input_text finite]
    rfl
  obtain ⟨-, u, answered, rfl⟩ := answers
  rw [answered.eq_of_literal valid literal]
  rfl

/-- What rereads a cell into which the text of a number was typed computes the number. -/
theorem Computed.eq_number {b : Address} (computed : pass.Computed p ⟨Progress.root, b⟩ v)
    (valid : pass.Valid p) (finite : x.isFinite) (inBounds : a.InBounds)
    (typed : pass.book.sheet.get a = Number.text x)
    (rereads : pass.book.sheet.input b = .formula ("=(" ++ a.text ++ "&\"\")+0")) :
    v = .number (Number.shown x) := by
  have sameInput : p.input ⟨Progress.root, b⟩ = pass.book.sheet.input b := by
    rw [Progress.input, root_sheet valid]
  have isTree := Expr.ofFormula_reread inBounds
  cases computed with
  | fault typedToo parsed =>
    cases rereads.symm.trans (sameInput.symm.trans typedToo)
    cases isTree.symm.trans parsed
  | value typedToo parsed yields =>
    cases rereads.symm.trans (sameInput.symm.trans typedToo)
    cases isTree.symm.trans parsed
    rw [Expr.Yields.reread (Number.isFinite_shown finite) yields fun u answers =>
      answers.eq_number valid finite typed, Number.shown_shown]
    simp [Value.finish, Value.scalar, Value.checkFinite, Number.isFinite_shown finite]

end Pass

namespace Workbook

variable {w : Workbook} {a b : Address} {x : Float}

theorem inBounds_of_text (finite : x.isFinite) (typed : w.sheet.get a = Number.text x) : a.InBounds := by
  refine w.sheet.inBounds_of_mem (Sheet.mem_inputs_iff.2 ?_)
  rw [Sheet.input, typed, Number.input_text finite]
  exact fun isBlank => by cases isBlank

/-- The formula that rereads a cell gives the number whose text was typed into the cell. -/
theorem evaluateFormula_reread (finite : x.isFinite) (typed : w.sheet.get a = Number.text x) :
    (w.evaluateFormula ("=(" ++ a.text ++ "&\"\")+0")).1 = .number (Number.shown x) := by
  obtain ⟨runs, yields⟩ := w.after_evaluation w.options.maxDepth .empty (.reread (.cell a))
  have valid := runs.valid (Pass.valid_begin _ .empty)
  have isNumber := Expr.Yields.reread (Number.isFinite_shown finite) yields fun u answers =>
    answers.eq_number valid finite typed
  rw [Number.shown_shown] at isNumber
  have same : ((w.evaluation (.reread (.cell a))).run (w.begin .empty)).1 = .number (Number.shown x) := isNumber
  rw [evaluateFormula_of_parsed (Expr.ofFormula_reread (inBounds_of_text finite typed)), same]
  simp [Value.finish, Value.toCellValue, Value.scalar, Value.checkFinite, Number.isFinite_shown finite]

/-- The formula reads a cell that holds none, so it is on no cycle. -/
theorem not_dependsOn_reread {p : Progress} {v : Value} (onRoot : p.sheet Progress.root = w.sheet)
    (inBounds : a.InBounds) (isFormula : w.sheet.input b = .formula ("=(" ++ a.text ++ "&\"\")+0"))
    (literal : (w.sheet.input a).literal? = some v) :
    ¬ (p.atlas w).DependsOn ⟨Progress.root, b⟩ ⟨Progress.root, b⟩ := by
  have sameInput (c : Address) : (p.atlas w).input ⟨Progress.root, c⟩ = w.sheet.input c := by
    rw [← onRoot]
    rfl
  have isTree : (p.atlas w).expr? ⟨Progress.root, b⟩ = some (.reread (.cell a)) :=
    Atlas.expr?_of_parsed ((sameInput b).trans isFormula) (Expr.ofFormula_reread inBounds)
  refine Atlas.not_dependsOn_of_literals ?_
  rintro t ⟨e, parsed, r, member, target⟩
  cases isTree.symm.trans parsed
  obtain rfl := List.mem_singleton.1 member
  obtain rfl := List.mem_singleton.1 target
  exact ⟨v, (congrArg Input.literal? (sameInput a)).trans literal⟩

/-- So does a cell that holds this formula. -/
theorem getElem?_evaluateWith_reread (room : 0 < w.options.maxDepth) (cache : ParseCache) (finite : x.isFinite)
    (typed : w.sheet.get a = Number.text x) (rereads : w.sheet.get b = "=(" ++ a.text ++ "&\"\")+0") :
    (w.evaluateWith cache).1[b]? = some (.number (Number.shown x)) := by
  have inBounds := inBounds_of_text finite typed
  have isFormula : w.sheet.input b = .formula ("=(" ++ a.text ++ "&\"\")+0") := by
    rw [Sheet.input, rereads]
    simp [Input.ofText, isFormulaText]
  have literal : (w.sheet.input a).literal? = some (.number (Number.shown x)) := by
    rw [Sheet.input, typed, Number.input_text finite]
    rfl
  have runs := w.runs_evaluate w.options.maxDepth cache
  have valid := runs.valid (Pass.valid_begin _ cache)
  have onRoot : (w.finalState cache).sheet Progress.root = w.sheet := Pass.root_sheet valid
  obtain ⟨v, answers, shown⟩ :=
    @answers_of_isFormula w cache b (Sheet.isFormula_iff.2 ⟨_, isFormula⟩)
  -- The sheet holds a formula, and there is room for one: its value is known.
  rcases answers.of_idle runs.stack with known | typedToo | ⟨-, -, noRoom⟩
  · obtain ⟨before, wasValid, -, computed⟩ :=
      runs.exists_computed known (not_dependsOn_reread onRoot inBounds isFormula literal)
    rw [shown, computed.eq_number wasValid finite inBounds typed isFormula]
    rfl
  · rw [Progress.input, onRoot, isFormula] at typedToo
    cases typedToo
  · exact absurd (Option.some.inj noRoom) room.ne'

end Workbook

/-! ## Snapshots -/

namespace Sheet

variable {sheet : Sheet} {a : Address} {x : Float}

/-- Where the display form shows a finite number, it is read as an input of the number. -/
theorem input_ofForm_displayForm (sheet : Sheet) (result : Result) (messages : Bool) :
    ∃ read, ofForm (sheet.displayForm result messages) = .ok read ∧ ∀ a x, sheet.get a ≠ "" →
      result[a]? = some (.number x) → x.isFinite → read.input a = .number (Number.shown x) := by
  obtain ⟨read, done, -, -, holds⟩ := sheet.ofForm_form fun a raw => (result[a]?).elim raw (shownText messages)
  refine ⟨read, done, fun a x nonblank isNumber finite => ?_⟩
  rw [input, holds, if_neg nonblank, isNumber]
  exact Number.input_text finite

end Sheet

/-! ## All readers -/

/-- The text of a finite number is the number again, but for the sign of a zero: as a literal, as an input, as
the only token of the text if the number is not negative, in an expression that makes a text of the number and a
number of the text, in a formula that does so with a cell into which the text was typed, and as an input of a
snapshot. -/
theorem Number.text_survives (x : Float) (finite : x.isFinite) :
    Number.ofLiteral? (Number.text x) = some (Number.shown x) ∧
    Input.ofText (Number.text x) = .number (Number.shown x) ∧
    (0 ≤ x → Token.ofText (Number.text x) = .ok [.number (Number.shown x)]) ∧
    (∀ library read r, read r = .number x → (Expr.reread r).value library read = .number (Number.shown x)) ∧
    (∀ (w : Workbook) (a : Address), w.sheet.get a = Number.text x →
      (w.evaluateFormula ("=(" ++ a.text ++ "&\"\")+0")).1 = .number (Number.shown x) ∧
      ∀ b cache, 0 < w.options.maxDepth → w.sheet.get b = "=(" ++ a.text ++ "&\"\")+0" →
        (w.evaluateWith cache).1[b]? = some (.number (Number.shown x))) ∧
    (∀ (sheet : Sheet) (result : Result) (messages : Bool) (a : Address), sheet.get a ≠ "" →
      result[a]? = some (.number x) → ∃ read, Sheet.ofForm (sheet.displayForm result messages) = .ok read ∧
        read.input a = .number (Number.shown x)) := by
  refine ⟨Number.ofLiteral?_text finite, Number.input_text finite, Number.ofText_text finite,
    fun library read r isNumber => ?_, fun w a typed => ⟨Workbook.evaluateFormula_reread finite typed,
      fun b cache room rereads => Workbook.getElem?_evaluateWith_reread room cache finite typed rereads⟩, ?_⟩
  · have isValue : (Expr.reread r).value library read =
        Operator.add.apply (Operator.concat.apply (read r) (.text "")) (.number 0) := rfl
    rw [isValue, isNumber, Expr.reread_number finite]
  intro sheet result messages a nonblank isNumber
  obtain ⟨read, done, holds⟩ := sheet.input_ofForm_displayForm result messages
  exact ⟨read, done, holds a x nonblank isNumber finite⟩

/-- The least positive number is written with more than three hundred digits, and is read again. -/
theorem Number.text_survives_least :
    Number.ofLiteral? (Number.text (Number.ofMagnitudeBits false 1)) =
      some (Number.shown (Number.ofMagnitudeBits false 1)) :=
  (Number.text_survives _ (by decide)).1

end PageCalc
