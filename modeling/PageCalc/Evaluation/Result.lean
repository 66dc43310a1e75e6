import PageCalc.Evaluation.Reading

/-!
# Results

The evaluation of a whole sheet, which gives a value to every cell that is not blank, and of a
formula that stands in no cell; and what can be counted in a result.
-/

namespace PageCalc

/-- The values of the cells of a sheet that are not blank. -/
abbrev Result := AddressMap CellValue

namespace Workbook

/-- The state in which only the root page is loaded. -/
def begin (w : Workbook) (cache : ParseCache) : Progress :=
  ((Progress.start cache).load w.pageId w.sheet).2

/-- Evaluates the cells at addresses of the root page, one after the other. -/
def evaluateCells (w : Workbook) (addresses : List Address) :
    Evaluating (List (Address × CellValue)) :=
  addresses.mapM fun a => do
    let value ← readCell w w.options.maxDepth ⟨Progress.root, a⟩
    return (a, value.toCellValue)

/-- Evaluates the sheet. Formulas that the cache knows are not parsed again; the state at the
end holds the grown cache and the calls of the resolver. -/
def evaluateWith (w : Workbook) (cache : ParseCache) : Result × Progress :=
  let (cells, p) := (w.evaluateCells w.sheet.inputs.keys).run (w.begin cache)
  (Std.ExtTreeMap.ofList cells, p)

def evaluate (w : Workbook) : Result := (w.evaluateWith .empty).1

/-- Evaluates a formula on the root page as if it stood in a cell that nothing reads. -/
def evaluateFormula (w : Workbook) (formula : String) : CellValue × List PageRef :=
  match Expr.ofFormula formula with
  | .error fault => (.error fault.toCellError, [])
  | .ok e =>
    let read := readReference w (readCell w w.options.maxDepth) Progress.root
    let (value, p) := (evaluateExpr w.library read e).run (w.begin .empty)
    (value.finish.toCellValue, p.calls)

end Workbook

namespace Result

def errors (result : Result) : List (Address × CellError) :=
  result.toList.filterMap fun (a, value) => value.error?.map fun e => (a, e)

end Result

/-- What can be counted in the result of an evaluation. -/
structure Statistics where
  formulas : Nat
  cells : Nat
  circular : Nat
  errors : Nat
  pages : Nat
deriving DecidableEq

def Statistics.ofResult (sheet : Sheet) (result : Result) : Statistics where
  formulas := sheet.formulas.length
  cells := result.size
  circular := ((Result.errors result).filter fun entry => entry.2.kind = .circular).length
  errors := (Result.errors result).length
  pages := (Dependencies.ofSheet sheet .empty).1.referencedPages.length

/-- The cells of a sheet to evaluate again after changes, in an order in which that can be
done. -/
def Sheet.refreshOrder (sheet : Sheet) (changed : List Address) : List Address :=
  (Dependencies.ofSheet sheet .empty).1.refreshOrder changed

end PageCalc
