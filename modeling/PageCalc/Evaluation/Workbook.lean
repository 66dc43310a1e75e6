import PageCalc.Function.Library
import PageCalc.Page.Resolver

/-!
# Workbooks

What an evaluation starts from: a sheet and the identifier of its page, a resolver for other
pages, the functions that formulas may call, and options.
-/

namespace PageCalc

/-- What a reference to a page without a cell or a range reads. -/
inductive WholeSheetPolicy where
  /-- The whole grid of the page, as a range. -/
  | grid
  /-- One cell of the page. -/
  | cell (address : Address)
  /-- Nothing: such a reference is an error. -/
  | reject
deriving DecidableEq

/-- The options of an evaluation. -/
structure Options where
  wholeSheet : WholeSheetPolicy := .grid
  /-- How many formulas may be under evaluation at once. Only reads of other pages nest, so this
  bounds how deeply they do. -/
  maxDepth : Nat := 512
deriving DecidableEq

/-- What an evaluation starts from. -/
structure Workbook where
  sheet : Sheet
  pageId : String
  resolver : Resolver := Resolver.none
  library : Library := Library.builtin
  options : Options := {}

end PageCalc
