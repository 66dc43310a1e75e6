import PageCalc.Grid.Address

/-!
# Sites

A cell of some page. Pages may be known by whatever tells them apart.
-/

namespace PageCalc

/-- A cell of a page. -/
structure Site (π : Type) where
  page : π
  address : Address
deriving DecidableEq

end PageCalc
