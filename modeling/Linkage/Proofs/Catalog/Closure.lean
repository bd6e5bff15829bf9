/-
Purpose: The interfaces that a type is listed with are those that links lead to from the ones it
  names, which are those that it derives from.
-/
import Linkage.Proofs.Catalog.Depth

namespace Linkage.Catalog

open List Relation
open Walk (Path)

variable {c : Catalog} {i x base sub : TypeId}

/-! ### What is listed -/

end Linkage.Catalog
