/-
Purpose: The order of texts by code points.
-/

namespace Linkage.Text

/-- Whether the first text does not come after the second when they are compared
character by character. -/
def notAfter : List Char → List Char → Bool
  | [], _ => true
  | _ :: _, [] => false
  | a :: as, b :: bs => if a = b then notAfter as bs else Nat.blt a.toNat b.toNat

end Linkage.Text
