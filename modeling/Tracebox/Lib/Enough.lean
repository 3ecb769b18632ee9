import Mathlib

/-!
# Taking until there is enough

A list of items, each worth a number, is taken from the front until what was there before and what
was taken reach a need.  `taken` says what is taken: a prefix, and **the shortest one that is
enough** when the whole list is.
-/

namespace Enough

variable {α : Type*} (size : α → ℕ) (need : ℕ)

/-- Items from the front, while what there is does not reach the need. -/
def taken : ℕ → List α → List α
  | _, [] => []
  | available, a :: as => if need ≤ available then [] else a :: taken (available + size a) as

/-- What is left of the list. -/
def rest : ℕ → List α → List α
  | _, [] => []
  | available, a :: as => if need ≤ available then a :: as else rest (available + size a) as

variable {size need}

end Enough
