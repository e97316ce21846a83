import Mathlib

namespace Narf.Memory

/-! Arithmetic of 64-bit words on natural numbers. -/
def saturating_add (a b : Nat) : Nat := min (a + b) (2 ^ 64 - 1)
lemma saturating_add_of_le {a b : Nat} (small : a + b ≤ 2 ^ 64 - 1) : saturating_add a b = a + b :=
  min_eq_left small
lemma saturating_add_le (a b : Nat) : saturating_add a b ≤ a + b := min_le_left _ _

end Narf.Memory
