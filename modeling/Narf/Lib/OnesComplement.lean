import Mathlib

namespace Narf.Lib.OnesComplement

/-! Sixteen-bit ones' complement arithmetic on unreduced sums: a sum counts modulo 65535, and a sum
    of nothing but zeros is told apart from the other multiples of 65535. -/

/-- The two sums fold to the same sixteen bits. -/
def Alike (a b : Nat) : Prop := a % 65535 = b % 65535 ∧ (a = 0 ↔ b = 0)
/-- The sum folds to sixteen ones. -/
def Verifies (n : Nat) : Prop := n ≠ 0 ∧ n % 65535 = 0
variable {a b c d n s : Nat}
lemma Alike.refl (a : Nat) : Alike a a := ⟨rfl,Iff.rfl⟩
lemma Alike.trans (first : Alike a b) (second : Alike b c) : Alike a c :=
  ⟨first.1.trans second.1,first.2.trans second.2⟩
lemma Alike.add (first : Alike a b) (second : Alike c d) : Alike (a + c) (b + d) := by
  obtain ⟨mod₁,zero₁⟩ := first
  obtain ⟨mod₂,zero₂⟩ := second
  constructor
  · omega
  · omega
lemma alike_fold (n : Nat) : Alike (n % 2 ^ 16 + n / 2 ^ 16) n := by constructor <;> omega
lemma alike_fold_wide (n : Nat) : Alike (n % 2 ^ 32 + n / 2 ^ 32) n := by constructor <;> omega
lemma Alike.eq_ones_iff (alike : Alike s n) (small : s < 65536) : s = 65535 ↔ Verifies n := by
  obtain ⟨mod,zero⟩ := alike
  unfold Verifies
  omega
lemma Alike.verifies_complement (alike : Alike s n) (small : s < 65536) : Verifies (n + (65535 - s)) := by
  obtain ⟨mod,zero⟩ := alike
  unfold Verifies
  omega
end Narf.Lib.OnesComplement
