import Mathlib

/-! Sums of bit vectors whose addends are only known to lie between two patterns.
The bitwise order is `BitLe`. Carries are monotone in it, so a sum bit at which the
least and the greatest addends agree is fixed for every addend in between. -/

namespace Narf.Lib
open BitVec

variable {w : Nat}
def BitLe (x y : BitVec w) : Prop := ∀ i, x.getLsbD i = true → y.getLsbD i = true
lemma BitLe.not {x y : BitVec w} (below : BitLe x y) : BitLe (~~~y) (~~~x) := by
  intro i set
  have bound := below i
  simp only [getLsbD_not,Bool.and_eq_true,decide_eq_true_eq,Bool.not_eq_true'] at set ⊢
  refine ⟨set.1,?_⟩
  cases present : x.getLsbD i with
  | false => rfl
  | true => simp [bound present] at set
private lemma eq_of_between {l x u : Bool} (low : l → x) (high : x → u) (same : l = u) : x = l := by
  revert low high same
  cases l <;> cases x <;> cases u <;> decide
private lemma atLeastTwo_mono {a b c a' b' c' : Bool} (first : a → a') (second : b → b') (third : c → c') :
    a.atLeastTwo b c = true → a'.atLeastTwo b' c' := by
  revert first second third
  cases a <;> cases b <;> cases c <;> cases a' <;> cases b' <;> cases c' <;> decide
lemma carry_mono {x y x' y' : BitVec w} (left : BitLe x x') (right : BitLe y y') (c : Bool) (i : Nat) :
    carry i x y c → carry i x' y' c := by
  induction i with
  | zero => simp [carry_zero]
  | succ i step =>
    rw [carry_succ,carry_succ]
    exact atLeastTwo_mono (left i) (right i) step

def addCarry (c : Bool) (x y : BitVec w) : BitVec w := x + y + setWidth w (ofBool c)
lemma addCarry_false (x y : BitVec w) : addCarry false x y = x + y := by simp [addCarry]
lemma addCarry_true_not (x y : BitVec w) : addCarry true x (~~~y) = x - y := by
  rw [addCarry,sub_eq_add_neg,neg_eq_not_add,add_assoc]
  congr 2
  apply eq_of_toNat_eq
  simp
/-- A bit on which both extreme addends agree and both extreme sums agree is the bit
    of every sum in between: the carry into it lies between two equal carries. -/
lemma addCarry_bit_between {l₁ x₁ u₁ l₂ x₂ u₂ : BitVec w} (c : Bool)
    (low₁ : BitLe l₁ x₁) (high₁ : BitLe x₁ u₁) (low₂ : BitLe l₂ x₂) (high₂ : BitLe x₂ u₂)
    {i : Nat} (bound : i < w) (known₁ : l₁.getLsbD i = u₁.getLsbD i) (known₂ : l₂.getLsbD i = u₂.getLsbD i)
    (known : (addCarry c u₁ u₂).getLsbD i = (addCarry c l₁ l₂).getLsbD i) :
    (addCarry c x₁ x₂).getLsbD i = (addCarry c l₁ l₂).getLsbD i := by
  simp only [addCarry,getLsbD_add_add_bool bound] at known ⊢
  have sameCarry : carry i l₁ l₂ c = carry i u₁ u₂ c := by
    rw [known₁,known₂] at known
    simpa using known.symm
  rw [eq_of_between (low₁ i) (high₁ i) known₁,eq_of_between (low₂ i) (high₂ i) known₂,
    eq_of_between (carry_mono low₁ low₂ c i) (carry_mono high₁ high₂ c i) sameCarry]
end Narf.Lib
