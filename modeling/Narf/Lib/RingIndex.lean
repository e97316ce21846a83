import Mathlib

namespace Narf.Lib.RingIndex

/-! Free-running positions of a ring of `2 ^ k` slots, kept in words of `w` bits. -/
def wrapping_add (w a b : Nat) : Nat := (a + b) % 2 ^ w
def wrapping_sub (w a b : Nat) : Nat := (a + 2 ^ w - b) % 2 ^ w
variable {w k p q : Nat}
lemma wrapping_add_word (w p n : Nat) : wrapping_add w (p % 2 ^ w) n = (p + n) % 2 ^ w := by
  rw [wrapping_add,Nat.mod_add_mod]
lemma wrapping_succ (w p : Nat) : wrapping_add w (p % 2 ^ w) 1 = (p + 1) % 2 ^ w := wrapping_add_word w p 1
lemma mask_word (small : k ≤ w) (p : Nat) : p % 2 ^ w &&& (2 ^ k - 1) = p % 2 ^ k := by
  rw [Nat.and_two_pow_sub_one_eq_mod,Nat.mod_mod_of_dvd _ (Nat.pow_dvd_pow 2 small)]
lemma turn_lt (small : k < w) : 2 ^ k < 2 ^ w := Nat.pow_lt_pow_right (by decide) small
/-- Positions less than a whole turn apart have their own residues. -/
lemma residue_inj {n : Nat} (ordered : p ≤ q) (near : q < p + n) (same : p % n = q % n) : p = q := by
  obtain ⟨d,rfl⟩ := Nat.exists_eq_add_of_le ordered
  have apart : (p + d - p) % n = 0 := Nat.sub_mod_eq_zero_of_mod_eq same.symm
  rw [Nat.add_sub_cancel_left,Nat.mod_eq_of_lt (by omega)] at apart
  omega
lemma residue_ne {d n : Nat} (some_ : 0 < d) (near : d < n) : (p + d) % n ≠ p % n := fun same => by
  have := residue_inj (Nat.le_add_right p d) (by omega) same.symm
  omega
lemma wrapping_sub_word (ordered : p ≤ q) (near : q < p + 2 ^ w) : wrapping_sub w (q % 2 ^ w) (p % 2 ^ w) = q - p := by
  obtain ⟨d,rfl⟩ := Nat.exists_eq_add_of_le ordered
  have low := Nat.mod_lt p (Nat.two_pow_pos w)
  have sum : p + d = 2 ^ w * (p / 2 ^ w) + (p % 2 ^ w + d) := by
    have := Nat.div_add_mod p (2 ^ w)
    omega
  rw [wrapping_sub,Nat.add_sub_cancel_left,Nat.add_sub_assoc (le_of_lt low),Nat.mod_add_mod,sum,add_assoc,Nat.mul_add_mod]
  have total : p % 2 ^ w + d + (2 ^ w - p % 2 ^ w) = d + 2 ^ w := by omega
  rw [total,Nat.add_mod_right,Nat.mod_eq_of_lt (by omega)]
/-- Seen from behind, the distance is the complement. -/
lemma wrapping_sub_behind (ordered : p < q) (near : q ≤ p + 2 ^ w) : wrapping_sub w (p % 2 ^ w) (q % 2 ^ w) = 2 ^ w - (q - p) := by
  have turn : p % 2 ^ w = (p + 2 ^ w) % 2 ^ w := (Nat.add_mod_right _ _).symm
  rw [turn,wrapping_sub_word near (by omega)]
  omega
/-- The sign bit of a word. -/
def negative (w d : Nat) : Bool := 2 ^ (w - 1) ≤ d
lemma negative_ahead (ordered : p ≤ q) (near : q < p + 2 ^ (w - 1)) : negative w (wrapping_sub w (q % 2 ^ w) (p % 2 ^ w)) = false := by
  have half : 2 ^ (w - 1) ≤ 2 ^ w := Nat.pow_le_pow_right (by decide) (Nat.sub_le w 1)
  rw [negative,wrapping_sub_word ordered (by omega)]
  exact decide_eq_false (by omega)
lemma wrapping_sub_eq_zero (ordered : p ≤ q) (near : q < p + 2 ^ w) : wrapping_sub w (q % 2 ^ w) (p % 2 ^ w) = 0 ↔ p = q := by
  rw [wrapping_sub_word ordered near]
  omega
lemma wrapping_sub_behind_ne (ordered : p < q) (near : q < p + 2 ^ w) : wrapping_sub w (p % 2 ^ w) (q % 2 ^ w) ≠ 0 := by
  rw [wrapping_sub_behind ordered (le_of_lt near)]
  omega
lemma wrapping_sub_succ_ne (wide : 0 < w) (p : Nat) : wrapping_sub w (p % 2 ^ w) ((p + 1) % 2 ^ w) ≠ 0 := by
  have two : 2 ≤ 2 ^ w := Nat.le_self_pow (by omega) 2
  exact wrapping_sub_behind_ne (Nat.lt_succ_self p) (by omega)
end Narf.Lib.RingIndex
