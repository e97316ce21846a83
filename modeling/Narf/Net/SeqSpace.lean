import Narf.Net.RecvBuf

/-! Sequence numbers as positions. Positions count from the initial sequence number; a sequence
number is a position modulo 2^32, and comparisons of sequence numbers are comparisons of positions
less than 2^31 apart. -/

namespace Narf.Net
open BitVec

def number (isn : SeqNum) (pos : Nat) : SeqNum := isn + BitVec.ofNat 32 pos

section Numbers
variable {isn : SeqNum} {x y : Nat}
lemma number_add (isn : SeqNum) (x n : Nat) : number isn x + BitVec.ofNat 32 n = number isn (x + n) := by
  simp [number,BitVec.ofNat_add,BitVec.add_assoc]
lemma toNat_number_sub (before : y ≤ x) (near : x - y < 2 ^ 32) : (number isn x - number isn y).toNat = x - y := by
  have bound := isn.isLt
  simp only [number,toNat_sub,toNat_add,toNat_ofNat]
  omega
lemma toInt_number_sub (low : (y : Int) - x ≤ 2 ^ 31) (high : (x : Int) - y < 2 ^ 31) : (number isn x - number isn y).toInt = x - y := by
  have bound := isn.isLt
  rw [toInt_eq_toNat_cond]
  simp only [number,toNat_sub,toNat_add,toNat_ofNat]
  split <;> omega
lemma number_inj (low : (y : Int) - x < 2 ^ 32) (high : (x : Int) - y < 2 ^ 32) : number isn x = number isn y ↔ x = y := by
  constructor
  · intro same
    have nats := congrArg BitVec.toNat same
    have bound := isn.isLt
    simp only [number,toNat_add,toNat_ofNat] at nats
    omega
  · rintro rfl
    rfl
lemma seq_lt_number (low : (y : Int) - x ≤ 2 ^ 31) (high : (x : Int) - y < 2 ^ 31) : seq_lt (number isn x) (number isn y) ↔ x < y := by
  rw [seq_lt,toInt_number_sub low high,decide_eq_true_eq]
  omega
lemma seq_gt_number (low : (y : Int) - x ≤ 2 ^ 31) (high : (x : Int) - y < 2 ^ 31) : seq_gt (number isn x) (number isn y) ↔ y < x := by
  rw [seq_gt,toInt_number_sub low high,decide_eq_true_eq]
  omega
end Numbers
end Narf.Net
