import Narf.Net.Tcp.Congestion

/-! The arithmetic of CUBIC: the target's curve, and the cube root at its inflection point. -/
namespace Narf.Net.Tcp

namespace Cubic
open CcState (cbrt_step)

def elapsed_ms (s : CcState) (now : Nat) : Nat :=
  (((now : Int) - s.epoch_start_cycles) % 18446744073709551616).toNat / max s.cycles_per_ms 1
/-- The distance from the inflection point, and its cube as the code computes it. -/
def dt (s : CcState) (now : Nat) : Int := elapsed_ms s now - s.k_ms
def dt3 (d : Int) : Int := sat64 (sat64 (d * d) * d)
variable {d d' : Int}
lemma wrap64_of_fits (low : -9223372036854775808 ≤ d) (high : d < 9223372036854775808) : wrap64 d = d := by
  rw [wrap64,Int.bmod_def]
  split <;> omega
/-- The cube is exact as long as four times it fits. -/
lemma dt3_eq (near : |d| ≤ 1321122) : dt3 d = d ^ 3 ∧ -2 ^ 63 ≤ 4 * dt3 d ∧ 4 * dt3 d < 2 ^ 63 := by
  obtain ⟨low,high⟩ := abs_le.mp near
  have square : d * d ≤ 1321122 ^ 2 := by nlinarith
  have cube := abs_le.mp (abs_pow d 3 ▸ pow_le_pow_left₀ (abs_nonneg d) near 3)
  have inner : sat64 (d * d) = d * d := by
    have positive := mul_self_nonneg d
    unfold sat64
    omega
  have same : dt3 d = d ^ 3 := by
    rw [dt3,inner,show d * d * d = d ^ 3 by ring]
    unfold sat64
    omega
  omega
lemma dt3_overflows (far : 1321122 < |d|) : 4 * dt3 d < -2 ^ 63 ∨ 2 ^ 63 ≤ 4 * dt3 d := by
  have square : 1321123 ^ 2 ≤ sat64 (d * d) := by
    have whole : 1321123 ^ 2 ≤ d * d := abs_mul_abs_self d ▸ (by nlinarith)
    unfold sat64
    omega
  have product : sat64 (d * d) * d ≤ -1321123 ^ 3 ∨ 1321123 ^ 3 ≤ sat64 (d * d) * d := by
    rcases lt_abs.mp far with high | low
    · exact .inr (by nlinarith)
    · exact .inl (by nlinarith)
  unfold dt3
  generalize sat64 (d * d) * d = p at product
  unfold sat64
  omega
lemma tdiv_tdiv (x : Int) : (x.tdiv 10).tdiv 1000000000 = x.tdiv 10000000000 := by
  have whole (n : Nat) : ((n : Int).tdiv 10).tdiv 1000000000 = (n : Int).tdiv 10000000000 :=
    congrArg Nat.cast (Nat.div_div_eq_div_mul n 10 1000000000)
  obtain ⟨n,rfl | rfl⟩ := x.eq_nat_or_neg
  · exact whole n
  · rw [Int.neg_tdiv,Int.neg_tdiv,Int.neg_tdiv,whole]
/-- The curve, clamped, with no bound on the numbers in between. -/
def curve (s : CcState) (d : Int) : Int := min (max (s.w_max + (4 * d ^ 3).tdiv 10000000000) s.mss) 4294967295

lemma curve_mono (s : CcState) (le : d ≤ d') : curve s d ≤ curve s d' := by
  have cubes : d ^ 3 ≤ d' ^ 3 := (Odd.strictMono_pow (by decide)).monotone le
  have parts : (4 * d ^ 3).tdiv 10000000000 ≤ (4 * d' ^ 3).tdiv 10000000000 := Int.tdiv_le_tdiv (by decide) (by omega)
  unfold curve
  omega
lemma target_eq {s : CcState} {now : Nat} (inflection : s.k_ms < 2 ^ 32)
    (soon : elapsed_ms s now < 2 ^ 40) (near : |dt s now| ≤ 1321122) : (target s now : Int) = curve s (dt s now) := by
  obtain ⟨cube,low,high⟩ := dt3_eq near
  have time : wrap64 (elapsed_ms s now) = elapsed_ms s now := wrap64_of_fits (by omega) (by omega)
  have distance : wrap64 (elapsed_ms s now - s.k_ms) = dt s now := wrap64_of_fits (by omega) (by omega)
  have whole : target s now = (min (max (sat64 (s.w_max + ((wrap64 (4 * dt3 (wrap64
      (wrap64 (elapsed_ms s now) - s.k_ms)))).tdiv 10).tdiv 1000000000)) s.mss) 4294967295).toNat := rfl
  rw [whole,time,distance,wrap64_of_fits low high,tdiv_tdiv,cube,curve]
  rw [cube] at low high
  unfold sat64
  omega
/-- Four times the cube is in `i64` exactly up to 1,321,122 ms on either side of the inflection point. There
    the target is the curve's, and it grows with time. The window after an acknowledgement never falls. -/
theorem cubic_follows_curve (s : CcState) (now acked : Nat) (inflection : s.k_ms < 2 ^ 32)
    (current : s.cwnd < 2 ^ 32) (soon : elapsed_ms s now < 2 ^ 40) :
    (-2 ^ 63 ≤ 4 * dt3 (dt s now) ∧ 4 * dt3 (dt s now) < 2 ^ 63 ↔ |dt s now| ≤ 1321122) ∧
    (|dt s now| ≤ 1321122 → (target s now : Int) = curve s (dt s now) ∧
      ∀ before, |dt s before| ≤ 1321122 → elapsed_ms s before ≤ elapsed_ms s now → target s before ≤ target s now) ∧
    s.cwnd ≤ (ca_step s acked now).cwnd := by
  refine ⟨⟨?_,fun near => (dt3_eq near).2⟩,?_,?_⟩
  · intro fits
    by_contra far
    have overflows := dt3_overflows (not_le.mp far)
    omega
  · intro near
    have here := target_eq inflection soon near
    refine ⟨here,fun before close earlier => ?_⟩
    have there := target_eq inflection (lt_of_le_of_lt earlier soon) close
    have grows : curve s (dt s before) ≤ curve s (dt s now) := curve_mono s (by unfold dt; omega)
    omega
  · unfold ca_step add32
    dsimp only
    split <;> simp only <;> omega
/-- An epoch that began at cycle 0, a cycle a millisecond, with the inflection point at once. -/
def epoch (cwnd : Nat) : CcState := ⟨cwnd,0,0,1,0,false,0,9,0,0,1⟩
theorem cubic_follows_curve_long : (target (epoch 9) 1321122 : Int) = curve (epoch 9) 1321122 ∧
    (epoch 9).cwnd ≤ (ca_step (epoch 9) 5 1321122).cwnd := by
  have all := cubic_follows_curve (epoch 9) 1321122 5 (by decide) (by decide) (by decide)
  exact ⟨(all.2.1 (by decide)).1,all.2.2⟩
/-- After 22 minutes the product wraps, and the target falls. -/
theorem cubic_overflows : elapsed_ms (epoch 9) 1321123 < 2 ^ 40 ∧ 2 ^ 63 ≤ 4 * dt3 (dt (epoch 9) 1321123) ∧
    target (epoch 9) 1321123 < target (epoch 9) 1321122 := by decide

/-! ## The inflection point -/
/-- The six steps of Newton's iteration, from a thousandth of the factor. -/
def root (f : Nat) : Nat := (cbrt_step f)^[6] (max 1 (f / 1000))
/-- `r` is within 1 of the integer cube root. -/
def Near (f r : Nat) : Prop := (r - 1) ^ 3 ≤ f ∧ f < (r + 2) ^ 3
variable {a b f r x : Nat}

section
variable {c : Nat} (low : c ^ 3 ≤ f) (high : f < (c + 1) ^ 3)
include low high
lemma cube_le_iff : x ^ 3 ≤ f ↔ x ≤ c :=
  ⟨fun le => Nat.lt_succ_iff.mp (lt_of_pow_lt_pow_left₀ 3 (Nat.zero_le _) (le.trans_lt high)),
    fun le => (Nat.pow_le_pow_left le 3).trans low⟩
lemma near_iff : Near f r ↔ r ≤ c + 1 ∧ c ≤ r + 1 := by
  rw [Near,← not_le,cube_le_iff low high,cube_le_iff low high]
  omega
end
lemma cbrt_step_mono (le : a ≤ b) : cbrt_step a x ≤ cbrt_step b x :=
  Nat.div_le_div_right (Nat.add_le_add_left (Nat.div_le_div_right le) _)
/-- The value after `n` steps if it is the same for `a` and `b`, and so for all between. -/
def agree (a b : Nat) : Nat → Nat → Option Nat
  | 0, x => some x
  | n + 1, x => if cbrt_step a x = cbrt_step b x then agree a b n (cbrt_step a x) else none
lemma agree_spec {n : Nat} (low : a ≤ f) (high : f ≤ b) (same : agree a b n x = some r) : (cbrt_step f)^[n] x = r := by
  induction n generalizing x with
  | zero => exact Option.some.inj same
  | succ n ih =>
    rw [agree,Option.ite_none_right_eq_some] at same
    have here : cbrt_step f x = cbrt_step a x :=
      le_antisymm ((cbrt_step_mono high).trans same.1.ge) (cbrt_step_mono low)
    rw [Function.iterate_succ_apply,here]
    exact ih same.2
/-- Halve the interval until the steps agree on it, and compare with its ends. -/
def settled (want : Bool) : Nat → Nat → Nat → Bool
  | 0, _, _ => false
  | n + 1, a, b =>
    match if a / 1000 = b / 1000 then agree a b 6 (max 1 (a / 1000)) else none with
    | some r => if want then (r - 1) ^ 3 ≤ a && b < (r + 2) ^ 3 else b < (r - 1) ^ 3 || (r + 2) ^ 3 ≤ a
    | none => let m := if a / 1000 = b / 1000 then (a + b) / 2 else (a / 1000 + b / 1000) / 2 * 1000 + 999
      settled want n a m && settled want n (m + 1) b
lemma settled_spec {want : Bool} {n : Nat} (low : a ≤ f) (high : f ≤ b) (checked : settled want n a b) : Near f (root f) ↔ want := by
  induction n generalizing a b with
  | zero => cases checked
  | succ n ih =>
    rw [settled] at checked
    split at checked
    · next r same =>
      rw [Option.ite_none_right_eq_some] at same
      have start : f / 1000 = a / 1000 := by omega
      have value : root f = r := by rw [root,start]; exact agree_spec low high same.2
      rw [value,Near]
      cases want <;> simp at checked ⊢ <;> omega
    · dsimp only at checked
      generalize (if a / 1000 = b / 1000 then _ else _) = m at checked
      rw [Bool.and_eq_true] at checked
      by_cases first : f ≤ m
      · exact ih low first checked.1
      · exact ih (by omega) high checked.2
/-- Six steps reach the root for these factors, and they do not for those between and above. -/
def reached : List (Nat × Nat) :=
  [(0,156),(4000,4863),(4913,570833),(571787,587999),(592704,602999),(614125,623999),(636056,639999)]
def missed : List (Nat × Nat) :=
  [(157,3999),(4864,4912),(570834,571786),(588000,592703),(603000,614124),(624000,636055),(640000,1300000)]
lemma reached_settled : ∀ p ∈ reached, settled true 24 p.1 p.2 := by decide +kernel
lemma missed_settled : ∀ p ∈ missed, settled false 24 p.1 p.2 := by decide +kernel
lemma iterate_ge (f n x : Nat) : 2 ^ n * (x + 2) ≤ 3 ^ n * ((cbrt_step f)^[n] x + 2) := by
  induction n with
  | zero => simp
  | succ n ih =>
    rw [Function.iterate_succ_apply',pow_succ,pow_succ]
    generalize (cbrt_step f)^[n] x = y at ih
    have one : 2 * (y + 2) ≤ 3 * (cbrt_step f y + 2) := by
      unfold cbrt_step
      dsimp only
      split <;> generalize f / _ = q <;> omega
    have := Nat.mul_le_mul_left (3 ^ n) one
    linarith
/-- So a large factor is far from its root after six. -/
lemma far_of_large (large : 1300000 < f) : ¬ Near f (root f) := by
  have left := iterate_ge f 6 (max 1 (f / 1000))
  rw [← root] at left
  obtain ⟨k,size⟩ : ∃ k, root f = k + 111 := ⟨root f - 111,by omega⟩
  rw [size] at left ⊢
  rintro ⟨low,-⟩
  have cube : (k + 111 - 1) ^ 3 = k ^ 3 + 330 * k ^ 2 + 36300 * k + 1331000 := by
    rw [Nat.add_sub_assoc (by decide)]
    ring
  omega
lemma near_root_iff : Near f (root f) ↔ ∃ p ∈ reached, p.1 ≤ f ∧ f ≤ p.2 := by
  constructor
  · intro near
    by_contra outside
    by_cases large : 1300000 < f
    · exact far_of_large large near
    · obtain ⟨p,mem,low,high⟩ : ∃ p ∈ missed, p.1 ≤ f ∧ f ≤ p.2 := by
        simp [reached,missed] at outside ⊢
        omega
      cases (settled_spec low high (missed_settled p mem)).mp near
  · rintro ⟨p,mem,low,high⟩
    exact (settled_spec low high (reached_settled p mem)).mpr rfl
/-- The inflection point is within a second of the cube root exactly for the factors listed. -/
theorem inflection_near_root_iff (s : CcState) (now cycles_per_ms c : Nat) (window : s.cwnd < 2 ^ 32)
    (low : c ^ 3 ≤ s.cwnd * 3 / 4) (high : s.cwnd * 3 / 4 < (c + 1) ^ 3) :
    (s.note_loss_epoch now cycles_per_ms).k_ms / 1000 ≤ c + 1 ∧ c ≤ (s.note_loss_epoch now cycles_per_ms).k_ms / 1000 + 1 ↔
      ∃ p ∈ reached, p.1 ≤ s.cwnd * 3 / 4 ∧ s.cwnd * 3 / 4 ≤ p.2 := by
  have value : (s.note_loss_epoch now cycles_per_ms).k_ms = min (root (s.cwnd * 3 / 4) * 1000) 4294967295 := rfl
  have small : c < 1626 := by
    by_contra more
    have := Nat.pow_le_pow_left (not_lt.mp more) 3
    omega
  rw [value,← near_root_iff,near_iff low high]
  omega
theorem inflection_near_root_first : (CcState.note_loss_epoch (epoch 14600) 0 1).k_ms / 1000 ≤ 23 :=
  ((inflection_near_root_iff (epoch 14600) 0 1 22 (by decide) (by decide) (by decide)).mpr
    ⟨(4913,570833),by decide,by decide⟩).1
/-- For a window of 1 MiB six steps stop at 97, and the root is 92. -/
theorem inflection_far : 92 ^ 3 ≤ 1048576 * 3 / 4 ∧ 1048576 * 3 / 4 < 93 ^ 3 ∧
    (CcState.note_loss_epoch (epoch 1048576) 0 1).k_ms / 1000 = 97 := by decide
end Cubic
end Narf.Net.Tcp
