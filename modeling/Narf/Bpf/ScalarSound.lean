import Narf.Bpf.Interp

/-! Soundness of the scalar domain: every operation keeps every concrete result. The
membership predicate is the source's own `contains`. -/

namespace Narf.Bpf
open BitVec hiding and_assoc
open Interp (div rem end_order mov)


/-! ### Signed and unsigned readings of a word -/
lemma toInt_cases (v : U64) : v.toNat < 2 ^ 63 ∧ v.toInt = v.toNat ∨
      2 ^ 63 ≤ v.toNat ∧ v.toNat < 2 ^ 64 ∧ v.toInt = (v.toNat : Int) - 2 ^ 64 := by
  have bound := v.isLt
  rw [toInt_eq_toNat_cond]
  split <;> omega
lemma toInt_I64_MIN : I64_MIN.toInt = -2 ^ 63 := by decide
lemma toInt_I64_MAX : I64_MAX.toInt = 2 ^ 63 - 1 := by decide
lemma toInt_range (v : U64) : I64_MIN.toInt ≤ v.toInt ∧ v.toInt ≤ I64_MAX.toInt := by
  rw [toInt_I64_MIN,toInt_I64_MAX]
  have reading := toInt_cases v
  omega
lemma toInt_ofInt_of_fits {z : Int} (low : I64_MIN.toInt ≤ z) (high : z ≤ I64_MAX.toInt) : (BitVec.ofInt 64 z).toInt = z := by
  rw [toInt_I64_MIN] at low
  rw [toInt_I64_MAX] at high
  exact toInt_ofInt_eq_self (by decide) (by omega) (by omega)
@[simp] lemma imax_toInt (a b : I64) : (imax a b).toInt = max a.toInt b.toInt := by unfold imax; split <;> omega
@[simp] lemma imin_toInt (a b : I64) : (imin a b).toInt = min a.toInt b.toInt := by unfold imin; split <;> omega
@[simp] lemma umax_toNat (a b : U64) : (umax a b).toNat = max a.toNat b.toNat := by unfold umax; split <;> omega
@[simp] lemma umin_toNat (a b : U64) : (umin a b).toNat = min a.toNat b.toNat := by unfold umin; split <;> omega

namespace Scalar
variable {s A B : Scalar} {v c lo hi a b : U64} {t : Tnum} {bits : Nat}
lemma contains_iff : s.contains v ↔ s.tnum.contains v ∧ s.min.toInt ≤ v.toInt ∧ v.toInt ≤ s.max.toInt := by
  simp [contains,and_assoc]
lemma contains_unknown (v : U64) : UNKNOWN.contains v :=
  contains_iff.mpr ⟨Tnum.contains_unknown v,(toInt_range v).1,(toInt_range v).2⟩
lemma contains_constant : (constant c).contains v ↔ v = c := by
  rw [contains_iff]
  simp only [constant,Tnum.contains_constant]
  constructor
  · exact fun mem => mem.1
  · rintro rfl
    exact ⟨rfl,le_refl _,le_refl _⟩
lemma eq_of_as_const (single : s.as_const = some c) (mem : s.contains v) : v = c := by
  rw [contains_iff] at mem
  unfold as_const at single
  split at single
  next known =>
    have mask : s.tnum.mask = 0#64 := by simpa [Tnum.is_const] using known
    have value := mem.1
    rw [Tnum.contains,mask,not_zero,and_allOnes,beq_iff_eq] at value
    rw [value]
    simpa using single
  next =>
    split at single
    next ends =>
      rw [← ends] at mem
      have value : s.min = c := by simpa using single
      rw [← value]
      exact eq_of_toInt_eq (le_antisymm mem.2.2 mem.2.1)
    next => simp at single

/-! ### Normalisation -/
/-- The prefix an interval gives the tnum. -/
def hull (min max : I64) : Tnum :=
  if 0 ≤ min.toInt ∨ max.toInt < 0 then Tnum.from_unsigned_range min max else Tnum.UNKNOWN
lemma hull_contains (low : lo.toInt ≤ v.toInt) (high : v.toInt ≤ hi.toInt) : (hull lo hi).contains v := by
  unfold hull
  split
  next oneSign =>
    have readLow := toInt_cases lo
    have readHigh := toInt_cases hi
    have read := toInt_cases v
    exact Tnum.from_unsigned_range_contains (by omega) (by omega)
  next => exact Tnum.contains_unknown v
lemma normalize_round_eq {m : Tnum} (order : (imax s.min s.tnum.signed_bounds.1).toInt ≤ (imin s.max s.tnum.signed_bounds.2).toInt)
    (met : s.tnum.meet (hull (imax s.min s.tnum.signed_bounds.1) (imin s.max s.tnum.signed_bounds.2)) = some m) :
    s.normalize_round = some ⟨m,imax s.min s.tnum.signed_bounds.1,imin s.max s.tnum.signed_bounds.2⟩ := by
  unfold hull at met
  unfold normalize_round
  rw [if_neg (by rw [imax_toInt,imin_toInt] at order; omega)]
  simp only [met]
  rw [if_neg (by omega)]
private lemma normalize_round_contains (mem : s.contains v) : ∃ next, s.normalize_round = some next ∧ next.contains v := by
  rw [contains_iff] at mem
  obtain ⟨known,low,high⟩ := mem
  have bounds := Tnum.signed_bounds_contains known
  have newLow : (imax s.min s.tnum.signed_bounds.1).toInt ≤ v.toInt := by rw [imax_toInt]; omega
  have newHigh : v.toInt ≤ (imin s.max s.tnum.signed_bounds.2).toInt := by rw [imin_toInt]; omega
  obtain ⟨m,met,inside⟩ := Tnum.meet_contains known (hull_contains newLow newHigh)
  exact ⟨_,normalize_round_eq (by omega) met,contains_iff.mpr ⟨inside,newLow,newHigh⟩⟩
private lemma normalize_rounds_contains (rounds : Nat) (mem : s.contains v) :
    ∃ out, normalize_rounds rounds s = some out ∧ out.contains v := by
  have stop {u : Scalar} (inside : u.contains v) : normalize_rounds 0 u = some u := by
    have bounds := contains_iff.mp inside
    unfold normalize_rounds
    rw [if_neg (by omega)]
  induction rounds generalizing s with
  | zero => exact ⟨s,stop mem,mem⟩
  | succ rounds later =>
    obtain ⟨next,round,inside⟩ := normalize_round_contains mem
    unfold normalize_rounds
    simp only [round]
    split
    · exact ⟨next,stop inside,inside⟩
    · exact later inside
lemma normalize_contains (mem : s.contains v) : ∃ out, s.normalize = some out ∧ out.contains v := normalize_rounds_contains 3 mem
lemma normalized_contains (mem : s.contains v) : s.normalized.contains v := by
  obtain ⟨out,reduced,inside⟩ := normalize_contains mem
  simpa [normalized,reduced] using inside
lemma normalized_mk_contains (known : t.contains v)
    (low : lo.toInt ≤ v.toInt) (high : v.toInt ≤ hi.toInt) : (normalized ⟨t,lo,hi⟩).contains v :=
  normalized_contains (contains_iff.mpr ⟨known,low,high⟩)
lemma unsigned_bounds_contains (mem : s.contains v) : s.unsigned_bounds.1.toNat ≤ v.toNat ∧ v.toNat ≤ s.unsigned_bounds.2.toNat := by
  rw [contains_iff] at mem
  have known := Tnum.unsigned_bounds_contains mem.1
  have readLow := toInt_cases s.min
  have readHigh := toInt_cases s.max
  have read := toInt_cases v
  have top : U64_MAX.toNat = 2 ^ 64 - 1 := by decide
  have bound := v.isLt
  simp only [unsigned_bounds,umax_toNat,umin_toNat]
  split <;> simp only [toNat_ofNat] <;> omega
lemma normalize_round_some {u : Scalar} (round : s.normalize_round = some u) :
    u.min = imax s.min s.tnum.signed_bounds.1 ∧ u.max = imin s.max s.tnum.signed_bounds.2 ∧
      u.min.toInt ≤ u.max.toInt ∧ s.tnum.meet (hull u.min u.max) = some u.tnum := by
  unfold normalize_round at round
  split at round
  · simp at round
  · dsimp only at round
    split at round
    · simp at round
    next order =>
      split at round
      · simp at round
      next met =>
        cases round
        exact ⟨rfl,rfl,not_lt.mp order,met⟩
/-- Both parts of `s` lie inside those of `u`. -/
def Inside (s u : Scalar) : Prop := s.tnum.Within u.tnum ∧ u.min.toInt ≤ s.min.toInt ∧ s.max.toInt ≤ u.max.toInt
lemma Inside.refl (s : Scalar) : s.Inside s := ⟨fun _ known => known,le_rfl,le_rfl⟩
/-- Normalising only takes away. -/
lemma normalize_rounds_inside (rounds : Nat) {out : Scalar} (reduced : normalize_rounds rounds s = some out) : out.Inside s := by
  have stop {u : Scalar} (last : normalize_rounds 0 u = some out) : u = out := by
    unfold normalize_rounds at last
    split at last <;> simp_all
  induction rounds generalizing s with
  | zero => exact stop reduced ▸ .refl s
  | succ rounds later =>
    unfold normalize_rounds at reduced
    cases round : s.normalize_round with
    | none => simp [round] at reduced
    | some next =>
      have kept : out.Inside next := by
        simp only [round] at reduced
        split at reduced
        · exact stop reduced ▸ .refl next
        · exact later reduced
      obtain ⟨low,high,_,met⟩ := normalize_round_some round
      rw [Inside,low,high,imax_toInt,imin_toInt] at kept
      exact ⟨fun v known => ((Tnum.contains_meet_iff met).mp (kept.1 v known)).1,by omega,by omega⟩
lemma normalized_tnum (known : s.normalized.tnum.contains v) : s.tnum.contains v := by
  unfold normalized at known
  cases reduced : s.normalize with
  | none => simpa [reduced] using known
  | some out =>
    rw [reduced] at known
    exact (normalize_rounds_inside 3 reduced).1 v known

/-! ### Interval arithmetic -/
private lemma interval_clamp_contains {lo hi z : Int} (low : lo ≤ z) (high : z ≤ hi) :
    (interval_clamp lo hi).1.toInt ≤ (BitVec.ofInt 64 z).toInt ∧ (BitVec.ofInt 64 z).toInt ≤ (interval_clamp lo hi).2.toInt := by
  unfold interval_clamp
  split
  next fits =>
    rw [toInt_ofInt_of_fits fits.1 (by omega),toInt_ofInt_of_fits (by omega) fits.2,toInt_ofInt_of_fits (by omega) (by omega)]
    exact ⟨low,high⟩
  next => exact toInt_range _
lemma interval_add_contains {alo ahi blo bhi a b : I64} (alow : alo.toInt ≤ a.toInt) (ahigh : a.toInt ≤ ahi.toInt)
    (blow : blo.toInt ≤ b.toInt) (bhigh : b.toInt ≤ bhi.toInt) : (interval_add alo ahi blo bhi).1.toInt ≤ (a + b).toInt ∧
      (a + b).toInt ≤ (interval_add alo ahi blo bhi).2.toInt := by
  have sum : a + b = BitVec.ofInt 64 (a.toInt + b.toInt) := by rw [ofInt_add,ofInt_toInt,ofInt_toInt]
  rw [sum]
  exact interval_clamp_contains (by omega) (by omega)
lemma interval_neg_contains {lo hi a : I64} (low : lo.toInt ≤ a.toInt) (high : a.toInt ≤ hi.toInt) :
    (interval_neg lo hi).1.toInt ≤ (-a).toInt ∧ (-a).toInt ≤ (interval_neg lo hi).2.toInt := by
  have negated : -a = BitVec.ofInt 64 (-a.toInt) := by rw [ofInt_neg,ofInt_toInt]
  rw [negated]
  exact interval_clamp_contains (by omega) (by omega)
/-- A product lies between two products with one factor at an end of its range. -/
private lemma mul_between_ends {lo hi a : Int} (low : lo ≤ a) (high : a ≤ hi) (b : Int) :
    Min.min (lo * b) (hi * b) ≤ a * b ∧ a * b ≤ Max.max (lo * b) (hi * b) := by
  rcases le_total 0 b with positive | negative
  · have first := mul_le_mul_of_nonneg_right low positive
    have second := mul_le_mul_of_nonneg_right high positive
    omega
  · have first := mul_le_mul_of_nonpos_right low negative
    have second := mul_le_mul_of_nonpos_right high negative
    omega
lemma interval_mul_contains {alo ahi blo bhi a b : I64} (alow : alo.toInt ≤ a.toInt) (ahigh : a.toInt ≤ ahi.toInt)
    (blow : blo.toInt ≤ b.toInt) (bhigh : b.toInt ≤ bhi.toInt) : (interval_mul alo ahi blo bhi).1.toInt ≤ (a * b).toInt ∧
      (a * b).toInt ≤ (interval_mul alo ahi blo bhi).2.toInt := by
  have product : a * b = BitVec.ofInt 64 (a.toInt * b.toInt) := by rw [ofInt_mul,ofInt_toInt,ofInt_toInt]
  have outer := mul_between_ends alow ahigh b.toInt
  have left := mul_between_ends blow bhigh alo.toInt
  have right := mul_between_ends blow bhigh ahi.toInt
  simp only [mul_comm _ alo.toInt] at left
  simp only [mul_comm _ ahi.toInt] at right
  rw [product]
  exact interval_clamp_contains (by omega) (by omega)

/-! ### Arithmetic and bitwise transfers -/
section Binary
variable {A B : Scalar} {a b : U64} (aA : A.contains a) (bB : B.contains b)
include aA bB
lemma add_contains : (A.add B).contains (a + b) := by
  rw [contains_iff] at aA bB
  have interval := interval_add_contains aA.2.1 aA.2.2 bB.2.1 bB.2.2
  exact normalized_mk_contains (Tnum.add_contains aA.1 bB.1) interval.1 interval.2
lemma sub_contains : (A.sub B).contains (a - b) := by
  rw [contains_iff] at aA bB
  have negated := interval_neg_contains bB.2.1 bB.2.2
  have interval := interval_add_contains aA.2.1 aA.2.2 negated.1 negated.2
  have known := Tnum.sub_contains aA.1 bB.1
  rw [sub_eq_add_neg] at *
  exact normalized_mk_contains known interval.1 interval.2
lemma mul_contains : (A.mul B).contains (a * b) := by
  rw [contains_iff] at aA bB
  have interval := interval_mul_contains aA.2.1 aA.2.2 bB.2.1 bB.2.2
  exact normalized_mk_contains (Tnum.mul_contains aA.1 bB.1) interval.1 interval.2
lemma and_contains : (A.and B).contains (a &&& b) := by
  rw [contains_iff] at aA bB
  exact normalized_mk_contains (Tnum.and_contains aA.1 bB.1) (toInt_range _).1 (toInt_range _).2
lemma or_contains : (A.or B).contains (a ||| b) := by
  rw [contains_iff] at aA bB
  exact normalized_mk_contains (Tnum.or_contains aA.1 bB.1) (toInt_range _).1 (toInt_range _).2
lemma xor_contains : (A.xor B).contains (a ^^^ b) := by
  rw [contains_iff] at aA bB
  exact normalized_mk_contains (Tnum.xor_contains aA.1 bB.1) (toInt_range _).1 (toInt_range _).2
end Binary
lemma neg_contains (aA : A.contains a) : A.neg.contains (-a) := by
  rw [contains_iff] at aA
  have interval := interval_neg_contains aA.2.1 aA.2.2
  have known := Tnum.sub_contains Tnum.contains_zero aA.1
  rw [BitVec.zero_sub] at known
  exact normalized_mk_contains known interval.1 interval.2

/-! ### Shifts -/
lemma shift_amount_eq {n : Nat} (bB : B.contains b) (amount : shift_amount B 63 = some n) : n = (b &&& 63#64).toNat ∧ n < 64 := by
  unfold shift_amount at amount
  rw [Option.map_eq_some_iff] at amount
  obtain ⟨c,single,rfl⟩ := amount
  have value := eq_of_as_const single bB
  subst value
  have low : (b &&& 63#64).toNat = b.toNat % 64 := by
    rw [toNat_and]
    exact Nat.and_two_pow_sub_one_eq_mod b.toNat 6
  have masked : (b.toNat % 2 ^ 32) &&& 63 = b.toNat % 2 ^ 32 % 64 := Nat.and_two_pow_sub_one_eq_mod _ 6
  omega
section Shifts
variable {A B : Scalar} {a b : U64} (aA : A.contains a) (bB : B.contains b)
include aA bB
lemma shl_contains : (A.shl B).contains (a <<< (b &&& 63#64).toNat) := by
  unfold shl
  split
  next => exact contains_unknown _
  next n amount =>
    obtain ⟨rfl,small⟩ := shift_amount_eq bB amount
    rw [contains_iff] at aA
    generalize (b &&& 63#64).toNat = n at small ⊢
    apply normalized_mk_contains (Tnum.shl_contains aA.1 n) <;> split
    all_goals first | exact (toInt_range _).1 | exact (toInt_range _).2 | skip
    all_goals
      next fits =>
        have top : I64_MAX.toNat >>> n * 2 ^ n < 2 ^ 63 := by
          have maximum : I64_MAX.toNat = 2 ^ 63 - 1 := by decide
          rw [maximum,Nat.shiftRight_eq_div_pow]
          have := Nat.div_mul_le_self (2 ^ 63 - 1) (2 ^ n)
          omega
        have readLow := toInt_cases A.min
        have readHigh := toInt_cases A.max
        have read := toInt_cases a
        have exactly {v : U64} (inside : v.toNat ≤ A.max.toNat) : (v <<< n).toInt = v.toNat * 2 ^ n := by
          have scaled : v.toNat * 2 ^ n ≤ I64_MAX.toNat >>> n * 2 ^ n :=
            Nat.mul_le_mul_right _ (le_trans inside fits.2)
          have word : (v <<< n).toNat = v.toNat * 2 ^ n := by
            rw [toNat_shiftLeft,Nat.shiftLeft_eq]
            exact Nat.mod_eq_of_lt (by omega)
          have reading := toInt_cases (v <<< n)
          rw [word] at reading
          push_cast at reading
          omega
        rw [exactly (by omega),exactly (by omega)]
        have scaled : (2 : Int) ^ n > 0 := by positivity
        have lower : (A.min.toNat : Int) ≤ a.toNat := by omega
        have upper : (a.toNat : Int) ≤ A.max.toNat := by omega
        nlinarith
lemma shr_contains : (A.shr B).contains (a >>> (b &&& 63#64).toNat) := by
  unfold shr
  split
  next => exact contains_unknown _
  next n amount =>
    obtain ⟨rfl,small⟩ := shift_amount_eq bB amount
    generalize (b &&& 63#64).toNat = n at small ⊢
    split
    next none => simpa [none] using aA
    next some =>
      rw [contains_iff] at aA
      have logical : (a >>> n).toInt = a.toNat / 2 ^ n := by
        rw [toInt_ushiftRight,if_neg some,Nat.shiftRight_eq_div_pow]
        push_cast
        rfl
      apply normalized_mk_contains (Tnum.shr_contains aA.1 n) <;> split
      all_goals rw [logical]
      · next positive =>
        rw [toInt_sshiftRight,Int.shiftRight_eq_div_pow]
        push_cast
        have read := toInt_cases a
        exact Int.ediv_le_ediv (by positivity) (by omega)
      · simpa using Int.ediv_nonneg (Int.natCast_nonneg a.toNat) (by positivity)
      · next positive =>
        rw [toInt_sshiftRight,Int.shiftRight_eq_div_pow]
        push_cast
        have read := toInt_cases a
        exact Int.ediv_le_ediv (by positivity) (by omega)
      · rw [toInt_ushiftRight,if_neg some,Nat.shiftRight_eq_div_pow]
        have top : U64_MAX.toNat = 2 ^ 64 - 1 := by decide
        have bound := a.isLt
        have divided := Nat.div_le_div_right (c := 2 ^ n) (show a.toNat ≤ U64_MAX.toNat by omega)
        exact_mod_cast divided
lemma sar_contains : (A.sar B).contains (a.sshiftRight (b &&& 63#64).toNat) := by
  unfold sar
  split
  next => exact contains_unknown _
  next n amount =>
    obtain ⟨rfl,small⟩ := shift_amount_eq bB amount
    rw [contains_iff] at aA
    apply normalized_mk_contains (Tnum.sar_contains aA.1 _ small)
    all_goals
      rw [toInt_sshiftRight,toInt_sshiftRight,Int.shiftRight_eq_div_pow,Int.shiftRight_eq_div_pow]
      exact Int.ediv_le_ediv (by positivity) (by omega)
end Shifts

/-! ### Subregister views -/
lemma low_mask_32 : 0xffffffff#64 = low_mask 32 := by decide
lemma toNat_low32 (v : U64) : (Interp.low32 v).toNat = v.toNat % 2 ^ 32 := by
  simp only [Interp.low32,toNat_setWidth]
  omega
lemma low32_eq_and (v : U64) : Interp.low32 v = v &&& low_mask 32 := by
  apply eq_of_toNat_eq
  rw [toNat_low32,Tnum.toNat_and_low_mask (by decide)]
private lemma zero_extend_32_top (t : Tnum) : (t.zero_extend 32).unsigned_bounds.2.toNat < 2 ^ 32 := by
  simp only [Tnum.unsigned_bounds,Tnum.zero_extend,Nat.reduceLeDiff,if_false]
  rw [← and_or_distrib_right,Tnum.toNat_and_low_mask (by decide)]
  exact Nat.mod_lt _ (by decide)
lemma zext32_contains (aA : A.contains a) : A.zext32.contains (Interp.low32 a) := by
  rw [contains_iff] at aA
  have known := Tnum.zero_extend_contains aA.1 32 (by decide)
  have value := toNat_low32 a
  rw [← low32_eq_and] at known
  have reading := toInt_cases (Interp.low32 a)
  unfold zext32
  dsimp only
  split
  next shared =>
    have high : A.min.toNat / 2 ^ 32 = A.max.toNat / 2 ^ 32 := by
      have halves := congrArg BitVec.toNat shared
      simpa only [toNat_ushiftRight,Nat.shiftRight_eq_div_pow] using halves
    have readLow := toInt_cases A.min
    have readHigh := toInt_cases A.max
    have read := toInt_cases a
    have lowHalf : (A.min &&& 0xffffffff#64).toNat = A.min.toNat % 2 ^ 32 := by
      rw [low_mask_32,Tnum.toNat_and_low_mask (by decide)]
    have highHalf : (A.max &&& 0xffffffff#64).toNat = A.max.toNat % 2 ^ 32 := by
      rw [low_mask_32,Tnum.toNat_and_low_mask (by decide)]
    have ranged : (Tnum.from_unsigned_range (A.min &&& 0xffffffff#64) (A.max &&& 0xffffffff#64)).contains
        (Interp.low32 a) := Tnum.from_unsigned_range_contains (by omega) (by omega)
    obtain ⟨m,met,inside⟩ := Tnum.meet_contains known ranged
    have readLowHalf := toInt_cases (A.min &&& 0xffffffff#64)
    have readHighHalf := toInt_cases (A.max &&& 0xffffffff#64)
    rw [met]
    exact normalized_mk_contains inside (by omega) (by omega)
  next =>
    have bounds := Tnum.unsigned_bounds_contains known
    have top := zero_extend_32_top A.tnum
    have readLow := toInt_cases (A.tnum.zero_extend 32).unsigned_bounds.1
    have readHigh := toInt_cases (A.tnum.zero_extend 32).unsigned_bounds.2
    exact normalized_mk_contains known (by omega) (by omega)
private lemma zext32_top (A : Scalar) : A.zext32.unsigned_bounds.2.toNat < 2 ^ 32 := by
  have small {t : Tnum} (narrowed : ∀ v, t.contains v → (A.tnum.zero_extend 32).contains v) :
      (t.value ||| t.mask).toNat < 2 ^ 32 :=
    lt_of_le_of_lt (Tnum.unsigned_bounds_contains (narrowed _ t.contains_top)).2 (zero_extend_32_top A.tnum)
  have top : (A.zext32.tnum.value ||| A.zext32.tnum.mask).toNat < 2 ^ 32 := by
    apply small
    intro v known
    unfold zext32 at known
    dsimp only at known
    split at known
    · have before := normalized_tnum known
      cases met : (A.tnum.zero_extend 32).meet
          (Tnum.from_unsigned_range (A.min &&& 0xffffffff#64) (A.max &&& 0xffffffff#64)) with
      | none => simpa [met] using before
      | some m =>
        rw [met] at before
        exact ((Tnum.contains_meet_iff met).mp before).1
    · exact normalized_tnum known
  simp only [unsigned_bounds,umin_toNat,Tnum.unsigned_bounds]
  omega
lemma toInt_sext32 (v : U64) : (Interp.sext v 32).toInt = if v.toNat % 2 ^ 32 < 2 ^ 31 then ((v.toNat % 2 ^ 32 : Nat) : Int)
      else ((v.toNat % 2 ^ 32 : Nat) : Int) - 2 ^ 32 := by
  have shifted : (v <<< 32).toNat = v.toNat % 2 ^ 32 * 2 ^ 32 := by
    rw [toNat_shiftLeft,Nat.shiftLeft_eq]
    omega
  have reading := toInt_cases (v <<< 32)
  rw [shifted] at reading
  simp only [Interp.sext,Nat.reduceLeDiff,if_false,Nat.reduceSub]
  rw [toInt_sshiftRight,Int.shiftRight_eq_div_pow]
  push_cast at reading ⊢
  split <;> omega
lemma sext_low (v : U64) (small : bits < 64) : Interp.sext (v &&& low_mask bits) bits = Interp.sext v bits := by
  have shifted : (v &&& low_mask bits) <<< (64 - bits) = v <<< (64 - bits) := by
    apply eq_of_getLsbD_eq
    intro i bound
    simp only [getLsbD_shiftLeft,getLsbD_and,Tnum.getLsbD_low_mask small,bound]
    by_cases low : i < 64 - bits
    · simp [low]
    · have inside : i - (64 - bits) < bits := by omega
      simp [inside]
  simp [Interp.sext,Nat.not_le.mpr small,shifted]
lemma tnum_sext_contains (known : t.contains v) (small : bits < 64) : (t.sign_extend bits).contains (Interp.sext v bits) := by
  have extended := Tnum.sign_extend_contains known bits small
  simpa only [Interp.sext,Nat.not_le.mpr small,if_false] using extended
lemma sext32_contains (aA : A.contains a) : A.sext32.contains (Interp.sext a 32) := by
  have inside := zext32_contains aA
  have known := tnum_sext_contains (contains_iff.mp inside).1 (show 32 < 64 by decide)
  rw [low32_eq_and,sext_low a (by decide)] at known
  have bounds := unsigned_bounds_contains inside
  have top := zext32_top A
  have value := toNat_low32 a
  have signed := toInt_sext32 a
  unfold sext32
  dsimp only
  generalize A.zext32.unsigned_bounds.1 = lo at *
  generalize A.zext32.unsigned_bounds.2 = hi at *
  have readLow := toInt_cases lo
  have readHigh := toInt_cases hi
  have lowered {v : U64} (big : 2 ^ 31 ≤ v.toNat) (small : v.toNat < 2 ^ 32) :
      (v - 1#64 <<< 32).toInt = (v.toNat : Int) - 2 ^ 32 := by
    have word : (v - 1#64 <<< 32).toNat = v.toNat + 2 ^ 64 - 2 ^ 32 := by
      rw [toNat_sub]
      have full : (1#64 <<< 32).toNat = 2 ^ 32 := by decide
      rw [full]
      omega
    have reading := toInt_cases (v - 1#64 <<< 32)
    omega
  have least : (-(1#64 <<< 31)).toInt = -2 ^ 31 := by decide
  have most : (1#64 <<< 31 - 1#64).toInt = 2 ^ 31 - 1 := by decide
  split
  next => apply normalized_mk_contains known <;> dsimp only <;> split at signed <;> omega
  next =>
    split
    next =>
      apply normalized_mk_contains known <;> dsimp only
      · rw [lowered (by omega) (by omega)]
        split at signed <;> omega
      · rw [lowered (by omega) (by omega)]
        split at signed <;> omega
    next =>
      apply normalized_mk_contains known <;> dsimp only
      · rw [least]
        split at signed <;> omega
      · rw [most]
        split at signed <;> omega
private lemma toInt_shiftLeft_one {k : Nat} (small : k ≤ 62) : (1#64 <<< k).toInt = 2 ^ k := by
  have power : 2 ^ k ≤ 2 ^ 62 := Nat.pow_le_pow_right (by decide) small
  have word : (1#64 <<< k).toNat = 2 ^ k := by
    rw [toNat_shiftLeft,Nat.shiftLeft_eq]
    simp only [toNat_ofNat]
    omega
  have reading := toInt_cases (1#64 <<< k)
  have cast : ((2 ^ k : Nat) : Int) = 2 ^ k := by push_cast; rfl
  rw [word,cast] at reading
  omega
lemma toInt_sext_bounds (v : U64) (positive : 0 < bits) (small : bits < 64) : (-(1#64 <<< (bits - 1))).toInt ≤ (Interp.sext v bits).toInt ∧
      (Interp.sext v bits).toInt ≤ ((1#64 <<< (bits - 1)) - 1#64).toInt := by
  have power := toInt_shiftLeft_one (show bits - 1 ≤ 62 by omega)
  have large : (2 : Int) ^ (bits - 1) ≤ 2 ^ 62 := by
    exact_mod_cast Nat.pow_le_pow_right (show 0 < 2 by decide) (show bits - 1 ≤ 62 by omega)
  have least : (0 : Int) < 2 ^ (bits - 1) := by positivity
  have negated : (-(1#64 <<< (bits - 1))).toInt = -2 ^ (bits - 1) := by
    rw [← power,← ofInt_toInt (x := 1#64 <<< (bits - 1)),← ofInt_neg,power]
    rw [toInt_ofInt_of_fits (by rw [toInt_I64_MIN]; omega) (by rw [toInt_I64_MAX]; omega),
      toInt_ofInt_of_fits (by rw [toInt_I64_MIN]; omega) (by rw [toInt_I64_MAX]; omega)]
  have top : ((1#64 <<< (bits - 1)) - 1#64).toInt = 2 ^ (bits - 1) - 1 := by
    have word : (1#64 <<< (bits - 1)) - 1#64 = BitVec.ofInt 64 (2 ^ (bits - 1) - 1) := by
      rw [Int.sub_eq_add_neg,ofInt_add,← power,ofInt_toInt,sub_eq_add_neg]
      rfl
    rw [word]
    exact toInt_ofInt_of_fits (by rw [toInt_I64_MIN]; omega) (by rw [toInt_I64_MAX]; omega)
  have range := toInt_range (v <<< (64 - bits))
  rw [toInt_I64_MIN,toInt_I64_MAX] at range
  have whole : (2 : Int) ^ (bits - 1) * 2 ^ (64 - bits) = 2 ^ 63 := by
    rw [← pow_add]
    congr 1
    omega
  have quotient : (Interp.sext v bits).toInt = (v <<< (64 - bits)).toInt / 2 ^ (64 - bits) := by
    simp only [Interp.sext,Nat.not_le.mpr small,if_false]
    rw [toInt_sshiftRight,Int.shiftRight_eq_div_pow]
    push_cast
    rfl
  have unit : (0 : Int) < 2 ^ (64 - bits) := by positivity
  rw [negated,top,quotient]
  constructor
  · apply Int.le_ediv_of_mul_le unit
    rw [neg_mul,whole]
    exact range.1
  · have below : (v <<< (64 - bits)).toInt / 2 ^ (64 - bits) < 2 ^ (bits - 1) := by
      apply Int.ediv_lt_of_lt_mul unit
      rw [whole]
      omega
    omega
lemma sign_extend_contains (aA : A.contains a) (positive : 0 < bits)
    (small : bits < 64) : (A.sign_extend bits).contains (Interp.sext a bits) := by
  have low := Tnum.zero_extend_contains (contains_iff.mp aA).1 bits small
  have known := tnum_sext_contains low small
  rw [sext_low a small] at known
  have bounds := toInt_sext_bounds a positive small
  unfold sign_extend
  rw [if_neg (by omega)]
  exact normalized_mk_contains known bounds.1 bounds.2

/-! ### Division, byte order and the instruction-level transfers -/
lemma from_unsigned_range_contains (low : lo.toNat ≤ v.toNat) (high : v.toNat ≤ hi.toNat) : (from_unsigned_range lo hi).contains v := by
  unfold from_unsigned_range
  rw [if_neg (by omega)]
  have known := Tnum.from_unsigned_range_contains low high
  have maximum : I64_MAX.toNat = 2 ^ 63 - 1 := by decide
  have readLow := toInt_cases lo
  have readHigh := toInt_cases hi
  have read := toInt_cases v
  dsimp only
  split
  · exact normalized_mk_contains known (toInt_range v).1 (toInt_range v).2
  · exact normalized_mk_contains known (by dsimp only; omega) (by dsimp only; omega)
lemma unsigned_bits_contains (small : bits < 64) (fits : v.toNat < 2 ^ bits) : (unsigned_bits bits).contains v := by
  unfold unsigned_bits
  rw [if_neg (by omega),contains_iff]
  have power : 2 ^ bits ≤ 2 ^ 63 := Nat.pow_le_pow_right (by decide) (by omega)
  have top := Tnum.toNat_low_mask small
  have read := toInt_cases v
  have readTop := toInt_cases (low_mask bits)
  refine ⟨Tnum.unknown_bits_contains ?_,by simp only [toInt_zero]; omega,by dsimp only; omega⟩
  intro i set
  rw [Tnum.getLsbD_low_mask small,decide_eq_true_eq]
  by_contra outside
  have large := Nat.ge_two_pow_of_testBit set
  have grown : 2 ^ bits ≤ 2 ^ i := Nat.pow_le_pow_right (by decide) (by omega)
  omega
private lemma toNat_eq_zero : v = 0#64 ↔ v.toNat = 0 := by
  rw [← toNat_inj]
  rfl
section Division
variable {A B : Scalar} {a b : U64} (aA : A.contains a) (bB : B.contains b)
include aA bB
lemma udiv_contains : (A.udiv B).contains (concrete_udiv a b) := by
  have dividend := unsigned_bounds_contains aA
  have divisor := unsigned_bounds_contains bB
  unfold udiv concrete_udiv
  generalize A.unsigned_bounds = x at *
  generalize B.unsigned_bounds = y at *
  dsimp only
  by_cases zero : b = 0#64
  · have least : y.1 = 0#64 := by
      rw [toNat_eq_zero] at zero ⊢
      omega
    rw [if_pos zero,if_pos least]
    exact from_unsigned_range_contains (le_refl _) (Nat.zero_le _)
  · rw [if_neg zero]
    rw [toNat_eq_zero] at zero
    have most : y.2 ≠ 0#64 := by
      rw [Ne,toNat_eq_zero]
      omega
    rw [if_neg most]
    apply from_unsigned_range_contains
    · split
      · simp
      · rw [toNat_udiv,toNat_udiv]
        exact le_trans (Nat.div_le_div_right dividend.1) (Nat.div_le_div_left divisor.2 (by omega))
    · split
      · rw [toNat_udiv]
        exact le_trans (Nat.div_le_self _ _) dividend.2
      next positive =>
        rw [toNat_eq_zero] at positive
        rw [toNat_udiv,toNat_udiv]
        exact le_trans (Nat.div_le_div_right dividend.2) (Nat.div_le_div_left divisor.1 (by omega))
lemma umod_contains : (A.umod B).contains (concrete_umod a b) := by
  have dividend := unsigned_bounds_contains aA
  have divisor := unsigned_bounds_contains bB
  unfold umod concrete_umod
  generalize A.unsigned_bounds = x at *
  generalize B.unsigned_bounds = y at *
  have below : (if b = 0#64 then a else a % b).toNat ≤ a.toNat := by
    split
    · exact le_refl _
    · rw [toNat_umod]; exact Nat.mod_le _ _
  apply from_unsigned_range_contains (by simp)
  by_cases least : y.1 = 0#64
  · rw [if_pos least]
    omega
  · rw [if_neg least]
    rw [toNat_eq_zero] at least
    have nonzero : b ≠ 0#64 := by rw [Ne,toNat_eq_zero]; omega
    have top : y.2 ≠ 0#64 := by rw [Ne,toNat_eq_zero]; omega
    rw [if_neg nonzero] at below ⊢
    rw [if_neg top,umin_toNat]
    have less : (a % b).toNat < b.toNat := by rw [toNat_umod]; exact Nat.mod_lt _ (by omega)
    have lowered : (y.2 - 1#64).toNat = y.2.toNat - 1 := by
      rw [toNat_sub,toNat_ofNat]
      have bound := y.2.isLt
      omega
    omega
lemma sdiv_contains : (A.sdiv B).contains (concrete_sdiv a b) := by
  unfold sdiv
  split
  next x y left right => rw [contains_constant,eq_of_as_const left aA,eq_of_as_const right bB]
  next => exact contains_unknown _
lemma smod_contains : (A.smod B).contains (concrete_smod a b) := by
  unfold smod
  split
  next x y left right => rw [contains_constant,eq_of_as_const left aA,eq_of_as_const right bB]
  next => exact contains_unknown _
end Division
private lemma setWidth_sext32 (v : U64) : (Interp.sext v 32).setWidth 32 = v.setWidth 32 := by
  apply eq_of_getLsbD_eq
  intro i bound
  simp only [Interp.sext,Nat.reduceLeDiff,if_false,Nat.reduceSub,getLsbD_setWidth,bound,getLsbD_sshiftRight,getLsbD_shiftLeft]
  have inside : 32 + i < 64 := by omega
  have small : i < 64 := by omega
  simp [inside,small]
private lemma toNat_setWidth_lt (v : BitVec 32) : (v.setWidth 64).toNat < 2 ^ 32 := by
  have bound := v.isLt
  rw [toNat_setWidth]
  omega
private lemma signed32_contains (f : BitVec 32 → BitVec 32 → BitVec 32) (aA : A.contains a) (bB : B.contains b) :
    (match A.sext32.as_const,B.sext32.as_const with
      | some x,some y => constant ((f (x.setWidth 32) (y.setWidth 32)).setWidth 64)
      | _,_ => unsigned_bits 32).contains ((f (a.setWidth 32) (b.setWidth 32)).setWidth 64) = true := by
  split
  next x y left right =>
    have first := eq_of_as_const left (sext32_contains aA)
    have second := eq_of_as_const right (sext32_contains bB)
    rw [contains_constant,← first,← second,setWidth_sext32,setWidth_sext32]
  next => exact unsigned_bits_contains (by decide) (toNat_setWidth_lt _)
variable (wide signed : Bool)
lemma div_op_contains (aA : A.contains a) (bB : B.contains b) : (A.div_op wide signed B).contains (div wide signed a b) := by
  cases wide <;> cases signed
  · exact zext32_contains (udiv_contains (zext32_contains aA) (zext32_contains bB))
  · exact signed32_contains concrete_sdiv32 aA bB
  · exact udiv_contains aA bB
  · exact sdiv_contains aA bB
lemma mod_op_contains (aA : A.contains a) (bB : B.contains b) : (A.mod_op wide signed B).contains (rem wide signed a b) := by
  cases wide <;> cases signed
  · exact zext32_contains (umod_contains (zext32_contains aA) (zext32_contains bB))
  · exact signed32_contains concrete_smod32 aA bB
  · exact umod_contains aA bB
  · exact smod_contains aA bB
private lemma swap_bytes_succ (n : Nat) (v : U64) : swap_bytes (n + 1) v = (swap_bytes n v <<< 8) ||| ((v >>> (8 * n)) &&& 0xff#64) := by
  simp [swap_bytes,List.range_succ]
private lemma swap_bytes_lt (n : Nat) (v : U64) (small : n ≤ 7) : (swap_bytes n v).toNat < 2 ^ (8 * n) := by
  induction n with
  | zero => simp [swap_bytes]
  | succ n shorter =>
    have before := shorter (by omega)
    have bound : 2 ^ (8 * n) ≤ 2 ^ 48 := Nat.pow_le_pow_right (by decide) (by omega)
    have grown : 2 ^ (8 * (n + 1)) = 2 ^ (8 * n) * 256 := by rw [Nat.mul_succ,Nat.pow_add]
    have shifted : (swap_bytes n v <<< 8).toNat = (swap_bytes n v).toNat * 256 := by
      rw [toNat_shiftLeft,Nat.shiftLeft_eq]
      omega
    have byte : ((v >>> (8 * n)) &&& 0xff#64).toNat < 2 ^ 8 := by
      rw [toNat_and]
      exact Nat.and_lt_two_pow _ (by decide)
    have wide : 2 ^ 8 ≤ 2 ^ (8 * (n + 1)) := Nat.pow_le_pow_right (by decide) (by omega)
    rw [swap_bytes_succ,toNat_or]
    exact Nat.or_lt_two_pow (by omega) (by omega)
lemma bswap_contains (width : Nat) (aA : A.contains a) : (A.bswap width).contains (concrete_bswap a width) := by
  unfold bswap
  cases single : A.as_const with
  | some c => exact contains_constant.mpr (by rw [eq_of_as_const single aA])
  | none =>
    dsimp only
    split
    · exact unsigned_bits_contains (by decide) (swap_bytes_lt 2 a (by decide))
    · exact unsigned_bits_contains (by decide) (swap_bytes_lt 4 a (by decide))
    · exact contains_unknown _
lemma end_op_contains (order : ByteOrder) (width : Nat) (aA : A.contains a) :
    (A.end_op order width).contains (end_order order width a) := by
  have half : Interp.low32 a &&& 0xffff#64 = (a.setWidth 16).setWidth 64 := by
    apply eq_of_toNat_eq
    have mask : (0xffff#64 : U64) = low_mask 16 := by decide
    rw [mask,Tnum.toNat_and_low_mask (by decide),toNat_low32]
    simp only [toNat_setWidth]
    omega
  cases order with
  | Little =>
    by_cases is16 : width = 16
    · subst is16
      have masked : (A.zext32.and (constant 0xffff#64)).contains (Interp.low32 a &&& 0xffff#64) :=
        and_contains (zext32_contains aA) (contains_constant.mpr rfl)
      rw [half] at masked
      exact masked
    by_cases is32 : width = 32
    · subst is32
      exact zext32_contains aA
    have whole : A.end_op .Little width = A := by simp [end_op]
    have word : end_order .Little width a = a := by simp [end_order]
    rw [whole,word]
    exact aA
  | Big | Swap => exact bswap_contains width aA
lemma neg_op_contains (aA : A.contains a) : (A.neg_op wide).contains (Interp.neg wide a) := by
  cases wide with
  | true => exact neg_contains aA
  | false =>
    have narrow : Interp.neg false a = Interp.low32 (-Interp.low32 a) := by
      apply eq_of_toNat_eq
      simp only [Interp.neg,Interp.low32,toNat_setWidth,toNat_neg,Bool.false_eq_true,if_false]
      omega
    rw [narrow]
    exact zext32_contains (neg_contains (zext32_contains aA))
/-- The move forms the decoder produces. -/
def ValidExtension (sign_extend : Option Nat) : Prop := ∀ bits ∈ sign_extend, 0 < bits ∧ bits < 64
lemma mov_op_contains {sign_extend : Option Nat} (valid : ValidExtension sign_extend) (aA : A.contains a) :
    (A.mov_op wide sign_extend).contains (mov wide sign_extend a) := by
  cases sign_extend with
  | none =>
    cases wide
    · exact zext32_contains aA
    · exact aA
  | some bits =>
    obtain ⟨positive,small⟩ := valid bits rfl
    cases wide
    · exact zext32_contains (sign_extend_contains aA positive small)
    · exact sign_extend_contains aA positive small
private lemma toNat_inj_setWidth {r : BitVec 32} (same : v.toNat % 2 ^ 32 = r.toNat) : r.setWidth 64 = Interp.low32 v := by
  apply eq_of_toNat_eq
  rw [toNat_low32,same,toNat_setWidth]
  have bound := r.isLt
  omega
private lemma toNat_amount (b : U64) :
    (b.setWidth 32 &&& 31#32).toNat = b.toNat % 32 ∧ (Interp.low32 b &&& 31#64 &&& 63#64).toNat = b.toNat % 32 := by
  have low5 : (31#64 : U64) = low_mask 5 := by decide
  have low6 : (63#64 : U64) = low_mask 6 := by decide
  constructor
  · rw [toNat_and,toNat_setWidth]
    have masked : b.toNat % 2 ^ 32 &&& 31 = b.toNat % 2 ^ 32 % 2 ^ 5 := Nat.and_two_pow_sub_one_eq_mod _ 5
    have literal : (31#32).toNat = 31 := by decide
    rw [literal,masked]
    omega
  · rw [low6,Tnum.toNat_and_low_mask (by decide),low5,Tnum.toNat_and_low_mask (by decide),toNat_low32]
    omega
private lemma getLsbD_sext32 (v : U64) {i : Nat} (bound : i < 64) :
    (Interp.sext v 32).getLsbD i = v.getLsbD (if i < 32 then i else 31) := by
  simp only [Interp.sext,Nat.reduceLeDiff,if_false,Nat.reduceSub,getLsbD_sshiftRight,msb_eq_getLsbD_last,getLsbD_shiftLeft]
  by_cases low : i < 32
  · have inside : 32 + i < 64 := by omega
    simp [low,inside,bound]
  · have outside : ¬32 + i < 64 := by omega
    simp [low,outside,bound]
private lemma sar32 (a : U64) (n : Nat) (small : n < 32) :
    ((a.setWidth 32).sshiftRight n).setWidth 64 = Interp.low32 ((Interp.sext a 32).sshiftRight n) := by
  have narrow : ((Interp.sext a 32).sshiftRight n).setWidth 32 = (a.setWidth 32).sshiftRight n := by
    apply eq_of_getLsbD_eq
    intro i bound
    have inside : n + i < 64 := by omega
    have word : i < 64 := by omega
    simp only [getLsbD_setWidth,getLsbD_sshiftRight,getLsbD_sext32 a inside,bound,inside,msb_eq_getLsbD_last]
    have beyond : ¬64 ≤ i ∧ ¬32 ≤ i := by omega
    by_cases low : n + i < 32 <;> simp [low,beyond]
  rw [Interp.low32,narrow]
lemma alu_contains (op : AluOp) (wide : Bool) (aA : A.contains a)
    (bB : B.contains b) : (A.alu op wide B).contains (Interp.alu op wide a b) := by
  cases wide with
  | true =>
    cases op with
    | Add => exact add_contains aA bB
    | Sub => exact sub_contains aA bB
    | Mul => exact mul_contains aA bB
    | Or => exact or_contains aA bB
    | And => exact and_contains aA bB
    | Lsh => exact shl_contains aA bB
    | Rsh => exact shr_contains aA bB
    | Xor => exact xor_contains aA bB
    | Arsh => exact sar_contains aA bB
  | false =>
    have left := zext32_contains aA
    have right := zext32_contains bB
    have amount := and_contains right (contains_constant.mpr (rfl : 31#64 = 31#64))
    obtain ⟨narrow,masked⟩ := toNat_amount b
    cases op with
    | Add =>
      rw [show Interp.alu .Add false a b = Interp.low32 (Interp.low32 a + Interp.low32 b) from
        toNat_inj_setWidth (by simp only [toNat_add,toNat_low32,toNat_setWidth]; omega)]
      exact zext32_contains (add_contains left right)
    | Sub =>
      rw [show Interp.alu .Sub false a b = Interp.low32 (Interp.low32 a - Interp.low32 b) from
        toNat_inj_setWidth (by simp only [toNat_sub,toNat_low32,toNat_setWidth]; omega)]
      exact zext32_contains (sub_contains left right)
    | Mul =>
      rw [show Interp.alu .Mul false a b = Interp.low32 (Interp.low32 a * Interp.low32 b) from
        toNat_inj_setWidth (by
          simp only [toNat_mul,toNat_low32,toNat_setWidth]
          exact Nat.mod_mod_of_dvd _ (by decide))]
      exact zext32_contains (mul_contains left right)
    | Or =>
      rw [show Interp.alu .Or false a b = Interp.low32 a ||| Interp.low32 b from
        setWidth_or (x := a.setWidth 32) (y := b.setWidth 32)]
      exact or_contains left right
    | And =>
      rw [show Interp.alu .And false a b = Interp.low32 a &&& Interp.low32 b from
        setWidth_and (x := a.setWidth 32) (y := b.setWidth 32)]
      exact and_contains left right
    | Xor =>
      rw [show Interp.alu .Xor false a b = Interp.low32 a ^^^ Interp.low32 b from
        setWidth_xor (x := a.setWidth 32) (y := b.setWidth 32)]
      exact xor_contains left right
    | Lsh =>
      have shifted := shl_contains left amount
      rw [masked] at shifted
      rw [show Interp.alu .Lsh false a b = Interp.low32 (Interp.low32 a <<< (b.toNat % 32)) from
        toNat_inj_setWidth (by
          simp only [toNat_shiftLeft,toNat_low32,toNat_setWidth,narrow]
          exact Nat.mod_mod_of_dvd _ (by decide))]
      exact zext32_contains shifted
    | Rsh =>
      have shifted := shr_contains left amount
      rw [masked] at shifted
      have same : Interp.alu .Rsh false a b = Interp.low32 a >>> (b.toNat % 32) := by
        apply eq_of_toNat_eq
        simp only [Interp.alu,Bool.false_eq_true,if_false,toNat_setWidth,toNat_ushiftRight,toNat_low32,narrow]
        rw [Nat.shiftRight_eq_div_pow]
        apply Nat.mod_eq_of_lt
        have below := Nat.div_le_self (a.toNat % 2 ^ 32) (2 ^ (b.toNat % 32))
        exact lt_of_le_of_lt below (lt_trans (Nat.mod_lt _ (by decide)) (by decide))
      rw [same]
      exact shifted
    | Arsh =>
      have shifted := sar_contains (sext32_contains aA) amount
      rw [masked] at shifted
      have same : Interp.alu .Arsh false a b = Interp.low32 ((Interp.sext a 32).sshiftRight (b.toNat % 32)) := by
        rw [← sar32 a _ (Nat.mod_lt _ (by decide)),← narrow]
        rfl
      rw [same]
      exact zext32_contains shifted
/-- Soundness of every scalar transfer: both widths, both signednesses, every move and
    byte-order form, for arbitrary members of arbitrary scalars. -/
theorem transfer_sound (A B : Scalar) (a b : U64) (aA : A.contains a = true) (bB : B.contains b = true) :
    (∀ op wide, (A.alu op wide B).contains (Interp.alu op wide a b) = true) ∧
    (∀ wide signed, (A.div_op wide signed B).contains (div wide signed a b) = true) ∧
    (∀ wide signed, (A.mod_op wide signed B).contains (rem wide signed a b) = true) ∧
    (∀ wide, (A.neg_op wide).contains (Interp.neg wide a) = true) ∧ (∀ wide, ∀ sign_extend ∈ [none,some 8,some 16,some 32],
      (A.mov_op wide sign_extend).contains (mov wide sign_extend a) = true) ∧
    (∀ order width, (A.end_op order width).contains (end_order order width a) = true) := by
  refine ⟨fun op wide => alu_contains op wide aA bB,fun wide signed => div_op_contains wide signed aA bB,
    fun wide signed => mod_op_contains wide signed aA bB,fun wide => neg_op_contains wide aA,?_,
    fun order width => end_op_contains order width aA⟩
  intro wide sign_extend form
  apply mov_op_contains wide _ aA
  intro bits some
  simp only [List.mem_cons,List.not_mem_nil,or_false] at form
  rcases form with rfl | rfl | rfl | rfl <;> simp_all <;> omega
/-- The hypotheses hold of an unknown byte and a negative constant. -/
theorem transfer_sound_byte : ((unsigned_bits 8).alu .Add false (constant (-1#64))).contains (Interp.alu .Add false 5#64 (-1#64)) = true :=
  (transfer_sound (unsigned_bits 8) (constant (-1#64)) 5#64 (-1#64) (by decide) (by decide)).1 .Add false
end Scalar
end Narf.Bpf
