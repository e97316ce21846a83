import Narf.Bpf.Isa
import Narf.Lib.Carry

/-! Tristate numbers: one half of the verifier's numeric domain. Each bit of a `Tnum`
is known (`value`) or unknown (`mask`). The transfer functions are the source's; each
is followed by the proof that it keeps every concrete result. -/

namespace Narf.Bpf
open BitVec Bool

open Narf.Lib

/-- Known bits `value`, unknown bits `mask`; an unknown bit's value is held at zero, so
    that equality is structural. -/
structure Tnum where
  value : U64
  mask : U64
  disjoint : value &&& mask = 0#64
  deriving DecidableEq
def SIGN : U64 := 1#64 <<< 63
/-- The `bits` low bits, for `bits < 64`. -/
def low_mask (bits : Nat) : U64 := (1#64 <<< bits) - 1#64

lemma bit_congr {x y : U64} (same : x = y) (i : Nat) : x.getLsbD i = y.getLsbD i := by rw [same]

namespace Tnum
lemma masked_disjoint (v mu : U64) : v &&& ~~~mu &&& mu = 0#64 := by
  simp [BitVec.and_assoc,BitVec.and_comm (~~~mu),BitVec.and_not_self]
lemma and_not_disjoint (v mu : U64) : v &&& (mu &&& ~~~v) = 0#64 := by
  simp [BitVec.and_comm mu,← BitVec.and_assoc,BitVec.and_not_self]
variable {v mu x y : U64} {t u : Tnum} {bits : Nat}
lemma sshiftRight_disjoint (apart : v &&& mu = 0#64) (n : Nat) : v.sshiftRight n &&& mu.sshiftRight n = 0#64 := by
  rw [← sshiftRight_and_distrib,apart,zero_sshiftRight]
lemma shiftLeft_disjoint (apart : v &&& mu = 0#64) (n : Nat) : v <<< n &&& mu <<< n = 0#64 := by
  rw [← shiftLeft_and_distrib,apart,zero_shiftLeft]
lemma shiftRight_disjoint (apart : v &&& mu = 0#64) (n : Nat) : v >>> n &&& mu >>> n = 0#64 := by
  rw [← ushiftRight_and_distrib,apart,zero_ushiftRight]
lemma keep_disjoint (apart : v &&& mu = 0#64) (keep : U64) : v &&& keep &&& (mu &&& keep) = 0#64 := by
  rw [BitVec.and_assoc,← BitVec.and_assoc keep,BitVec.and_comm keep mu,BitVec.and_assoc mu,BitVec.and_self,
    ← BitVec.and_assoc,apart,zero_and]
/-- Keep `v` outside the unknown bits `mu`. -/
def masked (v mu : U64) : Tnum := ⟨v &&& ~~~mu,mu,masked_disjoint v mu⟩
def UNKNOWN : Tnum := ⟨0#64,BitVec.allOnes 64,zero_and⟩
def ZERO : Tnum := ⟨0#64,0#64,zero_and⟩
def constant (v : U64) : Tnum := ⟨v,0#64,and_zero⟩
/-- No bit known, and only those of `mask` possibly set. -/
def unknown_bits (mask : U64) : Tnum := ⟨0#64,mask,zero_and⟩
def is_const (t : Tnum) : Bool := t.mask == 0#64
def contains (t : Tnum) (v : U64) : Bool := v &&& ~~~t.mask == t.value
def unsigned_bounds (t : Tnum) : U64 × U64 := (t.value,t.value ||| t.mask)
/-- Least and greatest members as signed values; an unknown sign bit is forced. -/
def signed_bounds (t : Tnum) : I64 × I64 :=
  let can_be_neg := (t.value ||| t.mask) &&& SIGN != 0#64
  let can_be_pos := t.value &&& SIGN == 0#64
  let lo := if can_be_neg then t.value ||| SIGN else t.value
  let hi := if can_be_pos then (t.value ||| t.mask) &&& ~~~SIGN else t.value ||| t.mask
  (lo,hi)
/-- The shared high-bit prefix of `[lo, hi]`; `64 - leading_zeros` is the bit length. -/
def from_unsigned_range (lo hi : U64) : Tnum :=
  if hi.toNat < lo.toNat then UNKNOWN
  else
    let differing := lo ^^^ hi
    if differing = 0#64 then constant lo
    else
      let bits := differing.toNat.log2 + 1
      if 64 ≤ bits then UNKNOWN
      else masked hi (low_mask bits)
def join (t u : Tnum) : Tnum :=
  let mu := t.mask ||| u.mask ||| (t.value ^^^ u.value)
  masked t.value mu
def meet (t u : Tnum) : Option Tnum :=
  if (t.value ^^^ u.value) &&& ~~~(t.mask ||| u.mask) != 0#64 then none
  else
    let mu := t.mask &&& u.mask
    some (masked (t.value ||| u.value) mu)
def is_subset_of (t u : Tnum) : Bool :=
  t.mask &&& ~~~u.mask == 0#64 && (t.value ^^^ u.value) &&& ~~~u.mask == 0#64
def add (t u : Tnum) : Tnum :=
  let sm := t.mask + u.mask
  let sv := t.value + u.value
  let sigma := sm + sv
  let chi := sigma ^^^ sv
  let mu := chi ||| t.mask ||| u.mask
  masked sv mu
def sub (t u : Tnum) : Tnum :=
  let dv := t.value - u.value
  let alpha := dv + t.mask
  let beta := dv - u.mask
  let chi := alpha ^^^ beta
  let mu := chi ||| t.mask ||| u.mask
  masked dv mu
def and (t u : Tnum) : Tnum :=
  let alpha := t.value ||| t.mask
  let beta := u.value ||| u.mask
  let v := t.value &&& u.value
  ⟨v,alpha &&& beta &&& ~~~v,and_not_disjoint _ _⟩
def or (t u : Tnum) : Tnum :=
  let v := t.value ||| u.value
  let mu := t.mask ||| u.mask
  ⟨v,mu &&& ~~~v,and_not_disjoint _ _⟩
def xor (t u : Tnum) : Tnum :=
  let v := t.value ^^^ u.value
  let mu := t.mask ||| u.mask
  masked v mu
def shl (t : Tnum) (n : Nat) : Tnum :=
  if 64 ≤ n then ZERO else ⟨t.value <<< n,t.mask <<< n,shiftLeft_disjoint t.disjoint n⟩
def shr (t : Tnum) (n : Nat) : Tnum :=
  if 64 ≤ n then ZERO else ⟨t.value >>> n,t.mask >>> n,shiftRight_disjoint t.disjoint n⟩
def sar (t : Tnum) (n : Nat) : Tnum :=
  let n := if 64 ≤ n then 63 else n
  ⟨t.value.sshiftRight n,t.mask.sshiftRight n,sshiftRight_disjoint t.disjoint n⟩
/-- The long-multiplication loop with `steps` rounds left. -/
def mul_loop : Nat → Tnum → Tnum → Tnum → Tnum
  | 0,acc,_,_ => acc
  | steps + 1,acc,a,b =>
    if a.value ||| a.mask = 0#64 then acc
    else
      let acc :=
        if a.value &&& 1#64 != 0#64 then acc.add b
        else if a.mask &&& 1#64 != 0#64 then acc.add (unknown_bits (b.value ||| b.mask))
        else acc
      mul_loop steps acc (a.shr 1) (b.shl 1)
def mul (t u : Tnum) : Tnum := mul_loop 64 ZERO t u
def zero_extend (t : Tnum) (bits : Nat) : Tnum :=
  if 64 ≤ bits then t else ⟨t.value &&& low_mask bits,t.mask &&& low_mask bits,keep_disjoint t.disjoint _⟩
def sign_extend (t : Tnum) (bits : Nat) : Tnum :=
  if 64 ≤ bits then t
  else
    let shift := 64 - bits
    ⟨(t.value <<< shift).sshiftRight shift,(t.mask <<< shift).sshiftRight shift,
      sshiftRight_disjoint (shiftLeft_disjoint t.disjoint shift) shift⟩

/-! ### Membership, bit by bit -/
lemma contains_iff : t.contains v ↔ ∀ i, (v.getLsbD i && !t.mask.getLsbD i) = t.value.getLsbD i := by
  simp only [contains,beq_iff_eq]
  constructor
  · intro mem i
    by_cases bound : i < 64
    · have bit := bit_congr mem i
      simpa [bound] using bit
    · simp [getLsbD_of_ge _ i (Nat.le_of_not_lt bound)]
  · intro bits
    apply eq_of_getLsbD_eq
    intro i bound
    simpa [bound] using bits i
lemma contains_masked_iff : (masked v mu).contains x ↔ ∀ i < 64, mu.getLsbD i = false → x.getLsbD i = v.getLsbD i := by
  rw [contains_iff]
  constructor
  · intro mem i bound known
    have bit := mem i
    simp only [masked,getLsbD_and,BitVec.getLsbD_not,bound,known] at bit
    simpa using bit
  · intro agree i
    by_cases bound : i < 64
    · have same := agree i bound
      cases known : mu.getLsbD i <;> simp_all [masked]
    · simp [getLsbD_of_ge _ i (Nat.le_of_not_lt bound)]
lemma contains_masked (agree : ∀ i < 64, mu.getLsbD i = false → x.getLsbD i = v.getLsbD i) : (masked v mu).contains x :=
  contains_masked_iff.mpr agree
lemma contains_value (t : Tnum) : t.contains t.value := by
  rw [contains_iff]
  intro i
  have apart := bit_congr t.disjoint i
  cases unknown : t.mask.getLsbD i <;> simp_all
lemma value_add_mask (t : Tnum) : t.value + t.mask = t.value ||| t.mask :=
  add_eq_or_of_and_eq_zero _ _ t.disjoint
section Members
variable {t : Tnum} {x : U64} (xt : t.contains x)
include xt
lemma value_bitLe : BitLe t.value x := by
  rw [contains_iff] at xt
  intro i set
  have bit := xt i
  rw [set,and_eq_true] at bit
  exact bit.1
lemma bitLe_top : BitLe x (t.value ||| t.mask) := by
  rw [contains_iff] at xt
  intro i set
  have bit := xt i
  cases unknown : t.mask.getLsbD i <;> simp_all
lemma known_bit {i : Nat} (known : t.mask.getLsbD i = false) : x.getLsbD i = t.value.getLsbD i := by
  rw [contains_iff] at xt
  simpa [known] using xt i
end Members

/-! ### Bitwise and arithmetic transfers -/
lemma contains_unknown (x : U64) : UNKNOWN.contains x := by simp [UNKNOWN,contains]
lemma contains_zero : ZERO.contains 0#64 := by decide
lemma contains_constant : (constant v).contains x ↔ x = v := by
  rw [contains,constant,not_zero,and_allOnes,beq_iff_eq]
section Transfers
variable {t u : Tnum} {x y : U64} (xt : t.contains x) (yu : u.contains y)
include xt yu
lemma and_contains : (t.and u).contains (x &&& y) := by
  rw [contains_iff] at *
  intro i
  have left := xt i
  have right := yu i
  by_cases bound : i < 64
  · simp only [and,getLsbD_and,BitVec.getLsbD_or,BitVec.getLsbD_not,bound] at *
    grind
  · simp [getLsbD_of_ge _ i (Nat.le_of_not_lt bound)]
lemma or_contains : (t.or u).contains (x ||| y) := by
  rw [contains_iff] at *
  intro i
  have left := xt i
  have right := yu i
  by_cases bound : i < 64
  · simp only [or,getLsbD_and,BitVec.getLsbD_or,BitVec.getLsbD_not,bound] at *
    grind
  · simp [getLsbD_of_ge _ i (Nat.le_of_not_lt bound)]
lemma xor_contains : (t.xor u).contains (x ^^^ y) := by
  apply contains_masked
  intro i _ known
  simp only [BitVec.getLsbD_or,or_eq_false_iff] at known
  simp [known_bit xt known.1,known_bit yu known.2]
lemma add_contains : (t.add u).contains (x + y) := by
  apply contains_masked
  intro i bound known
  simp only [BitVec.getLsbD_or,getLsbD_xor,or_eq_false_iff] at known
  have top : t.mask + u.mask + (t.value + u.value) = addCarry false (t.value ||| t.mask) (u.value ||| u.mask) := by
    rw [addCarry_false,← value_add_mask t,← value_add_mask u]
    ring
  rw [← addCarry_false,← addCarry_false]
  apply addCarry_bit_between false (value_bitLe xt) (bitLe_top xt) (value_bitLe yu) (bitLe_top yu) bound
  · simp [known.1.2]
  · simp [known.2]
  · rw [← top,addCarry_false]
    simpa using known.1.1
/-- The difference is a sum with the complement, whose least and greatest addends are
    `!(value | mask)` and `!value`; `beta` and `alpha` are the two extreme sums. -/
lemma sub_contains : (t.sub u).contains (x - y) := by
  apply contains_masked
  intro i bound known
  simp only [BitVec.getLsbD_or,getLsbD_xor,or_eq_false_iff] at known
  have low : t.value - u.value - u.mask = addCarry true t.value (~~~(u.value ||| u.mask)) := by
    rw [addCarry_true_not,← value_add_mask u]
    ring
  have high : t.value - u.value + t.mask = addCarry true (t.value ||| t.mask) (~~~u.value) := by
    rw [addCarry_true_not,← value_add_mask t]
    ring
  have between {a b : U64} (at' : t.contains a) (bu : u.contains b) :
      (a - b).getLsbD i = (t.value - u.value - u.mask).getLsbD i := by
    rw [← addCarry_true_not,low]
    apply addCarry_bit_between true (value_bitLe at') (bitLe_top at') (bitLe_top bu).not (value_bitLe bu).not bound
    · simp [known.1.2]
    · rw [BitVec.getLsbD_not,BitVec.getLsbD_not,BitVec.getLsbD_or,known.2,Bool.or_false]
    · rw [← low,← high]
      simpa using known.1.1
  rw [between xt yu,between t.contains_value u.contains_value]
end Transfers

/-! ### Shifts, extensions and the product -/
lemma toNat_low_mask (small : bits < 64) : (low_mask bits).toNat = 2 ^ bits - 1 := by
  have power : 2 ^ bits < 2 ^ 64 := Nat.pow_lt_pow_right (by decide) small
  have positive : 0 < 2 ^ bits := Nat.two_pow_pos bits
  simp only [low_mask,toNat_sub,toNat_shiftLeft,toNat_ofNat,Nat.shiftLeft_eq]
  omega
lemma getLsbD_low_mask (small : bits < 64) (i : Nat) : (low_mask bits).getLsbD i = decide (i < bits) := by
  rw [← testBit_toNat,toNat_low_mask small,Nat.testBit_two_pow_sub_one]
lemma toNat_and_low_mask (small : bits < 64) (x : U64) : (x &&& low_mask bits).toNat = x.toNat % 2 ^ bits := by
  rw [toNat_and,toNat_low_mask small,Nat.and_two_pow_sub_one_eq_mod]
section Shifts
variable {t : Tnum} {x : U64} (xt : t.contains x) (n : Nat)
include xt
lemma shl_contains : (t.shl n).contains (x <<< n) := by
  unfold shl
  split
  next large => rw [shiftLeft_eq_zero large]; exact contains_zero
  next =>
    rw [contains_iff] at *
    intro i
    have bit := xt (i - n)
    simp only [getLsbD_shiftLeft]
    cases decide (i < 64) <;> cases decide (i < n) <;> simp_all
lemma shr_contains : (t.shr n).contains (x >>> n) := by
  unfold shr
  split
  next large => rw [ushiftRight_eq_zero large]; exact contains_zero
  next =>
    rw [contains_iff] at *
    intro i
    simpa using xt (n + i)
private lemma sshiftRight_member : (⟨t.value.sshiftRight n,t.mask.sshiftRight n,
    sshiftRight_disjoint t.disjoint n⟩ : Tnum).contains (x.sshiftRight n) = true := by
  rw [contains_iff] at *
  intro i
  simp only [getLsbD_sshiftRight,BitVec.msb_eq_getLsbD_last]
  split
  next =>
    cases decide (64 ≤ i) with
    | true => simp
    | false => simpa using xt (n + i)
  next =>
    cases decide (64 ≤ i) with
    | true => simp
    | false => simpa using xt 63
lemma sar_contains (small : n < 64) : (t.sar n).contains (x.sshiftRight n) := by
  have kept : t.sar n = ⟨t.value.sshiftRight n,t.mask.sshiftRight n,sshiftRight_disjoint t.disjoint n⟩ := by
    simp [sar,Nat.not_le.mpr small]
  rw [kept]
  exact sshiftRight_member xt n
lemma zero_extend_contains (small : n < 64) : (t.zero_extend n).contains (x &&& low_mask n) := by
  unfold zero_extend
  rw [if_neg (Nat.not_le.mpr small)]
  rw [contains_iff] at *
  intro i
  have bit := xt i
  simp only [getLsbD_and,getLsbD_low_mask small]
  cases decide (i < n) <;> simp_all
lemma sign_extend_contains (small : n < 64) : (t.sign_extend n).contains ((x <<< (64 - n)).sshiftRight (64 - n)) := by
  unfold sign_extend
  rw [if_neg (Nat.not_le.mpr small)]
  have left := shl_contains xt (64 - n)
  by_cases whole : n = 0
  · subst whole
    have gone (v : U64) : v <<< (64 - 0) = 0#64 := shiftLeft_eq_zero (by decide)
    simp only [gone,zero_sshiftRight]
    exact contains_zero
  · unfold shl at left
    rw [if_neg (by omega)] at left
    exact sshiftRight_member left (64 - n)
end Shifts
private lemma mul_halve (x y : U64) : x * y = (x >>> 1) * (y <<< 1) + (if x.getLsbD 0 then y else 0#64) := by
  have split_low : x = (x >>> 1) * 2#64 + (if x.getLsbD 0 then 1#64 else 0#64) := by
    apply eq_of_toNat_eq
    have bound := x.isLt
    cases low : x.getLsbD 0 <;>
      simp only [BitVec.getLsbD,Nat.testBit_zero,decide_eq_true_eq,decide_eq_false_iff_not] at low <;>
      simp [toNat_ushiftRight,Nat.shiftRight_one] <;> omega
  have double : y <<< 1 = y * 2#64 := by
    apply eq_of_toNat_eq
    simp [Nat.shiftLeft_eq]
  calc x * y = ((x >>> 1) * 2#64 + (if x.getLsbD 0 then 1#64 else 0#64)) * y := by rw [← split_low]
    _ = (x >>> 1) * (y <<< 1) + (if x.getLsbD 0 then y else 0#64) := by
      rw [double]
      split
      · rw [BitVec.add_mul,BitVec.one_mul]; ring
      · rw [BitVec.add_mul,BitVec.zero_mul]; ring
lemma unknown_bits_contains {mask : U64} (below : BitLe x mask) : (unknown_bits mask).contains x := by
  rw [contains_iff]
  intro i
  have bit := below i
  cases set : x.getLsbD i <;> simp_all [unknown_bits]
/-- The loop keeps `acc + a * b`: `s` is what `acc` stands for so far. -/
private lemma mul_loop_contains (steps : Nat) {acc a b : Tnum} {s : U64} (sacc : acc.contains s)
    (xa : a.contains x) (yb : b.contains y) (small : x.toNat < 2 ^ steps) : (mul_loop steps acc a b).contains (s + x * y) = true := by
  induction steps generalizing acc a b s x y with
  | zero =>
    have none : x = 0#64 := by
      apply eq_of_toNat_eq
      simpa using small
    simpa [mul_loop,none] using sacc
  | succ steps next =>
    unfold mul_loop
    split
    next done =>
      have none : x = 0#64 := by
        apply eq_of_getLsbD_eq
        intro i _
        have top := bitLe_top xa i
        rw [done] at top
        cases set : x.getLsbD i <;> simp_all
      simpa [none] using sacc
    next =>
      have halved : (x >>> 1).toNat < 2 ^ steps := by
        rw [toNat_ushiftRight,Nat.shiftRight_one]
        omega
      have lowBit (v : U64) : (v &&& 1#64 != 0#64) = v.getLsbD 0 := by
        have bit : (v &&& 1#64).toNat = v.toNat % 2 := by
          rw [toNat_and]
          exact Nat.and_one_is_mod _
        rw [BitVec.getLsbD,Nat.testBit_zero,bne,Bool.eq_iff_iff]
        simp only [not_eq_true',beq_eq_false_iff_ne,ne_eq,decide_eq_true_eq,← toNat_inj,bit]
        simp
      have mem := contains_iff.mp xa 0
      simp only [lowBit]
      rw [mul_halve,add_comm ((x >>> 1) * (y <<< 1)),← add_assoc]
      refine next ?_ (shr_contains xa 1) (shl_contains yb 1) halved
      cases set : a.value.getLsbD 0 with
      | true =>
        have one : x.getLsbD 0 := by simp_all
        simp only [one]
        simpa using add_contains sacc yb
      | false =>
        cases unknown : a.mask.getLsbD 0 with
        | true =>
          -- an unknown multiplier bit adds either nothing or the whole multiplicand
          have either : (unknown_bits (b.value ||| b.mask)).contains (if x.getLsbD 0 then y else 0#64) := by
            apply unknown_bits_contains
            split
            · exact bitLe_top yb
            · intro i; simp
          simpa using add_contains sacc either
        | false =>
          have zero : x.getLsbD 0 = false := by simp_all
          simp only [zero]
          simpa using sacc
lemma mul_contains (xt : t.contains x) (yu : u.contains y) : (t.mul u).contains (x * y) := by
  have product := mul_loop_contains 64 contains_zero xt yu x.isLt
  rwa [BitVec.zero_add] at product

/-! ### Lattice operations and bounds -/
lemma join_contains_left (xt : t.contains x) (u : Tnum) : (t.join u).contains x := by
  apply contains_masked
  intro i _ known
  simp only [BitVec.getLsbD_or,or_eq_false_iff] at known
  exact known_bit xt known.1.1
lemma join_contains_right (t : Tnum) (xu : u.contains x) : (t.join u).contains x := by
  apply contains_masked
  intro i _ known
  simp only [BitVec.getLsbD_or,getLsbD_xor,or_eq_false_iff] at known
  rw [known_bit xu known.1.2]
  grind
lemma meet_contains (xt : t.contains x) (xu : u.contains x) : ∃ m, t.meet u = some m ∧ m.contains x := by
  have agree : (t.value ^^^ u.value) &&& ~~~(t.mask ||| u.mask) = 0#64 := by
    apply eq_of_getLsbD_eq
    intro i bound
    have left := contains_iff.mp xt i
    have right := contains_iff.mp xu i
    simp only [getLsbD_and,getLsbD_xor,BitVec.getLsbD_not,BitVec.getLsbD_or,bound,getLsbD_zero]
    grind
  refine ⟨_,by simp [meet,agree]; rfl,?_⟩
  apply contains_masked
  intro i _ known
  have left := contains_iff.mp xt i
  have right := contains_iff.mp xu i
  rw [getLsbD_and] at known
  rw [BitVec.getLsbD_or]
  grind
/-- Every member of `t` is one of `u`. -/
def Within (t u : Tnum) : Prop := ∀ x, t.contains x = true → u.contains x = true
lemma contains_meet_iff {m : Tnum} (met : t.meet u = some m) : m.contains x ↔ t.contains x ∧ u.contains x := by
  refine ⟨fun xm => ?_,fun ⟨xt,xu⟩ => ?_⟩
  · unfold meet at met
    split at met
    · simp at met
    next agree =>
      have agree : (t.value ^^^ u.value) &&& ~~~(t.mask ||| u.mask) = 0#64 := by simpa using agree
      cases met
      simp only [contains_iff,← forall_and]
      intro i
      have bit := bit_congr agree i
      have apart := bit_congr u.disjoint i
      have apart' := bit_congr t.disjoint i
      have mem := contains_iff.mp xm i
      by_cases bound : i < 64
      · simp only [masked,getLsbD_and,getLsbD_xor,BitVec.getLsbD_not,BitVec.getLsbD_or,bound,
          getLsbD_zero] at bit apart apart' mem
        grind
      · simp [getLsbD_of_ge _ i (Nat.le_of_not_lt bound)]
  · obtain ⟨m',met',mem⟩ := meet_contains xt xu
    rw [met] at met'
    cases met'
    exact mem
lemma contains_top (t : Tnum) : t.contains (t.value ||| t.mask) := by
  rw [contains_iff]
  intro i
  have apart := bit_congr t.disjoint i
  simp only [getLsbD_and,BitVec.getLsbD_or,getLsbD_zero] at apart ⊢
  grind
lemma within_of_known (known : ∀ i < 64, u.mask.getLsbD i = false →
    t.mask.getLsbD i = false ∧ t.value.getLsbD i = u.value.getLsbD i) : t.Within u := by
  intro x mem
  rw [contains_iff] at mem ⊢
  intro i
  by_cases bound : i < 64
  · have apart := bit_congr u.disjoint i
    rw [getLsbD_and,getLsbD_zero] at apart
    grind
  · simp [getLsbD_of_ge _ i (Nat.le_of_not_lt bound)]
lemma within_of_is_subset_of (subset : t.is_subset_of u) : t.Within u := by
  simp only [is_subset_of,and_eq_true,beq_iff_eq] at subset
  refine within_of_known fun i bound _ => ?_
  have masks := bit_congr subset.1 i
  have values := bit_congr subset.2 i
  simp only [getLsbD_and,getLsbD_xor,BitVec.getLsbD_not,bound,getLsbD_zero] at masks values
  grind
lemma toNat_le_of_bitLe (below : BitLe x y) : x.toNat ≤ y.toNat := by
  have kept : x &&& y = x := by
    apply eq_of_getLsbD_eq
    intro i _
    have bit := below i
    cases set : x.getLsbD i <;> simp_all
  rw [← kept,toNat_and]
  exact Nat.and_le_right
lemma unsigned_bounds_contains (xt : t.contains x) : t.unsigned_bounds.1.toNat ≤ x.toNat ∧ x.toNat ≤ t.unsigned_bounds.2.toNat :=
  ⟨toNat_le_of_bitLe (value_bitLe xt),toNat_le_of_bitLe (bitLe_top xt)⟩
lemma getLsbD_SIGN (i : Nat) : SIGN.getLsbD i = decide (i = 63) := by
  by_cases bound : i < 64
  · simp only [SIGN,getLsbD_shiftLeft,bound]
    by_cases last : i = 63
    · subst last; decide
    · have inside : i < 63 := by omega
      simp [inside,last]
  · rw [getLsbD_of_ge _ _ (Nat.le_of_not_lt bound)]
    have beyond : i ≠ 63 := by omega
    simp [beyond]
lemma and_SIGN_eq_zero (v : U64) : (v &&& SIGN == 0#64) = !v.msb := by
  rw [Bool.eq_iff_iff,beq_iff_eq,BitVec.msb_eq_getLsbD_last]
  constructor
  · intro clear
    have bit := bit_congr clear 63
    simp only [getLsbD_and,getLsbD_SIGN] at bit
    simpa using bit
  · intro clear
    apply eq_of_getLsbD_eq
    intro i bound
    rw [getLsbD_and,getLsbD_SIGN]
    by_cases last : i = 63
    · subst last; simpa using clear
    · simp [last]
lemma toInt_le_of_bitLe (same : x.msb = y.msb) (below : BitLe x y) : x.toInt ≤ y.toInt := by
  have bound := toNat_le_of_bitLe below
  rw [toInt_eq_msb_cond,toInt_eq_msb_cond,same]
  split <;> omega
lemma toInt_le_of_msb (negative : x.msb) (positive : y.msb = false) : x.toInt ≤ y.toInt := by
  have low := x.isLt
  rw [toInt_eq_msb_cond,toInt_eq_msb_cond,negative,positive]
  simp
  omega
lemma msb_of_value (xt : t.contains x) : (t.value.msb → x.msb) ∧ (x.msb → (t.value ||| t.mask).msb) := by
  simp only [BitVec.msb_eq_getLsbD_last]
  exact ⟨value_bitLe xt 63,bitLe_top xt 63⟩
lemma signed_bounds_contains (xt : t.contains x) : t.signed_bounds.1.toInt ≤ x.toInt ∧ x.toInt ≤ t.signed_bounds.2.toInt := by
  have low := value_bitLe xt
  have high := bitLe_top xt
  have sign := msb_of_value xt
  simp only [signed_bounds,bne,and_SIGN_eq_zero,Bool.not_not]
  constructor
  · split
    next forced =>
      cases negative : x.msb with
      | false =>
        apply toInt_le_of_msb _ negative
        rw [msb_or]
        simp [BitVec.msb_eq_getLsbD_last,getLsbD_SIGN]
      | true =>
        apply toInt_le_of_bitLe
        · rw [msb_or,negative]
          simp [BitVec.msb_eq_getLsbD_last,getLsbD_SIGN]
        · intro i set
          rw [BitVec.getLsbD_or,getLsbD_SIGN,or_eq_true,decide_eq_true_eq] at set
          rcases set with set | rfl
          · exact low i set
          · rwa [BitVec.msb_eq_getLsbD_last] at negative
    next clear =>
      apply toInt_le_of_bitLe _ low
      rw [msb_or] at clear sign
      cases value : t.value.msb <;> cases negative : x.msb <;> simp_all
  · split
    next positive =>
      cases negative : x.msb with
      | true =>
        apply toInt_le_of_msb negative
        rw [msb_and,msb_not]
        simp [BitVec.msb_eq_getLsbD_last,getLsbD_SIGN]
      | false =>
        apply toInt_le_of_bitLe
        · rw [negative,msb_and,msb_not]
          simp [BitVec.msb_eq_getLsbD_last,getLsbD_SIGN]
        · intro i set
          rw [getLsbD_and,high i set,BitVec.getLsbD_not,getLsbD_SIGN]
          by_cases last : i = 63
          · subst last
            rw [BitVec.msb_eq_getLsbD_last] at negative
            simp_all
          · by_cases bound : i < 64
            · simp [last,bound]
            · simp [getLsbD_of_ge _ i (Nat.le_of_not_lt bound)] at set
    next forced =>
      apply toInt_le_of_bitLe _ high
      rw [msb_or]
      cases value : t.value.msb <;> simp_all
/-- The known bits of a range are those above which its ends agree. -/
lemma from_unsigned_range_contains_iff {lo hi : U64} (order : lo.toNat ≤ hi.toNat) : (from_unsigned_range lo hi).contains x ↔
      ∀ i < 64, lo.toNat / 2 ^ i = hi.toNat / 2 ^ i → x.getLsbD i = hi.getLsbD i := by
  have agree (i : Nat) : lo.toNat / 2 ^ i = hi.toNat / 2 ^ i ↔ (lo ^^^ hi).toNat < 2 ^ i := by
    rw [← Nat.shiftRight_eq_div_pow,← Nat.shiftRight_eq_div_pow,← Nat.xor_eq_zero_iff,← Nat.shiftRight_xor_distrib,
      ← toNat_xor,Nat.shiftRight_eq_div_pow]
    exact ⟨Nat.lt_of_div_eq_zero (by positivity),Nat.div_eq_of_lt⟩
  unfold from_unsigned_range
  rw [if_neg (by omega)]
  dsimp only
  split
  next same =>
    have equal : lo = hi := by simpa using same
    subst equal
    rw [contains_constant]
    exact ⟨fun same _ _ _ => same ▸ rfl,fun bits => eq_of_getLsbD_eq (fun i bound => bits i bound rfl)⟩
  next differ =>
    have some_ : (lo ^^^ hi).toNat ≠ 0 := fun none => differ (eq_of_toNat_eq none)
    split
    next wide =>
      refine iff_of_true (contains_unknown x) fun i bound same => ?_
      have := (Nat.log2_lt some_).mpr ((agree i).mp same)
      omega
    next small =>
      rw [contains_masked_iff]
      refine forall₂_congr fun i bound => imp_congr_left ?_
      rw [getLsbD_low_mask (by omega),agree,← Nat.log2_lt some_,decide_eq_false_iff_not,Nat.not_lt]
      omega
lemma getLsbD_congr {i : Nat} (same : x.toNat / 2 ^ i = y.toNat / 2 ^ i) : x.getLsbD i = y.getLsbD i := by
  rw [BitVec.getLsbD,BitVec.getLsbD,Nat.testBit_eq_decide_div_mod_eq,Nat.testBit_eq_decide_div_mod_eq,same]
/-- A part of a range has no members but the range's. -/
lemma from_unsigned_range_mono {lo hi lo' hi' : U64} (above : lo'.toNat ≤ lo.toNat) (order : lo.toNat ≤ hi.toNat)
    (below : hi.toNat ≤ hi'.toNat) : (from_unsigned_range lo hi).Within (from_unsigned_range lo' hi') := by
  intro x mem
  rw [from_unsigned_range_contains_iff (by omega)]
  intro i bound same
  have first := Nat.div_le_div_right (c := 2 ^ i) above
  have between := Nat.div_le_div_right (c := 2 ^ i) order
  have last := Nat.div_le_div_right (c := 2 ^ i) below
  rw [(from_unsigned_range_contains_iff order).mp mem i bound (by omega)]
  exact getLsbD_congr (by omega)
lemma from_unsigned_range_contains {lo hi : U64} (above : lo.toNat ≤ x.toNat) (below : x.toNat ≤ hi.toNat) :
    (from_unsigned_range lo hi).contains x :=
  from_unsigned_range_mono above le_rfl below x ((from_unsigned_range_contains_iff le_rfl).mpr fun _ _ _ => rfl)
end Tnum
end Narf.Bpf
