import Narf.Bpf.ScalarSound

/-! The lattice operations of the scalar domain and the refinements a branch outcome
allows: upper bounds keep the members of both sides, and a refinement is never empty
when some member satisfies the condition. -/

namespace Narf.Bpf.Scalar
open Option BitVec


/-! ### Lattice operations -/
variable {s u : Scalar} {v : U64}
lemma join_contains_left (mem : s.contains v) (u : Scalar) : (s.join u).contains v := by
  rw [contains_iff] at mem
  apply normalized_mk_contains (Tnum.join_contains_left mem.1 u.tnum)
  · rw [imin_toInt]; omega
  · rw [imax_toInt]; omega
lemma join_contains_right (s : Scalar) (mem : u.contains v) : (s.join u).contains v := by
  rw [contains_iff] at mem
  apply normalized_mk_contains (Tnum.join_contains_right s.tnum mem.1)
  · rw [imin_toInt]; omega
  · rw [imax_toInt]; omega
lemma meet_contains (left : s.contains v) (right : u.contains v) : ∃ m, s.meet u = some m ∧ m.contains v := by
  rw [contains_iff] at left right
  obtain ⟨t,met,known⟩ := Tnum.meet_contains left.1 right.1
  simp only [meet,met]
  apply normalize_contains
  exact contains_iff.mpr ⟨known,by rw [imax_toInt]; omega,by rw [imin_toInt]; omega⟩
lemma contains_of_is_subset_of (subset : s.is_subset_of u) (mem : s.contains v) : u.contains v := by
  simp only [is_subset_of,Bool.and_eq_true,decide_eq_true_eq] at subset
  rw [contains_iff] at mem ⊢
  exact ⟨Tnum.within_of_is_subset_of subset.2 v mem.1,by omega,by omega⟩
/-- A widened end lies beyond the new one, and it is the old end or a threshold or the last value beyond that. -/
private lemma widened_end (f : I64 → Int) {last new : I64} (least : f last ≤ f new) (old : I64) (thresholds : List I64) :
    ∃ w, (if f new < f old then (thresholds.find? (fun t => decide (f t ≤ f new))).getD last else old) = w ∧
      f w ≤ f new ∧ (w = old ∨ f w < f old ∧ w ∈ last :: thresholds) := by
  refine ⟨_,rfl,?_⟩
  split
  next beyond =>
    cases found : thresholds.find? (fun t => decide (f t ≤ f new)) with
    | none => exact ⟨least,.inr ⟨lt_of_le_of_lt least beyond,List.mem_cons_self⟩⟩
    | some t =>
      have reached : f t ≤ f new := by simpa using List.find?_some found
      exact ⟨reached,.inr ⟨lt_of_le_of_lt reached beyond,List.mem_cons_of_mem _ (List.mem_of_find?_eq_some found)⟩⟩
  next within => exact ⟨not_lt.mp within,.inl rfl⟩
lemma widened_min (s next : Scalar) (thresholds : List I64) : ∃ min, (if next.min.toInt < s.min.toInt then
      (thresholds.reverse.find? (fun t => decide (t.toInt ≤ next.min.toInt))).getD I64_MIN else s.min) = min ∧
      min.toInt ≤ next.min.toInt ∧ (min = s.min ∨ min.toInt < s.min.toInt ∧ min ∈ I64_MIN :: thresholds) := by
  simpa using widened_end BitVec.toInt (toInt_range next.min).1 s.min thresholds.reverse
lemma widened_max (s next : Scalar) (thresholds : List I64) : ∃ max, (if s.max.toInt < next.max.toInt then
      (thresholds.find? (fun t => decide (next.max.toInt ≤ t.toInt))).getD I64_MAX else s.max) = max ∧
      next.max.toInt ≤ max.toInt ∧ (max = s.max ∨ s.max.toInt < max.toInt ∧ max ∈ I64_MAX :: thresholds) := by
  simpa using widened_end (fun v => -v.toInt) (neg_le_neg (toInt_range next.max).2) s.max thresholds
lemma widen_contains {next : Scalar} (thresholds : List I64)
    (mem : s.contains v ∨ next.contains v) : (s.widen next thresholds).contains v := by
  obtain ⟨min,isMin,low,down⟩ := widened_min s next thresholds
  obtain ⟨max,isMax,high,up⟩ := widened_max s next thresholds
  have lower : min.toInt ≤ s.min.toInt := by rcases down with rfl | down <;> omega
  have upper : s.max.toInt ≤ max.toInt := by rcases up with rfl | up <;> omega
  have joined : (s.tnum.join next.tnum).contains v := by
    rcases mem with mem | mem
    · exact Tnum.join_contains_left (contains_iff.mp mem).1 _
    · exact Tnum.join_contains_right _ (contains_iff.mp mem).1
  have bounds : min.toInt ≤ v.toInt ∧ v.toInt ≤ max.toInt := by
    rcases mem with mem | mem
    · have inside := contains_iff.mp mem
      omega
    · have inside := contains_iff.mp mem
      omega
  simp only [widen,isMin,isMax]
  refine normalized_mk_contains ?_ bounds.1 bounds.2
  split
  · exact Tnum.join_contains_left joined _
  · exact joined

/-! ### Refinements -/
def Keeps (out : Option Scalar) (v : U64) : Prop := ∃ r, out = some r ∧ r.contains v = true

section Refine
variable {s : Scalar} {v : U64} (member : s.contains v)
include member
lemma keeps_self : Keeps (some s) v := ⟨s,rfl,member⟩

variable {c : I64} {u : Scalar} {w : U64}
lemma refine_signed_min_keeps (above : c.toInt ≤ v.toInt) : Keeps (s.refine_signed_min c) v := by
  rw [contains_iff] at member
  exact normalize_contains (contains_iff.mpr ⟨member.1,by dsimp only; rw [imax_toInt]; omega,member.2.2⟩)
lemma refine_signed_max_keeps (below : v.toInt ≤ c.toInt) : Keeps (s.refine_signed_max c) v := by
  rw [contains_iff] at member
  exact normalize_contains (contains_iff.mpr ⟨member.1,member.2.1,by dsimp only; rw [imin_toInt]; omega⟩)
lemma refine_unsigned_max_keeps {c : U64} (below : v.toNat ≤ c.toNat) : Keeps (s.refine_unsigned_max c) v := by
  have bounds := contains_iff.mp member
  have sign : SIGN.toNat = 2 ^ 63 := by decide
  have read := toInt_cases v
  have readC := toInt_cases c
  unfold refine_unsigned_max
  split
  next small =>
    obtain ⟨t,met,known⟩ := Tnum.meet_contains bounds.1
      (Tnum.from_unsigned_range_contains (show (0#64).toNat ≤ v.toNat by simp) below)
    simp only [met]
    apply normalize_contains
    refine contains_iff.mpr ⟨known,?_,?_⟩
    · dsimp only
      rw [imax_toInt,toInt_zero]
      omega
    · dsimp only
      rw [imin_toInt]
      omega
  next =>
    split
    · apply normalize_contains
      refine contains_iff.mpr ⟨bounds.1,bounds.2.1,?_⟩
      dsimp only
      rw [imin_toInt]
      omega
    · exact normalize_contains member
lemma refine_unsigned_min_keeps {c : U64} (above : c.toNat ≤ v.toNat) : Keeps (s.refine_unsigned_min c) v := by
  have bounds := contains_iff.mp member
  have sign : SIGN.toNat = 2 ^ 63 := by decide
  have minusOne : (-1#64 : I64).toInt = -1 := by decide
  have read := toInt_cases v
  have readC := toInt_cases c
  unfold refine_unsigned_min
  split
  · exact keeps_self member
  · split
    · apply normalize_contains
      refine contains_iff.mpr ⟨bounds.1,?_,?_⟩
      · dsimp only
        rw [imax_toInt]
        omega
      · dsimp only
        rw [imin_toInt,minusOne]
        omega
    · split
      · apply normalize_contains
        refine contains_iff.mpr ⟨bounds.1,?_,bounds.2.2⟩
        dsimp only
        rw [imax_toInt]
        omega
      · exact normalize_contains member
lemma refine_eq_keeps (other : u.contains v) : Keeps (s.refine_eq u) v :=
  meet_contains member other
lemma refine_ne_keeps (other : u.contains w) (differ : v ≠ w) : Keeps (s.refine_ne u) v := by
  unfold refine_ne
  cases single : u.as_const with
  | none => exact keeps_self member
  | some c =>
    obtain rfl := eq_of_as_const single other
    have bounds := contains_iff.mp member
    have apart : v.toInt ≠ w.toInt := fun same => differ (eq_of_toInt_eq same)
    have reading := toInt_range v
    have lifted (notTop : w ≠ I64_MAX) : (w + 1#64).toInt = w.toInt + 1 := by
      have top : w.toInt ≠ I64_MAX.toInt := fun same => notTop (eq_of_toInt_eq same)
      have range := toInt_range w
      rw [← ofInt_toInt (x := w),show 1#64 = BitVec.ofInt 64 1 by rfl,← ofInt_add,
        toInt_ofInt_of_fits (by omega) (by omega),ofInt_toInt]
    have lowered (notBottom : w ≠ I64_MIN) : (w - 1#64).toInt = w.toInt - 1 := by
      have bottom : w.toInt ≠ I64_MIN.toInt := fun same => notBottom (eq_of_toInt_eq same)
      have range := toInt_range w
      rw [← ofInt_toInt (x := w),sub_eq_add_neg,show -1#64 = BitVec.ofInt 64 (-1) by rfl,
        ← ofInt_add,toInt_ofInt_of_fits (by omega) (by omega),ofInt_toInt]
      omega
    dsimp only
    rw [if_neg (by rintro ⟨ends,rfl⟩; rw [← ends] at bounds; omega),
      if_neg (by rintro ⟨atEnd,rfl⟩; rw [atEnd] at bounds; omega)]
    -- the lower end moves past `w` when it sits on it, and then the upper end does
    have raised : (if s.min = w then { s with min := w + 1#64 } else s).contains v := by
      split
      next atEnd =>
        rw [contains_iff]
        refine ⟨bounds.1,?_,bounds.2.2⟩
        have notTop : w ≠ I64_MAX := by
          rintro rfl
          rw [atEnd] at bounds
          omega
        dsimp only
        rw [lifted notTop]
        rw [atEnd] at bounds
        omega
      next => exact member
    generalize (if s.min = w then { s with min := w + 1#64 } else s) = out at raised ⊢
    rw [contains_iff] at raised
    rw [if_neg (by rintro ⟨same,rfl⟩; rw [same] at raised; omega)]
    apply normalize_contains
    split
    next atEnd =>
      have notBottom : w ≠ I64_MIN := by
        rintro rfl
        rw [atEnd] at raised
        omega
      refine contains_iff.mpr ⟨raised.1,raised.2.1,?_⟩
      dsimp only
      rw [lowered notBottom]
      rw [atEnd] at raised
      omega
    next => exact contains_iff.mpr raised
lemma refine_bits_clear_keeps (other : u.contains w) (clear : v &&& w = 0#64) : Keeps (s.refine_bits_clear u) v := by
  unfold refine_bits_clear
  cases single : u.as_const with
  | none => exact keeps_self member
  | some c =>
    obtain rfl := eq_of_as_const single other
    have bounds := contains_iff.mp member
    have free : (Tnum.unknown_bits (~~~w)).contains v := by
      apply Tnum.unknown_bits_contains
      intro i set
      have bit := bit_congr clear i
      have bound : i < 64 := lt_of_getLsbD set
      simp only [getLsbD_and,set,Bool.true_and,getLsbD_zero] at bit
      rw [getLsbD_not,bit]
      simp [bound]
    obtain ⟨t,met,known⟩ := Tnum.meet_contains bounds.1 free
    simp only [met]
    exact normalize_contains (contains_iff.mpr ⟨known,bounds.2⟩)
lemma refine_bits_set_keeps (other : u.contains w) (meets : v &&& w ≠ 0#64) : Keeps (s.refine_bits_set u) v := by
  unfold refine_bits_set
  cases single : u.as_const with
  | none => exact keeps_self member
  | some c =>
    obtain rfl := eq_of_as_const single other
    have top := Tnum.bitLe_top (contains_iff.mp member).1
    dsimp only
    rw [if_neg]
    · exact keeps_self member
    · intro none
      apply meets
      apply eq_of_getLsbD_eq
      intro i _
      have bit := bit_congr none i
      have above := top i
      simp only [getLsbD_and,getLsbD_zero] at bit ⊢
      cases set : v.getLsbD i with
      | false => rfl
      | true => simpa [above set] using bit
end Refine

/-! ### The divisions of `udiv` -/
/-- The divisors of the divisions that `udiv` performs. -/
def udiv_divisors (u : Scalar) : List U64 :=
  let b := u.unsigned_bounds
  (if b.2 = 0#64 then [] else if b.1 = 0#64 then [] else [b.1]) ++ (if b.1 = 0#64 then [] else [b.2])
inductive Binary where
  | add | sub | mul | and | or | xor | shl | shr | sar | udiv | umod
def Binary.apply (s u : Scalar) : Binary → Scalar
  | add => s.add u
  | sub => s.sub u
  | mul => s.mul u
  | and => s.and u
  | or => s.or u
  | xor => s.xor u
  | shl => s.shl u
  | shr => s.shr u
  | sar => s.sar u
  | udiv => s.udiv u
  | umod => s.umod u

inductive Unary where
  | neg | zext32 | sext32 | sign_extend (bits : Nat)
def Unary.apply (s : Scalar) : Unary → Scalar
  | neg => s.neg
  | zext32 => s.zext32
  | sext32 => s.sext32
  | sign_extend bits => s.sign_extend bits
inductive Refinement where
  | signed_min (c : I64) | signed_max (c : I64) | unsigned_max (c : U64) | unsigned_min (c : U64)
  | eq | ne | bits_clear | bits_set
def Refinement.apply (s u : Scalar) : Refinement → Option Scalar
  | signed_min c => s.refine_signed_min c
  | signed_max c => s.refine_signed_max c
  | unsigned_max c => s.refine_unsigned_max c
  | unsigned_min c => s.refine_unsigned_min c
  | eq => s.refine_eq u
  | ne => s.refine_ne u
  | bits_clear => s.refine_bits_clear u
  | bits_set => s.refine_bits_set u
/-- The scalars obtained by transfer functions and successful refinements whose results `ok` admits. -/
inductive Derived (ok : Scalar → Prop) : Scalar → Prop
  | constant (c : I64) : Derived ok (constant c)
  | unknown : Derived ok UNKNOWN
  | binary {s u : Scalar} (op : Binary) (left : Derived ok s) (right : Derived ok u) : Derived ok (op.apply s u)
  | unary {s : Scalar} (op : Unary) (arg : Derived ok s) : Derived ok (op.apply s)
  | refined {s u r : Scalar} (op : Refinement) (left : Derived ok s) (right : Derived ok u)
      (done : op.apply s u = some r) (admits : ok r) : Derived ok r

def Inhabited (s : Scalar) : Prop := ∃ v, s.contains v = true
/-- With no bits the code's shift by `bits - 1` is out of range; the model's is not, and keeps zero. -/
lemma sign_extend_zero_contains (s : Scalar) : (s.sign_extend 0).contains 0#64 := by
  unfold sign_extend
  rw [if_neg (by decide)]
  apply normalized_mk_contains
  · simp [Tnum.zero_extend,Tnum.sign_extend,Tnum.contains,low_mask]
  · decide
  · decide
lemma Derived.inhabited {s : Scalar} (derived : Derived Inhabited s) : s.Inhabited := by
  induction derived with
  | constant c => exact ⟨c,contains_constant.mpr rfl⟩
  | unknown => exact ⟨0#64,contains_unknown _⟩
  | binary op _ _ left right =>
    obtain ⟨a,aA⟩ := left
    obtain ⟨b,bB⟩ := right
    cases op with
    | add => exact ⟨_,add_contains aA bB⟩
    | sub => exact ⟨_,sub_contains aA bB⟩
    | mul => exact ⟨_,mul_contains aA bB⟩
    | and => exact ⟨_,and_contains aA bB⟩
    | or => exact ⟨_,or_contains aA bB⟩
    | xor => exact ⟨_,xor_contains aA bB⟩
    | shl => exact ⟨_,shl_contains aA bB⟩
    | shr => exact ⟨_,shr_contains aA bB⟩
    | sar => exact ⟨_,sar_contains aA bB⟩
    | udiv => exact ⟨_,udiv_contains aA bB⟩
    | umod => exact ⟨_,umod_contains aA bB⟩
  | unary op _ arg =>
    obtain ⟨a,aA⟩ := arg
    cases op with
    | neg => exact ⟨_,neg_contains aA⟩
    | zext32 => exact ⟨_,zext32_contains aA⟩
    | sext32 => exact ⟨_,sext32_contains aA⟩
    | sign_extend bits =>
      by_cases large : 64 ≤ bits
      · exact ⟨a,by rw [Unary.apply,Scalar.sign_extend,if_pos large]; exact aA⟩
      · by_cases none : bits = 0
        · exact ⟨_,none ▸ sign_extend_zero_contains _⟩
        · exact ⟨_,sign_extend_contains aA (by omega) (by omega)⟩
  | refined op _ _ _ admits => exact admits
lemma zero_mem_udiv_divisors (u : Scalar) : 0#64 ∈ u.udiv_divisors ↔ u.unsigned_bounds.1 ≠ 0#64 ∧ u.unsigned_bounds.2 = 0#64 := by
  unfold udiv_divisors
  by_cases low : u.unsigned_bounds.1 = 0#64
  · simp [low]
  · by_cases high : u.unsigned_bounds.2 = 0#64
    · simp [low,high]
    · simp [low,high,Ne.symm low,Ne.symm high]
/-- Scalars whose refinements leave a word divide by no zero; in general a zero divisor is an upper bound of
    zero over a lower bound that is not. -/
theorem udiv_divides_by_no_zero (u : Scalar) : (Derived Inhabited u → 0#64 ∉ u.udiv_divisors) ∧
    (0#64 ∈ u.udiv_divisors ↔ u.unsigned_bounds.1 ≠ 0#64 ∧ u.unsigned_bounds.2 = 0#64) := by
  refine ⟨fun derived zero => ?_,zero_mem_udiv_divisors u⟩
  obtain ⟨low,high⟩ := (zero_mem_udiv_divisors u).mp zero
  obtain ⟨v,member⟩ := derived.inhabited
  have bounds := unsigned_bounds_contains member
  rw [high] at bounds
  apply low
  apply eq_of_toNat_eq
  simp at bounds ⊢
  omega

theorem udiv_divides_by_no_zero_positive : ∃ u, UNKNOWN.refine_signed_min 1#64 = some u ∧ 0#64 ∉ u.udiv_divisors := by
  have reached : UNKNOWN.refine_signed_min 1#64 = some ⟨⟨0#64,I64_MAX,by decide⟩,1#64,I64_MAX⟩ := by decide +kernel
  have inside : Inhabited ⟨⟨0#64,I64_MAX,by decide⟩,1#64,I64_MAX⟩ := ⟨1#64,by decide +kernel⟩
  exact ⟨_,reached,(udiv_divides_by_no_zero _).1 (.refined (.signed_min 1#64) .unknown .unknown reached inside)⟩
/-- The words 4 and `i64::MIN + 4`. -/
def four : Scalar := (UNKNOWN.and (constant I64_MIN)).or (constant 4#64)
/-- They are cut down to `[-1, 1]`, which has neither of them and straddles zero. -/
theorem udiv_by_zero : ∃ u, Derived (fun _ => True) u ∧ 0#64 ∈ u.udiv_divisors := by
  have four_ : Derived (fun _ => True) four := .binary .or (.binary .and .unknown (.constant I64_MIN)) (.constant 4#64)
  have above : four.refine_signed_min (-1#64) = some ⟨four.tnum,-1#64,4#64⟩ := by decide +kernel
  have below : refine_signed_max ⟨four.tnum,-1#64,4#64⟩ 1#64 = some ⟨four.tnum,-1#64,1#64⟩ := by decide +kernel
  have cut : Derived (fun _ => True) ⟨four.tnum,-1#64,1#64⟩ :=
    .refined (.signed_max 1#64) (.refined (.signed_min (-1#64)) four_ .unknown above trivial) .unknown below trivial
  exact ⟨_,.binary .sar (.binary .add cut (.constant 1#64)) (.constant 2#64),by decide +kernel⟩
end Narf.Bpf.Scalar
