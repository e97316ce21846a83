import Narf.Bpf.Tnum

/-! The scalar domain: a tnum reduced against a signed interval by one `normalize`.
Definitions follow the source function by function; 128-bit intermediate results are
integers. What each of them keeps is proved in `Narf.Bpf.ScalarSound`. -/

namespace Narf.Bpf
def I64_MIN : I64 := BitVec.intMin 64
def I64_MAX : I64 := BitVec.intMax 64
def U64_MAX : U64 := BitVec.allOnes 64
/-- `max` and `min` on `i64`, then on `u64`. -/
def imax (a b : I64) : I64 := if a.toInt ≤ b.toInt then b else a
def imin (a b : I64) : I64 := if a.toInt ≤ b.toInt then a else b
def umax (a b : U64) : U64 := if a.toNat ≤ b.toNat then b else a
def umin (a b : U64) : U64 := if a.toNat ≤ b.toNat then a else b

/-! ### Concrete arithmetic with the instruction set's corner cases -/
def concrete_sdiv (a b : I64) : I64 :=
  if b = 0#64 then 0#64
  else if a = I64_MIN ∧ b = -1#64 then I64_MIN
  else a.sdiv b
def concrete_smod (a b : I64) : I64 :=
  if b = 0#64 then a
  else if a = I64_MIN ∧ b = -1#64 then 0#64
  else a.srem b
def concrete_sdiv32 (a b : BitVec 32) : BitVec 32 :=
  if b = 0#32 then 0#32
  else if a = BitVec.intMin 32 ∧ b = -1#32 then BitVec.intMin 32
  else a.sdiv b
def concrete_smod32 (a b : BitVec 32) : BitVec 32 :=
  if b = 0#32 then a
  else if a = BitVec.intMin 32 ∧ b = -1#32 then 0#32
  else a.srem b
def concrete_udiv (a b : U64) : U64 := if b = 0#64 then 0#64 else a / b
def concrete_umod (a b : U64) : U64 := if b = 0#64 then a else a % b
def swap_bytes (n : Nat) (v : U64) : U64 :=
  (List.range n).foldl (fun acc i => (acc <<< 8) ||| ((v >>> (8 * i)) &&& 0xff#64)) 0#64
def concrete_bswap (v : U64) (width : Nat) : U64 :=
  match width with
  | 16 => swap_bytes 2 v
  | 32 => swap_bytes 4 v
  | _ => swap_bytes 8 v

/-! ### The domain -/
structure Scalar where
  tnum : Tnum
  min : I64
  max : I64
  deriving DecidableEq
/-- A 128-bit interval as an `i64` one, or everything when it does not fit. -/
def interval_clamp (lo hi : Int) : I64 × I64 :=
  if I64_MIN.toInt ≤ lo ∧ hi ≤ I64_MAX.toInt then (BitVec.ofInt 64 lo,BitVec.ofInt 64 hi)
  else (I64_MIN,I64_MAX)
def interval_add (alo ahi blo bhi : I64) : I64 × I64 :=
  interval_clamp (alo.toInt + blo.toInt) (ahi.toInt + bhi.toInt)
def interval_neg (lo hi : I64) : I64 × I64 := interval_clamp (-hi.toInt) (-lo.toInt)
def interval_mul (alo ahi blo bhi : I64) : I64 × I64 :=
  let c₁ := alo.toInt * blo.toInt
  let c₂ := alo.toInt * bhi.toInt
  let c₃ := ahi.toInt * blo.toInt
  let c₄ := ahi.toInt * bhi.toInt
  interval_clamp (Min.min (Min.min c₁ c₂) (Min.min c₃ c₄)) (Max.max (Max.max c₁ c₂) (Max.max c₃ c₄))

namespace Scalar
def UNKNOWN : Scalar := ⟨Tnum.UNKNOWN,I64_MIN,I64_MAX⟩
def constant (v : I64) : Scalar := ⟨Tnum.constant v,v,v⟩
def unsigned_bits (bits : Nat) : Scalar :=
  if 64 ≤ bits then UNKNOWN
  else ⟨Tnum.unknown_bits (low_mask bits),0#64,low_mask bits⟩
def contains (s : Scalar) (v : U64) : Bool :=
  s.tnum.contains v && decide (s.min.toInt ≤ v.toInt) && decide (v.toInt ≤ s.max.toInt)

variable (s : Scalar)
def as_const : Option I64 :=
  if s.tnum.is_const then some s.tnum.value
  else if s.min = s.max then some s.min
  else none
/-- Unsigned bounds, derived: a signed range is an unsigned one unless it straddles zero. -/
def unsigned_bounds (s : Scalar) : U64 × U64 :=
  let straddles_zero := s.min.toInt < 0 ∧ 0 ≤ s.max.toInt
  let interval := if straddles_zero then (0#64,U64_MAX) else (s.min,s.max)
  let known := s.tnum.unsigned_bounds
  (umax interval.1 known.1,umin interval.2 known.2)
/-- One round: the interval takes the tnum's bounds, then the tnum the interval's prefix. -/
def normalize_round : Option Scalar :=
  if s.max.toInt < s.min.toInt then none
  else
    let bounds := s.tnum.signed_bounds
    let min := imax s.min bounds.1
    let max := imin s.max bounds.2
    if max.toInt < min.toInt then none
    else
      let derived :=
        if 0 ≤ min.toInt ∨ max.toInt < 0 then Tnum.from_unsigned_range min max else Tnum.UNKNOWN
      match s.tnum.meet derived with
      | none => none
      | some tnum => some ⟨tnum,min,max⟩
/-- At most this many rounds, stopping early once a round changes nothing. -/
def normalize_rounds : Nat → Scalar → Option Scalar
  | 0,s => if s.max.toInt < s.min.toInt then none else some s
  | rounds + 1,s =>
    match normalize_round s with
    | none => none
    | some next => if next = s then normalize_rounds 0 next else normalize_rounds rounds next
def normalize : Option Scalar := normalize_rounds 3 s
def normalized : Scalar := s.normalize.getD s
def signed_bits (bits : Nat) : Scalar :=
  if bits = 0 ∨ 64 ≤ bits then UNKNOWN
  else normalized ⟨Tnum.UNKNOWN.sign_extend bits,-(1#64 <<< (bits - 1)),(1#64 <<< (bits - 1)) - 1#64⟩
/-- The low 32 bits, zero-extended; exact on the interval when it shares a high half. -/
def zext32 : Scalar :=
  let t := s.tnum.zero_extend 32
  if s.min >>> 32 = s.max >>> 32 then
    let lo := s.min &&& 0xffffffff#64
    let hi := s.max &&& 0xffffffff#64
    let t := (t.meet (Tnum.from_unsigned_range lo hi)).getD t
    normalized ⟨t,lo,hi⟩
  else
    let bounds := t.unsigned_bounds
    normalized ⟨t,bounds.1,bounds.2⟩
def sext32 : Scalar :=
  let z := s.zext32
  let bounds := z.unsigned_bounds
  let half : Nat := 2 ^ 31
  let full : U64 := 1#64 <<< 32
  let interval :=
    if bounds.2.toNat < half then (bounds.1,bounds.2)
    else if half ≤ bounds.1.toNat then (bounds.1 - full,bounds.2 - full)
    else (-(1#64 <<< 31),(1#64 <<< 31) - 1#64)
  normalized ⟨z.tnum.sign_extend 32,interval.1,interval.2⟩
def sign_extend (s : Scalar) (bits : Nat) : Scalar :=
  if 64 ≤ bits then s
  else
    normalized ⟨(s.tnum.zero_extend bits).sign_extend bits,
      -(1#64 <<< (bits - 1)),(1#64 <<< (bits - 1)) - 1#64⟩

/-! ### Lattice operations -/
def join (s u : Scalar) : Scalar := normalized ⟨s.tnum.join u.tnum,imin s.min u.min,imax s.max u.max⟩
def meet (s u : Scalar) : Option Scalar :=
  match s.tnum.meet u.tnum with
  | none => none
  | some tnum => normalize ⟨tnum,imax s.min u.min,imin s.max u.max⟩
def is_subset_of (s u : Scalar) : Bool :=
  decide (u.min.toInt ≤ s.min.toInt) && decide (s.max.toInt ≤ u.max.toInt) && s.tnum.is_subset_of u.tnum
/-- Widening to the nearest threshold; a widened interval also relaxes the tnum to the
    interval's own abstraction, so that the reduction does not undo the widening. -/
def widen (s next : Scalar) (thresholds : List I64) : Scalar :=
  let widened_below := next.min.toInt < s.min.toInt
  let widened_above := s.max.toInt < next.max.toInt
  let min :=
    if widened_below then (thresholds.reverse.find? (fun t => decide (t.toInt ≤ next.min.toInt))).getD I64_MIN
    else s.min
  let max :=
    if widened_above then (thresholds.find? (fun t => decide (next.max.toInt ≤ t.toInt))).getD I64_MAX
    else s.max
  let tnum := s.tnum.join next.tnum
  let tnum :=
    if widened_below ∨ widened_above then
      let hull :=
        if 0 ≤ min.toInt ∨ max.toInt < 0 then Tnum.from_unsigned_range min max else Tnum.UNKNOWN
      tnum.join hull
    else tnum
  normalized ⟨tnum,min,max⟩

/-! ### Refinement from branch conditions -/
def refine_signed_min (c : I64) : Option Scalar := normalize { s with min := imax s.min c }
def refine_signed_max (c : I64) : Option Scalar := normalize { s with max := imin s.max c }
def refine_unsigned_max (c : U64) : Option Scalar :=
  if c.toNat < SIGN.toNat then
    match s.tnum.meet (Tnum.from_unsigned_range 0#64 c) with
    | none => none
    | some tnum => normalize ⟨tnum,imax s.min 0#64,imin s.max c⟩
  else if s.max.toInt < 0 then normalize { s with max := imin s.max c }
  else normalize s
/-- Below `2^63` the constraint is dropped unless the value is already non-negative. -/
def refine_unsigned_min (c : U64) : Option Scalar :=
  if c = 0#64 then some s
  else if SIGN.toNat ≤ c.toNat then normalize { s with min := imax s.min c, max := imin s.max (-1#64) }
  else if 0 ≤ s.min.toInt then normalize { s with min := imax s.min c }
  else normalize s
def refine_eq (s u : Scalar) : Option Scalar := s.meet u
/-- `checked_add(1)` and `checked_sub(1)` are the two early exits. -/
def refine_ne (s u : Scalar) : Option Scalar :=
  match u.as_const with
  | none => some s
  | some c =>
    if s.min = s.max ∧ s.min = c then none
    else if s.min = c ∧ c = I64_MAX then none
    else
      let out := if s.min = c then { s with min := c + 1#64 } else s
      if out.max = c ∧ c = I64_MIN then none
      else normalize (if out.max = c then { out with max := c - 1#64 } else out)
def refine_bits_clear (s u : Scalar) : Option Scalar :=
  match u.as_const with
  | none => some s
  | some c =>
    match s.tnum.meet (Tnum.unknown_bits (~~~c)) with
    | none => none
    | some tnum => normalize { s with tnum := tnum }
def refine_bits_set (s u : Scalar) : Option Scalar :=
  match u.as_const with
  | none => some s
  | some c => if (s.tnum.value ||| s.tnum.mask) &&& c = 0#64 then none else some s

/-! ### Transfer functions -/
def add (s u : Scalar) : Scalar :=
  let interval := interval_add s.min s.max u.min u.max
  normalized ⟨s.tnum.add u.tnum,interval.1,interval.2⟩
def sub (s u : Scalar) : Scalar :=
  let negated := interval_neg u.min u.max
  let interval := interval_add s.min s.max negated.1 negated.2
  normalized ⟨s.tnum.sub u.tnum,interval.1,interval.2⟩
def mul (s u : Scalar) : Scalar :=
  let interval := interval_mul s.min s.max u.min u.max
  normalized ⟨s.tnum.mul u.tnum,interval.1,interval.2⟩
def neg : Scalar :=
  let interval := interval_neg s.min s.max
  normalized ⟨Tnum.ZERO.sub s.tnum,interval.1,interval.2⟩
def and (s u : Scalar) : Scalar := normalized ⟨s.tnum.and u.tnum,I64_MIN,I64_MAX⟩
def or (s u : Scalar) : Scalar := normalized ⟨s.tnum.or u.tnum,I64_MIN,I64_MAX⟩
def xor (s u : Scalar) : Scalar := normalized ⟨s.tnum.xor u.tnum,I64_MIN,I64_MAX⟩
/-- The shift amount masked to `mask`, when it is a single value. -/
def shift_amount (mask : Nat) : Option Nat :=
  s.as_const.map (fun c => (c.toNat % 2 ^ 32) &&& mask)
def shl (s u : Scalar) : Scalar :=
  match shift_amount u 63 with
  | none => UNKNOWN
  | some n =>
    let interval :=
      if 0 ≤ s.min.toInt ∧ s.max.toNat ≤ I64_MAX.toNat >>> n then (s.min <<< n,s.max <<< n)
      else (I64_MIN,I64_MAX)
    normalized ⟨s.tnum.shl n,interval.1,interval.2⟩
def shr (s u : Scalar) : Scalar :=
  match shift_amount u 63 with
  | none => UNKNOWN
  | some n =>
    if n = 0 then s
    else
      let interval :=
        if 0 ≤ s.min.toInt then (s.min.sshiftRight n,s.max.sshiftRight n) else (0#64,U64_MAX >>> n)
      normalized ⟨s.tnum.shr n,interval.1,interval.2⟩
def sar (s u : Scalar) : Scalar :=
  match shift_amount u 63 with
  | none => UNKNOWN
  | some n => normalized ⟨s.tnum.sar n,s.min.sshiftRight n,s.max.sshiftRight n⟩
def from_unsigned_range (lo hi : U64) : Scalar :=
  if hi.toNat < lo.toNat then UNKNOWN
  else
    let straddles_sign := lo.toNat ≤ I64_MAX.toNat ∧ I64_MAX.toNat < hi.toNat
    let interval := if straddles_sign then (I64_MIN,I64_MAX) else (lo,hi)
    normalized ⟨Tnum.from_unsigned_range lo hi,interval.1,interval.2⟩
def udiv (s u : Scalar) : Scalar :=
  let a := s.unsigned_bounds
  let b := u.unsigned_bounds
  let hi := if b.2 = 0#64 then 0#64 else if b.1 = 0#64 then a.2 else a.2 / b.1
  let lo := if b.1 = 0#64 then 0#64 else a.1 / b.2
  from_unsigned_range lo hi
def umod (s u : Scalar) : Scalar :=
  let a := s.unsigned_bounds
  let b := u.unsigned_bounds
  let hi := if b.1 = 0#64 then a.2 else umin a.2 (if b.2 = 0#64 then 0#64 else b.2 - 1#64)
  from_unsigned_range 0#64 hi
def sdiv (s u : Scalar) : Scalar :=
  match s.as_const,u.as_const with
  | some a,some b => constant (concrete_sdiv a b)
  | _,_ => UNKNOWN
def smod (s u : Scalar) : Scalar :=
  match s.as_const,u.as_const with
  | some a,some b => constant (concrete_smod a b)
  | _,_ => UNKNOWN
def bswap (width : Nat) : Scalar :=
  match s.as_const with
  | some v => constant (concrete_bswap v width)
  | none =>
    match width with
    | 16 => unsigned_bits 16
    | 32 => unsigned_bits 32
    | _ => UNKNOWN

/-! ### Instruction-level transfers -/
def alu (op : AluOp) (wide : Bool) (u : Scalar) : Scalar :=
  if wide then
    match op with
    | .Add => s.add u
    | .Sub => s.sub u
    | .Mul => s.mul u
    | .Or => s.or u
    | .And => s.and u
    | .Xor => s.xor u
    | .Lsh => s.shl u
    | .Rsh => s.shr u
    | .Arsh => s.sar u
  else
    let a := s.zext32
    let b := u.zext32
    let amount := b.and (constant 31#64)
    match op with
    | .Add => (a.add b).zext32
    | .Sub => (a.sub b).zext32
    | .Mul => (a.mul b).zext32
    | .Or => a.or b
    | .And => a.and b
    | .Xor => a.xor b
    | .Lsh => (a.shl amount).zext32
    | .Rsh => a.shr amount
    | .Arsh => (s.sext32.sar amount).zext32
def div_op (wide signed : Bool) (u : Scalar) : Scalar :=
  match wide,signed with
  | true,false => s.udiv u
  | true,true => s.sdiv u
  | false,false => (s.zext32.udiv u.zext32).zext32
  | false,true =>
    match s.sext32.as_const,u.sext32.as_const with
    | some a,some b => constant ((concrete_sdiv32 (a.setWidth 32) (b.setWidth 32)).setWidth 64)
    | _,_ => unsigned_bits 32
def mod_op (wide signed : Bool) (u : Scalar) : Scalar :=
  match wide,signed with
  | true,false => s.umod u
  | true,true => s.smod u
  | false,false => (s.zext32.umod u.zext32).zext32
  | false,true =>
    match s.sext32.as_const,u.sext32.as_const with
    | some a,some b => constant ((concrete_smod32 (a.setWidth 32) (b.setWidth 32)).setWidth 64)
    | _,_ => unsigned_bits 32
def neg_op (wide : Bool) : Scalar := if wide then s.neg else s.zext32.neg.zext32
def mov_op (wide : Bool) (sign_extend : Option Nat) : Scalar :=
  match sign_extend,wide with
  | none,true => s
  | none,false => s.zext32
  | some bits,true => s.sign_extend bits
  | some bits,false => (s.sign_extend bits).zext32
def end_op (order : ByteOrder) (width : Nat) : Scalar :=
  match order with
  | .Little =>
    match width with
    | 16 => s.zext32.and (constant 0xffff#64)
    | 32 => s.zext32
    | _ => s
  | .Big | .Swap => s.bswap width
end Scalar
end Narf.Bpf
