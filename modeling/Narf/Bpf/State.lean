import Narf.Bpf.Interp
import Narf.Bpf.Kfunc
import Narf.Lib.Assoc

/-! The abstract state: registers, the current frame, typed pointers and outstanding
references. A reference id is the IR index of its acquisition site; `none` stands for
the source's `NO_REF`. The frame's slot map is read by key only, so the order of a
`BTreeMap` is not modelled. -/

namespace Narf.Bpf
open Narf.Lib

def SLOT_BYTES : Int := 8
inductive PtrClass where
  | Stack | Ctx | MapValue | Mem | MemEnd | Object | TraceObject | Arena | LockGuard | Null
  deriving DecidableEq
structure PtrVal where
  cls : PtrClass
  key : TypeKey
  domain : ValidityDomain
  off : Scalar
  size : Option U64
  nullable : Bool
  ref_id : Option Nat
  readonly : Bool
  deriving DecidableEq
/-- Order of domains by what a value in them can outlive. -/
def rank : ValidityDomain → Nat
  | .NonPreemptible => 0
  | .RcuRead => 1
  | .SleepableRcuRead => 2
  | .Owned => 3
  | .Static => 4
def weaker_domain (a b : ValidityDomain) : ValidityDomain := if rank a ≤ rank b then a else b

namespace PtrVal
def region (cls : PtrClass) (size : U64) : PtrVal :=
  { cls, key := TypeKey.NONE, domain := .Static, off := Scalar.constant 0#64, size := some size,
    nullable := false, ref_id := none, readonly := false }
def frame_pointer : PtrVal :=
  { cls := .Stack, key := TypeKey.NONE, domain := .Static, off := Scalar.constant 0#64, size := none,
    nullable := false, ref_id := none, readonly := false }
def survives_await (p : PtrVal) : Bool := p.domain.survives_await
def join_size : Option U64 → Option U64 → Option U64
  | some a,some b => some (umin a b)
  | _,_ => none
/-- Join, when both sides describe the same kind of region. -/
def join (p q : PtrVal) : Option PtrVal :=
  if p.cls ≠ q.cls ∨ p.key ≠ q.key ∨ p.ref_id ≠ q.ref_id then none
  else
    some { cls := p.cls, key := p.key, domain := weaker_domain p.domain q.domain, off := p.off.join q.off,
           size := join_size p.size q.size, nullable := p.nullable || q.nullable, ref_id := p.ref_id,
           readonly := p.readonly || q.readonly }
def size_covers : Option U64 → Option U64 → Bool
  | some a,some b => decide (b.toNat ≤ a.toNat)
  | _,none => true
  | none,some _ => false
def is_subset_of (p q : PtrVal) : Bool :=
  p.cls == q.cls && p.key == q.key && p.ref_id == q.ref_id && p.domain == q.domain &&
    p.off.is_subset_of q.off && (q.nullable || !p.nullable) && (q.readonly || !p.readonly) &&
    size_covers p.size q.size
def widen (p next : PtrVal) (thresholds : List I64) : Option PtrVal :=
  (p.join next).map (fun joined => { joined with off := p.off.widen next.off thresholds })
end PtrVal

inductive AbsValue where
  | NotInit
  | Scalar (s : Scalar)
  | Ptr (p : PtrVal)
  deriving DecidableEq

namespace AbsValue
def UNKNOWN_SCALAR : AbsValue := .Scalar Scalar.UNKNOWN
/-- Two unlike values become an unconstrained number. -/
def join : AbsValue → AbsValue → AbsValue
  | .NotInit,_ => .NotInit
  | _,.NotInit => .NotInit
  | .Scalar a,.Scalar b => .Scalar (a.join b)
  | .Ptr a,.Ptr b =>
    match a.join b with
    | some p => .Ptr p
    | none => UNKNOWN_SCALAR
  | _,_ => UNKNOWN_SCALAR
def widen (a next : AbsValue) (thresholds : List I64) : AbsValue :=
  match a,next with
  | .Scalar a,.Scalar b => .Scalar (a.widen b thresholds)
  | .Ptr a,.Ptr b =>
    match a.widen b thresholds with
    | some p => .Ptr p
    | none => UNKNOWN_SCALAR
  | a,b => a.join b
def is_subset_of : AbsValue → AbsValue → Bool
  | _,.NotInit => true
  | .NotInit,_ => false
  | .Scalar a,.Scalar b => a.is_subset_of b
  | .Ptr a,.Ptr b => a.is_subset_of b
  | _,_ => false
/-- The pointer this value is, if `test` holds of it. -/
def ptr_is (test : PtrVal → Bool) : AbsValue → Bool
  | .Ptr p => test p
  | _ => false
end AbsValue

/-! ### The frame -/
/-- One eight-byte slot: which bytes are written, and the value of a whole-slot write. -/
structure StackSlot where
  init : BitVec 8
  value : AbsValue
  whole : Bool
  deriving DecidableEq

namespace StackSlot
def EMPTY : StackSlot := ⟨0#8,.NotInit,false⟩
def forget (s : StackSlot) : StackSlot := { s with value := .NotInit, whole := false }
def join (s t : StackSlot) : StackSlot :=
  let whole := s.whole && t.whole
  ⟨s.init &&& t.init,if whole then s.value.join t.value else .NotInit,whole⟩
def widen (s next : StackSlot) (thresholds : List I64) : StackSlot :=
  let whole := s.whole && next.whole
  ⟨s.init &&& next.init,if whole then s.value.widen next.value thresholds else .NotInit,whole⟩
def is_subset_of (s t : StackSlot) : Bool :=
  t.init &&& ~~~s.init == 0#8 && (!t.whole || (s.whole && s.value.is_subset_of t.value))
end StackSlot

structure Stack where
  slots : Assoc Nat StackSlot
  depth : Nat

namespace Stack
def default : Stack := ⟨[],0⟩
/-- Slot `i` covers `[-8(i+1), -8i)` below the frame pointer. -/
def slot_index (off : Int) : Nat := ((-off - 1).tdiv SLOT_BYTES).toNat
def byte_in_slot (off : Int) : Nat := (off + SLOT_BYTES * (slot_index off + 1)).toNat
variable (stack : Stack)
def slot (index : Nat) : StackSlot := (stack.slots.get? index).getD StackSlot.EMPTY
def note_depth (off : Int) : Stack :=
  if off < 0 then { stack with depth := max stack.depth (-off).toNat } else stack
def write_byte (off : Int) : Stack :=
  let index := slot_index off
  let s := stack.slot index
  let written : StackSlot := ⟨s.init ||| (1#8 <<< byte_in_slot off),.NotInit,false⟩
  { stack with slots := stack.slots.insert index written }
def write_bytes (off : Int) (len : Nat) : Stack :=
  (List.range len).foldl (fun stack k => stack.write_byte (off + k)) stack
def write (off : Int) (size : Size) (value : AbsValue) : Stack :=
  let stack := stack.note_depth off
  if size = .Dw ∧ off % SLOT_BYTES = 0 then
    { stack with slots := stack.slots.insert (slot_index off) ⟨0xff#8,value,true⟩ }
  else stack.write_bytes off size.bytes
def write_unspecified (off : Int) (len : Nat) : Stack :=
  (stack.note_depth off).write_bytes off len
/-- A store somewhere in `[lo, hi)`: spilled values in reach die, written bytes stay. -/
def write_maybe (lo hi : Int) : Stack :=
  let stack := stack.note_depth lo
  let first := slot_index (hi - 1)
  let last := slot_index lo
  { stack with slots := stack.slots.mapValues (fun index s => if first ≤ index ∧ index ≤ last then s.forget else s) }
/-- The bytes of slot `index` that `[off, stop)` covers, as a mask. -/
def wanted_bytes (off stop : Int) (index : Nat) : BitVec 8 :=
  let base := -SLOT_BYTES * (index + 1)
  let lo := (max off base - base).toNat
  let hi := (min stop (base + SLOT_BYTES) - base).toNat
  (((1#16 <<< hi) - 1#16) &&& ~~~((1#16 <<< lo) - 1#16)).setWidth 8
/-- Whether `[off, off + len)` lies in the frame and is wholly written. A length past
    `i64::MAX` ends above the frame pointer and is answered `false` like any other. -/
def is_initialized (off : Int) (len : Nat) : Bool :=
  if len = 0 then true
  else
    let stop := off + len
    if 0 ≤ off ∨ 0 < stop ∨ off < -(MAX_STACK_BYTES : Int) then false
    else
      let first := slot_index (stop - 1)
      let last := slot_index off
      (List.range (last + 1 - first)).all fun k =>
        let want := wanted_bytes off stop (first + k)
        (stack.slot (first + k)).init &&& want == want
def read (off : Int) (size : Size) : AbsValue :=
  let s := stack.slot (slot_index off)
  if size = .Dw ∧ off % SLOT_BYTES = 0 ∧ s.whole ∧ s.init = 0xff#8 then s.value
  else .Scalar (Scalar.unsigned_bits size.bits)
/-- A callee was handed this frame: no spilled value survives. -/
def clobber : Stack :=
  { stack with slots := stack.slots.mapValues (fun _ s => s.forget) }
/-- Combine slot by slot; a slot absent on either side has nothing written. -/
def combine (f : StackSlot → StackSlot → StackSlot) (stack other : Stack) : Stack :=
  { slots := stack.slots.collect fun index =>
      let joined := f (stack.slot index) (other.slot index)
      if joined ≠ StackSlot.EMPTY then some joined else none
    depth := max stack.depth other.depth }
def join (stack other : Stack) : Stack := stack.combine StackSlot.join other
def widen (stack next : Stack) (thresholds : List I64) : Stack :=
  stack.combine (fun s t => s.widen t thresholds) next
def is_subset_of (stack other : Stack) : Bool :=
  other.slots.all (fun entry => (stack.slot entry.1).is_subset_of entry.2)
def kill_values (test : PtrVal → Bool) : Stack :=
  { stack with slots := stack.slots.mapValues (fun _ s => if s.value.ptr_is test then s.forget else s) }
end Stack

/-! ### References and the whole state -/
structure Ref where
  id : Nat
  is_lock : Bool
  domain : ValidityDomain
structure AbsState where
  regs : Reg → AbsValue
  stack : Stack
  refs : List Ref
/-- Insert in id order; the caller has checked that the id is absent. -/
def insert_ref (r : Ref) : List Ref → List Ref
  | [] => [r]
  | first :: rest => if r.id < first.id then r :: first :: rest else first :: insert_ref r rest
def holds_ref (refs : List Ref) (id : Nat) : Bool := refs.any (fun r => r.id == id)
def acquire_ref (refs : List Ref) (r : Ref) : List Ref :=
  if holds_ref refs r.id then refs else insert_ref r refs
def union_refs (a b : List Ref) : List Ref := b.foldl acquire_ref a

namespace AbsState
variable (st : AbsState)
def set_reg (reg : Reg) (value : AbsValue) : AbsState :=
  { st with regs := fun other => if other = reg then value else st.regs other }
/-- The program entry: R1 is the read-only context, R10 the frame pointer. -/
def entry (ctx_size : U64) : AbsState :=
  { regs := fun reg =>
      if reg = 1 then .Ptr { PtrVal.region .Ctx ctx_size with readonly := true }
      else if reg = 10 then .Ptr PtrVal.frame_pointer
      else .NotInit
    stack := Stack.default
    refs := [] }
/-- A site that is already held is left as it is. -/
def acquire (r : Ref) : AbsState := { st with refs := acquire_ref st.refs r }
def holds (id : Nat) : Bool := holds_ref st.refs id
/-- Drop a reference; the flag says whether it was held. -/
def release (id : Nat) : AbsState × Bool :=
  ({ st with refs := st.refs.eraseP (fun r => r.id == id) },st.holds id)
def live_locks : Nat := st.refs.countP (fun r => r.is_lock)
/-- Strike the proven extent off every packet pointer in a register. -/
def invalidate_packet_bounds : AbsState :=
  { st with regs := fun reg =>
      match st.regs reg with
      | .Ptr p => if p.cls = .Mem ∧ p.key.is_some then .Ptr { p with size := none } else .Ptr p
      | other => other }
/-- Forget every register and spilled slot whose pointer satisfies `test`. -/
def kill_ptrs (test : PtrVal → Bool) : AbsState :=
  { st with
    regs := fun reg => if (st.regs reg).ptr_is test then .NotInit else st.regs reg
    stack := st.stack.kill_values test }
def kill_ref (id : Option Nat) : AbsState := st.kill_ptrs (fun p => p.ref_id == id)
/-- Kill what does not survive an await; also the registers killed, in order. -/
def kill_at_await : AbsState × List (Reg × ValidityDomain) :=
  (st.kill_ptrs (fun p => !p.survives_await),
    (List.finRange 11).filterMap fun reg =>
      match st.regs reg with
      | .Ptr p => if !p.survives_await then some (reg,p.domain) else none
      | _ => none)
def join (st other : AbsState) : AbsState :=
  { regs := fun reg => (st.regs reg).join (other.regs reg)
    stack := st.stack.join other.stack
    refs := union_refs st.refs other.refs }
/-- Widen towards `next`; a register outside `precise` widens without thresholds. -/
def widen (st next : AbsState) (thresholds : List I64) (precise : BitVec 16) : AbsState :=
  let joined := st.join next
  { regs := fun reg =>
      (st.regs reg).widen (joined.regs reg) (if precise.getLsbD reg then thresholds else [])
    stack := st.stack.widen joined.stack thresholds
    refs := joined.refs }
def is_subset_of (st other : AbsState) : Bool :=
  (List.finRange 11).all (fun reg => (st.regs reg).is_subset_of (other.regs reg)) &&
    st.stack.is_subset_of other.stack && other.refs.all (fun r => st.holds r.id) &&
    st.refs.all (fun r => other.holds r.id)
end AbsState
end Narf.Bpf
