import Narf.Bpf.State
import Narf.Bpf.Program

/-! Reading operands from an abstract state, and the refinement of a state along one edge
of a conditional branch. -/

namespace Narf.Bpf
/-- A branch predicate. `NotSet` is the fall-through side of `JSET`, which is not an
    opcode. -/
inductive Pred where
  | Eq | Ne | Gt | Ge | Lt | Le | Sgt | Sge | Slt | Sle | Set | NotSet
  deriving DecidableEq

namespace Pred
def of : CondOp → Pred
  | .Eq => .Eq
  | .Ne => .Ne
  | .Gt => .Gt
  | .Ge => .Ge
  | .Lt => .Lt
  | .Le => .Le
  | .Sgt => .Sgt
  | .Sge => .Sge
  | .Slt => .Slt
  | .Sle => .Sle
  | .Set => .Set
def negate : Pred → Pred
  | .Eq => .Ne
  | .Ne => .Eq
  | .Gt => .Le
  | .Ge => .Lt
  | .Lt => .Ge
  | .Le => .Gt
  | .Sgt => .Sle
  | .Sge => .Slt
  | .Slt => .Sge
  | .Sle => .Sgt
  | .Set => .NotSet
  | .NotSet => .Set
def swap_operands : Pred → Pred
  | .Eq => .Eq
  | .Ne => .Ne
  | .Gt => .Lt
  | .Ge => .Le
  | .Lt => .Gt
  | .Le => .Ge
  | .Sgt => .Slt
  | .Sge => .Sle
  | .Slt => .Sgt
  | .Sle => .Sge
  | .Set => .Set
  | .NotSet => .NotSet
def is_unsigned : Pred → Bool
  | .Sgt | .Sge | .Slt | .Sle => false
  | _ => true
end Pred

namespace AbsState
variable (st : AbsState)
def get (slot : Nat) (reg : Reg) : Except VerifyError AbsValue :=
  match st.regs reg with
  | .NotInit => .error (.UninitRegister slot reg)
  | value => .ok value
def get_scalar (slot : Nat) (reg : Reg) : Except VerifyError Scalar := do
  match ← st.get slot reg with
  | .Scalar s => .ok s
  | _ => .error (.PointerArithmetic slot reg)
def get_ptr (slot : Nat) (reg : Reg) : Except VerifyError PtrVal := do
  match ← st.get slot reg with
  | .Ptr p => .ok p
  | _ => .error (.NotAPointer slot reg)
def set (slot : Nat) (reg : Reg) (value : AbsValue) : Except VerifyError AbsState :=
  if reg.is_frame_ptr then .error (.WriteToFramePointer slot) else .ok (st.set_reg reg value)
/-- The value of an immediate operand: sign-extended for a 64-bit operation, the low
    half for a 32-bit one. -/
def imm_value (wide : Bool) (imm : BitVec 32) : U64 :=
  if wide then imm.signExtend 64 else imm.setWidth 64
def source (slot : Nat) (src : Source) (wide : Bool) : Except VerifyError AbsValue :=
  match src with
  | .Reg reg => st.get slot reg
  | .Imm imm => .ok (.Scalar (Scalar.constant (imm_value wide imm)))
def scalar_source (slot : Nat) (src : Source) (wide : Bool) : Except VerifyError Scalar := do
  match ← st.source slot src wide with
  | .Scalar s => .ok s
  | _ =>
    .error (.PointerArithmetic slot (match src with
      | .Reg reg => reg
      | .Imm _ => Reg.R0))

/-! ### Branch refinement -/
/-- The data pointer, its end and the relation between them, for a comparison of a
    dynamic region with its end in either order. -/
def dynamic_pair (pred : Pred) (d s : PtrVal) : Option (PtrVal × PtrVal × Pred) :=
  match d.cls,s.cls with
  | .Mem,.MemEnd => some (d,s,pred)
  | .MemEnd,.Mem => some (s,d,pred.swap_operands)
  | _,_ => none
/-- The readable prefix a comparison of a constant offset with the end establishes. -/
def dynamic_limit (relation : Pred) (off : Option I64) : Option U64 :=
  match relation,off with
  | .Eq,some off | .Le,some off => if 0 ≤ off.toInt then some off else none
  | .Lt,some off => if 0 ≤ off.toInt then some (off + 1#64) else none
  | _,_ => none
/-- Give every register alias of the region at least `limit` readable bytes. -/
def publish_extent (key : TypeKey) (limit : U64) : AbsState :=
  { st with regs := fun reg =>
      match st.regs reg with
      | .Ptr p =>
        if p.cls = .Mem ∧ p.key = key then
          .Ptr { p with size := some (match p.size with
            | some n => umax n limit
            | none => limit) }
        else .Ptr p
      | other => other }
def refine_dynamic (mem stop : PtrVal) (relation : Pred) : AbsState :=
  if mem.key.is_some ∧ mem.key = stop.key then
    match dynamic_limit relation mem.off.as_const with
    | some limit => st.publish_extent mem.key limit
    | none => st
  else st
/-- The null test of pointer `p` in `dst`; `none` is an edge that cannot be taken. -/
def refine_null (pred : Pred) (dst : Reg) (p : PtrVal) : Option AbsState :=
  if pred = .Eq then
    if !p.nullable then none
    else
      let out := st.set_reg dst (.Scalar (Scalar.constant 0#64))
      some (match p.ref_id with
        | some id => (out.release id).1
        | none => out)
  else some (st.set_reg dst (.Ptr { p with nullable := false }))
/-- Whether a comparison at this width constrains the whole 64-bit value. -/
def refinable (wide : Bool) (pred : Pred) (v : Scalar) : Bool :=
  wide || (decide (0 ≤ v.min.toInt) &&
    decide (v.max.toInt ≤ if pred.is_unsigned then 0xffffffff else 0x7fffffff))
def u64_saturating_succ (v : U64) : U64 := if v = U64_MAX then v else v + 1#64
def u64_saturating_pred (v : U64) : U64 := if v = 0#64 then v else v - 1#64
def i64_saturating_succ (v : I64) : I64 := if v = I64_MAX then v else v + 1#64
def i64_saturating_pred (v : I64) : I64 := if v = I64_MIN then v else v - 1#64
def refine_scalars (pred : Pred) (a b : Scalar) : Option Scalar × Option Scalar :=
  let au := a.unsigned_bounds
  let bu := b.unsigned_bounds
  match pred with
  | .Eq => (a.refine_eq b,b.refine_eq a)
  | .Ne => (a.refine_ne b,b.refine_ne a)
  | .Gt => (a.refine_unsigned_min (u64_saturating_succ bu.1),b.refine_unsigned_max (u64_saturating_pred au.2))
  | .Ge => (a.refine_unsigned_min bu.1,b.refine_unsigned_max au.2)
  | .Lt => (a.refine_unsigned_max (u64_saturating_pred bu.2),b.refine_unsigned_min (u64_saturating_succ au.1))
  | .Le => (a.refine_unsigned_max bu.2,b.refine_unsigned_min au.1)
  | .Sgt => (a.refine_signed_min (i64_saturating_succ b.min),b.refine_signed_max (i64_saturating_pred a.max))
  | .Sge => (a.refine_signed_min b.min,b.refine_signed_max a.max)
  | .Slt => (a.refine_signed_max (i64_saturating_pred b.max),b.refine_signed_min (i64_saturating_succ a.min))
  | .Sle => (a.refine_signed_max b.max,b.refine_signed_min a.min)
  | .Set => (a.refine_bits_set b,some b)
  | .NotSet => (a.refine_bits_clear b,some b)
/-- Write the refined operands back; a source register that is `dst` or the frame
    pointer is left to the first write. -/
def set_operands (dst : Reg) (src : Source) (a b : Scalar) : AbsState :=
  let out := st.set_reg dst (.Scalar a)
  match src with
  | .Reg reg => if !reg.is_frame_ptr && reg != dst then out.set_reg reg (.Scalar b) else out
  | .Imm _ => out
/-- Refine by the values of the two operands; `none` is an infeasible edge. -/
def refine_values (wide : Bool) (pred : Pred) (dst : Reg) (src : Source) (d s : AbsValue) : Option AbsState :=
  match d,s with
  | .Ptr dp,.Ptr sp =>
    match if wide then dynamic_pair pred dp sp else none with
    | some (mem,stop,relation) => some (st.refine_dynamic mem stop relation)
    | none => some st
  | .Ptr p,.Scalar z =>
    if wide && z.as_const == some 0#64 && (pred == .Eq || pred == .Ne) then st.refine_null pred dst p else some st
  | .Scalar a,.Scalar b =>
    if !refinable wide pred a || !refinable wide pred b then some st
    else
      match refine_scalars pred a b with
      | (some a,some b) => some (st.set_operands dst src a b)
      | _ => none
  | _,_ => some st
def refine (slot : Nat) (wide : Bool) (pred : Pred) (dst : Reg) (src : Source) : Except VerifyError (Option AbsState) := do
  let d ← st.get slot dst
  let s ← st.source slot src wide
  return st.refine_values wide pred dst src d s
end AbsState
end Narf.Bpf
