import Narf.Bpf.Liveness
import Narf.Bpf.Refine
import Narf.Lib.Traced

/-! The transfer functions of the verifier. In the source they take `&mut self`; what
they write there (site tables, stack depths, callee entry states) they never read back,
so here they log it as notes and the driver applies the notes afterwards. -/

namespace Narf.Bpf
open Narf.Lib

inductive Note where
  | Fault (site : FaultSite)
  | Bare (site : BareAccessSite)
  | TypedLoad (site : TypedLoadSite)
  | KfuncCall (site : KfuncCallSite)
  | UsesArena
  | Depth (depth : Nat)
  | Entry (callee : Nat) (st : AbsState)
abbrev Out := Traced VerifyError Note
abbrev fail {α : Type} (error : VerifyError) : Out α := Traced.fail error
abbrev note (entry : Note) : Out Unit := Traced.note entry
structure Analysis where
  ir : Ir
  prog : Program
  live : Liveness.Masks
  prec : Liveness.Masks
/-- What is known of where an access lands. -/
inductive Resolved where
  | Const (off : Int)
  | StackRange (lo hi : Int)
  | Opaque
  | TypedField
def PtrKind.cls : PtrKind → PtrClass
  | .Object => .Object
  | .TraceObject => .TraceObject
  | .Mem => .Mem
  | .MemEnd => .MemEnd
  | .Arena => .Arena
  | .Ctx => .Ctx
  | .MapValue => .MapValue
  | .LockGuard => .LockGuard
def value_of (desc : ArgDesc) (ref_id : Option Nat) : AbsValue :=
  match desc.kind with
  | .Void => .NotInit
  | .Scalar bits signed => .Scalar (if signed then Scalar.signed_bits bits else Scalar.unsigned_bits bits)
  | .Ptr kind key =>
    .Ptr { cls := kind.cls, key, domain := desc.domain, off := Scalar.constant 0#64,
           size := if kind.cls = .LockGuard then some 0#64 else none,
           nullable := desc.flags.contains ArgFlags.NULLABLE, ref_id,
           readonly := desc.flags.contains ArgFlags.READONLY }

/-! ### Arithmetic -/
/-- The offset of an arena pointer after arithmetic; only add and subtract are tracked. -/
def arena_off (op : AluOp) (off : Scalar) (s : AbsValue) : Scalar :=
  match op,s with
  | .Add,.Scalar b => off.add b
  | .Sub,.Scalar b => off.sub b
  | _,_ => Scalar.UNKNOWN
def alu_value (slot : Nat) (wide : Bool) (op : AluOp) (dst : Reg) (d s : AbsValue) : Out AbsValue :=
  match d,s with
  | .Scalar a,.Scalar b => return .Scalar (a.alu op wide b)
  | .Ptr p,s =>
    if p.cls = .Arena then do
      note .UsesArena
      return .Ptr { p with off := arena_off op p.off s }
    else
      match s with
      | .Scalar b =>
        if wide && p.cls != .MemEnd then
          match op with
          | .Add => return .Ptr { p with off := p.off.add b }
          | .Sub => return .Ptr { p with off := p.off.sub b }
          | _ => fail (.PointerArithmetic slot dst)
        else fail (.PointerArithmetic slot dst)
      | .Ptr q =>
        -- the difference of two pointers of one class and one reference
        if wide && op == .Sub && p.cls == q.cls && p.ref_id == q.ref_id && p.cls != .Null then
          return .Scalar (p.off.sub q.off)
        else fail (.PointerArithmetic slot dst)
      | .NotInit => fail (.PointerArithmetic slot dst)
  | _,_ => fail (.PointerArithmetic slot dst)
def alu (st : AbsState) (slot : Nat) (wide : Bool) (op : AluOp) (dst : Reg) (src : Source) : Out AbsState := do
  let d ← st.get slot dst
  let s ← st.source slot src wide
  let out ← alu_value slot wide op dst d s
  st.set slot dst out
def mov_value (wide : Bool) (sign_extend : Option Nat) : AbsValue → AbsValue
  | .Ptr p => if wide && sign_extend.isNone then .Ptr p else AbsValue.UNKNOWN_SCALAR
  | .Scalar s => .Scalar (s.mov_op wide sign_extend)
  | .NotInit => .NotInit
/-- Only the two casts between the kernel and the arena exist. -/
def addr_space_cast (st : AbsState) (slot : Nat) (dst src : Reg) (dst_as src_as : BitVec 16) : Out AbsState := do
  if !((dst_as == 0#16 && src_as == 1#16) || (dst_as == 1#16 && src_as == 0#16)) then
    fail (.BadAddrSpaceCast slot dst_as src_as)
  else
    let p ← st.get_ptr slot src
    if p.cls ≠ .Arena then fail (.NotAPointer slot src)
    else
      note .UsesArena
      st.set slot dst (.Ptr { p with off := Scalar.UNKNOWN })

namespace Analysis
variable (a : Analysis)

/-! ### Wide immediates -/
def map_by_fd (slot : Nat) (fd : BitVec 32) : Except VerifyError MapDesc :=
  match a.prog.maps.find? (fun m => m.fd == fd) with
  | some m => .ok m
  | none => .error (.UnknownMap slot fd)
def map_by_idx (slot : Nat) (idx : BitVec 32) : Except VerifyError MapDesc :=
  match a.prog.maps.find? (fun m => m.fd_array_idx == some idx) with
  | some m => .ok m
  | none => .error (.UnknownMap slot idx)
def map_handle : AbsValue :=
  .Ptr { cls := .Object, key := MAP_HANDLE_TYPE_KEY, domain := .Static, off := Scalar.constant 0#64,
         size := none, nullable := false, ref_id := none, readonly := true }
def map_value_ptr (slot : Nat) (m : MapDesc) (value_offset : BitVec 32) : Except VerifyError AbsValue :=
  if value_offset.toInt < 0 ∨ m.value_size.toNat ≤ value_offset.toNat then
    .error (.MapValueOffset slot value_offset m.value_size)
  else
    .ok (.Ptr { cls := .MapValue, key := TypeKey.NONE, domain := .Static,
                off := Scalar.constant (value_offset.signExtend 64), size := some (m.value_size.setWidth 64),
                nullable := false, ref_id := none, readonly := false })
def load_imm64 (slot : Nat) (value : Imm64) : Except VerifyError AbsValue :=
  match value with
  | .Value v => .ok (.Scalar (Scalar.constant v))
  | .MapFd fd => do
    let _ ← a.map_by_fd slot fd
    return map_handle
  | .MapIdx idx => do
    let _ ← a.map_by_idx slot idx
    return map_handle
  | .MapValue fd value_offset => do
    let m ← a.map_by_fd slot fd
    map_value_ptr slot m value_offset
  | .MapIdxValue idx value_offset => do
    let m ← a.map_by_idx slot idx
    map_value_ptr slot m value_offset
  | .BtfId _ => .error (.NotImplemented "kernel-variable addresses need a type registry in Program")
  | .SubprogAddr _ =>
    .error (.NotImplemented "callback subprogram addresses need a callback-typed kfunc argument")

/-! ### Memory -/
/-- `(max as u64).saturating_add(len)`. -/
def saturating_end (max : I64) (len : Nat) : Nat := Min.min (max.toNat + len) U64_MAX.toNat
def u32_of (v : I64) : Option (BitVec 32) :=
  if 0 ≤ v.toInt ∧ v.toInt < 2 ^ 32 then some (v.setWidth 32) else none
/-- Whether the object type `key` declares exactly this field. -/
def names_field (key : TypeKey) (offset size : BitVec 32) : Bool :=
  match a.prog.objects.find? (fun object => object.key == key) with
  | some object => object.fields.any (fun field => field.offset == offset && field.size == size)
  | none => false
/-- A direct load through a trace object, at an exact declared field. -/
def typed_field_load (slot : Nat) (reg : Reg) (p : PtrVal) (addr : Scalar) (size : Size) (write : Bool) : Out Resolved :=
  if write then fail (.TypedFieldMismatch slot reg)
  else if p.off.as_const ≠ some 0#64 then fail (.TypedFieldMismatch slot reg)
  else
    match addr.as_const.bind u32_of with
    | none => fail (.TypedFieldMismatch slot reg)
    | some field_offset =>
      let width := BitVec.ofNat 32 size.bytes
      if !a.names_field p.key field_offset width then fail (.TypedFieldMismatch slot reg)
      else do
        note (.TypedLoad ⟨slot,field_offset,width⟩)
        return .TypedField
def access_arena (slot : Nat) (reg : Reg) (addr : Scalar) (bytes : Nat) (fault_dst : Option Reg) : Out Resolved :=
  if addr.min.toInt < 0 ∨ ARENA_WINDOW_BYTES < saturating_end addr.max bytes then
    fail (.ArenaOutOfWindow slot reg)
  else do
    note .UsesArena
    note (.Fault ⟨slot,fault_dst,true⟩)
    return .Opaque
/-- The whole byte range `[lo, hi)` a stack access could touch must lie in the frame. -/
def access_stack (slot : Nat) (addr : Scalar) (bytes : Nat) : Out Resolved :=
  let lo := addr.min.toInt
  let hi := addr.max.toInt + bytes
  if I64_MAX.toInt < hi ∨ 0 ≤ lo ∨ lo < -(MAX_STACK_BYTES : Int) ∨ 0 < hi then fail (.OutOfBounds slot)
  else do
    note (.Bare ⟨slot⟩)
    match addr.as_const with
    | some off => return .Const off.toInt
    | none => return .StackRange lo hi
def access_sized (slot : Nat) (p : PtrVal) (addr : Scalar) (bytes : Nat) : Out Resolved :=
  match p.size with
  | none => fail (.OutOfBounds slot)
  | some region =>
    if addr.min.toInt < 0 ∨ region.toNat < saturating_end addr.max bytes then fail (.OutOfBounds slot)
    else if p.cls = .Ctx then
      match addr.as_const with
      | some off => do
        note (.Bare ⟨slot⟩)
        return .Const off.toInt
      | none => fail (.OutOfBounds slot)
    else if p.cls = .Mem then do
      note (.Bare ⟨slot⟩)
      return .Opaque
    else return .Opaque

variable (st : AbsState)
def access (slot : Nat) (reg : Reg) (off : BitVec 16) (size : Size) (write : Bool) (fault_dst : Option Reg) : Out Resolved := do
  let p ← st.get_ptr slot reg
  if p.nullable || p.cls == .Null then fail (.PossiblyNull slot reg)
  else if write && p.readonly then fail (.WriteToReadOnly slot)
  else
    let addr := p.off.add (Scalar.constant (off.signExtend 64))
    match p.cls with
    | .Object => fail (.OpaqueDeref slot reg)
    | .TraceObject => a.typed_field_load slot reg p addr size write
    | .Arena => access_arena slot reg addr size.bytes fault_dst
    | .Stack => access_stack slot addr size.bytes
    | _ => access_sized slot p addr size.bytes
/-- One field per eight bytes of the context, read at full width. -/
def ctx_field (slot : Nat) (off : Int) (size : Size) : Except VerifyError AbsValue :=
  if size ≠ .Dw ∨ off % 8 ≠ 0 then .error (.OutOfBounds slot)
  else
    match a.prog.ctx_fields[(off / 8).toNat]? with
    | some field => .ok (value_of field none)
    | none => .error (.OutOfBounds slot)
def access_width (size : Size) : AbsValue := .Scalar (Scalar.unsigned_bits size.bits)
def load_value (slot : Nat) (size : Size) (cls : PtrClass) (resolved : Resolved) : Out AbsValue :=
  match cls,resolved with
  | .Stack,.Const off =>
    if !st.stack.is_initialized off size.bytes then fail (.UninitStack slot off)
    else return st.stack.read off size
  | .Stack,.StackRange lo hi =>
    if !st.stack.is_initialized lo (hi - lo).toNat then fail (.UninitStack slot lo)
    else do
      note (.Depth (-lo).toNat)
      return access_width size
  | .Ctx,.Const off => a.ctx_field slot off size
  | _,_ => return access_width size
def extend_loaded (size : Size) (sign_extend : Bool) (value : AbsValue) : AbsValue :=
  match value,sign_extend with
  | .Scalar s,true => .Scalar (s.sign_extend size.bits)
  | value,_ => value
def load (slot : Nat) (size : Size) (sign_extend : Bool) (dst src : Reg) (off : BitVec 16) : Out AbsState := do
  let p ← st.get_ptr slot src
  let resolved ← a.access st slot src off size false (some dst)
  let value ← a.load_value st slot size p.cls resolved
  st.set slot dst (extend_loaded size sign_extend value)
/-- What a write of `value` through a pointer of class `cls` does to the frame. -/
def write_stack (cls : PtrClass) (resolved : Resolved) (size : Size) (value : AbsValue) : Out AbsState :=
  match cls,resolved with
  | .Stack,.Const off => do
    let stack := st.stack.write off size value
    note (.Depth stack.depth)
    return { st with stack }
  | .Stack,.StackRange lo hi => do
    let stack := st.stack.write_maybe lo hi
    note (.Depth stack.depth)
    return { st with stack }
  | _,_ => return st
/-- A store narrower than a doubleword cannot keep a pointer. -/
def stored_value (size : Size) (value : AbsValue) : AbsValue :=
  match value with
  | .Ptr p => if size ≠ .Dw then AbsValue.UNKNOWN_SCALAR else .Ptr p
  | value => value
def store (slot : Nat) (size : Size) (dst : Reg) (off : BitVec 16) (src : Source) : Out AbsState := do
  let value ← st.source slot src true
  let p ← st.get_ptr slot dst
  let resolved ← a.access st slot dst off size true none
  write_stack st p.cls resolved size (stored_value size value)
/-- A compare-and-exchange takes its comparand from R0. -/
def check_comparand (slot : Nat) (op : AtomicOp) : Except VerifyError Unit :=
  if op = .Cmpxchg then do
    let _ ← st.get_scalar slot Reg.R0
    return ()
  else .ok ()
/-- The registers an atomic leaves the old contents in. -/
def atomic_results (slot : Nat) (size : Size) (op : AtomicOp) (src : Reg) : Except VerifyError AbsState := do
  let st ← if op.writes_src then st.set slot src (access_width size) else .ok st
  if op = .Cmpxchg then st.set slot Reg.R0 (access_width size) else .ok st
def atomic (slot : Nat) (size : Size) (op : AtomicOp) (dst src : Reg) (off : BitVec 16) : Out AbsState := do
  let _ ← st.get_scalar slot src
  let _ ← check_comparand st slot op
  let p ← st.get_ptr slot dst
  let resolved ← a.access st slot dst off size true none
  let st ← write_stack st p.cls resolved size (access_width size)
  atomic_results st slot size op src

/-! ### Calls -/
/-- What a callee sees of one argument: a frame pointer becomes a bounded byte region
    of the room below the caller's frame pointer. -/
def lend_value (slot : Nat) (value : AbsValue) : Out AbsValue :=
  match value with
  | .Ptr p =>
    if p.cls = .Stack then
      match p.off.as_const with
      | none => fail (.OutOfBounds slot)
      | some off =>
        let room := imax (-off) 0#64
        if MAX_STACK_BYTES < room.toNat then fail (.OutOfBounds slot)
        else do
          note (.Depth room.toNat)
          return .Ptr (PtrVal.region .Mem room)
    else return .Ptr p
  | value => return value
/-- Arguments in R1..R5, a fresh frame, no inherited references. -/
def callee_entry (slot : Nat) : Out AbsState := do
  let r1 ← lend_value slot (st.regs 1)
  let r2 ← lend_value slot (st.regs 2)
  let r3 ← lend_value slot (st.regs 3)
  let r4 ← lend_value slot (st.regs 4)
  let r5 ← lend_value slot (st.regs 5)
  return {
    regs := fun reg =>
      if reg = 1 then r1
      else if reg = 2 then r2
      else if reg = 3 then r3
      else if reg = 4 then r4
      else if reg = 5 then r5
      else if reg = 10 then .Ptr PtrVal.frame_pointer
      else .NotInit
    stack := Stack.default
    refs := [] }
def is_arg_reg (reg : Reg) : Bool := decide (1 ≤ reg.val ∧ reg.val ≤ 5)
def passed_frame_pointer : Bool :=
  (List.finRange 11).any (fun reg => is_arg_reg reg && (st.regs reg).ptr_is (fun p => p.cls == .Stack))
def forget_args : AbsState :=
  { st with regs := fun reg => if is_arg_reg reg then .NotInit else st.regs reg }
def callee_of (next_slot : Nat) (off : BitVec 32) : Option Nat :=
  let target := ((next_slot : Int) + off.toInt).toNat
  a.ir.subprogs.findIdx? (fun s => s.entry_slot == target)
def after_subprog : AbsState :=
  let st := if passed_frame_pointer st then { st with stack := st.stack.clobber } else st
  forget_args (st.set_reg Reg.R0 AbsValue.UNKNOWN_SCALAR)
def call_subprog (slot next_slot : Nat) (off : BitVec 32) : Out AbsState :=
  match a.callee_of next_slot off with
  | none => fail (.BadTarget slot ((next_slot : Int) + off.toInt))
  | some callee => do
    let entry ← callee_entry st slot
    note (.Entry callee entry)
    return after_subprog st
/-- Argument `k` travels in register `k + 1`; `validate` caps the arguments at five. -/
def arg_reg (k : Nat) : Reg := Fin.ofNat 11 (k + 1)
/-- The relational part of a typed probe read: the offset names a field of an earlier
    trace object, at the length paired with an earlier sized region. -/
def object_field_matches (field_arg : Nat) (desc : KfuncDesc) (offset : Scalar) : Bool :=
  let object := (List.range field_arg).reverse.findSome? fun i =>
    match desc.args[i]?,st.regs (arg_reg i) with
    | some arg,.Ptr p =>
      if arg.flags.contains ArgFlags.ANY_TRACE_OBJECT && p.cls == .TraceObject then some p else none
    | _,_ => none
  let width := (List.range field_arg).findSome? fun i =>
    match desc.args[i]?,st.regs (arg_reg (i + 1)) with
    | some arg,.Scalar s => if arg.flags.contains ArgFlags.SIZED_BY_NEXT then s.as_const.bind u32_of else none
    | _,_ => none
  match offset.as_const.bind u32_of,object,width with
  | some offset,some object,some width => a.names_field object.key offset width
  | _,_,_ => false
def check_mem_arg (slot k : Nat) (arg : ArgDesc) (p : PtrVal) : Out AbsState :=
  if !arg.flags.contains ArgFlags.SIZED_BY_NEXT then fail (.KfuncSignature slot k arg)
  else do
    match ← st.get slot (arg_reg (k + 1)) with
    | .Scalar len =>
      let len_max := len.unsigned_bounds.2
      let writes := arg.flags.contains ArgFlags.UNINIT
      match p.cls with
      | .Stack =>
        match p.off.as_const with
        | none => fail (.OutOfBounds slot)
        | some off =>
          if 0 ≤ off.toInt ∨ off.toInt < -(MAX_STACK_BYTES : Int) ∨ 0 < off.toInt + len_max.toNat then
            fail (.OutOfBounds slot)
          else if writes then do
            let stack := st.stack.write_unspecified off.toInt len_max.toNat
            note (.Depth stack.depth)
            return { st with stack }
          else if !st.stack.is_initialized off.toInt len_max.toNat then fail (.UninitStack slot off.toInt)
          else return st
      | .Mem | .MapValue | .Ctx =>
        match p.size with
        | none => fail (.OutOfBounds slot)
        | some size =>
          if p.off.min.toInt < 0 ∨ size.toNat < saturating_end p.off.max len_max.toNat then
            fail (.OutOfBounds slot)
          else if writes && p.readonly then fail (.WriteToReadOnly slot)
          else return st
      | .Arena =>
        if p.off.min.toInt < 0 ∨ ARENA_WINDOW_BYTES < saturating_end p.off.max len_max.toNat then
          fail (.OutOfBounds slot)
        else if writes && p.readonly then fail (.WriteToReadOnly slot)
        else do
          note .UsesArena
          return st
      | _ => fail (.KfuncSignature slot k arg)
    | _ => fail (.KfuncSignature slot k arg)
/-- Whether an argument of class and key `p` fits a non-region parameter. -/
def class_fits (arg : ArgDesc) (kind : PtrKind) (key : TypeKey) (p : PtrVal) : Bool :=
  p.cls == kind.cls && match kind with
    | .Object | .LockGuard => p.key == key
    | .TraceObject => arg.flags.contains ArgFlags.ANY_TRACE_OBJECT || p.key == key
    | _ => true
/-- The region a pointer argument must describe, and what handing it over does. -/
def check_ptr_shape (slot k : Nat) (arg : ArgDesc) (kind : PtrKind) (key : TypeKey) (p : PtrVal) : Out AbsState :=
  if kind = .Mem then
    if arg.consumes_in_arg_position then
      if p.cls ≠ .Mem ∨ p.off.as_const ≠ some 0#64 then fail (.KfuncSignature slot k arg) else return st
    else check_mem_arg st slot k arg p
  else if !class_fits arg kind key p then fail (.KfuncSignature slot k arg)
  else if p.off.as_const ≠ some 0#64 then fail (.KfuncSignature slot k arg)
  else return st
/-- A consuming argument hands its reference back; every copy of it dies. -/
def release_arg (slot k : Nat) (arg : ArgDesc) (p : PtrVal) : Out AbsState :=
  if arg.consumes_in_arg_position then
    match p.ref_id with
    | none => fail (.ReleaseOfUnacquired slot (arg_reg k))
    | some id =>
      match st.release id with
      | (st,true) => return st.kill_ref (some id)
      | (_,false) => fail (.ReleaseOfUnacquired slot (arg_reg k))
  else return st
def note_arena (p : PtrVal) : Out Unit := if p.cls = .Arena then note .UsesArena else return ()
def check_ptr_arg (slot : Nat) (desc : KfuncDesc) (k : Nat) (arg : ArgDesc) (kind : PtrKind)
    (key : TypeKey) (p : PtrVal) : Out AbsState := do
  if p.nullable && !arg.flags.contains ArgFlags.NULLABLE then fail (.PossiblyNull slot (arg_reg k))
  else if desc.may_suspend && !p.domain.survives_await then
    fail (.PointerCrossesAwait slot (arg_reg k) p.domain)
  else if weaker_domain p.domain arg.domain ≠ arg.domain then fail (.KfuncSignature slot k arg)
  else
    let st ← check_ptr_shape st slot k arg kind key p
    note_arena p
    release_arg st slot k arg p
def check_arg (slot : Nat) (desc : KfuncDesc) (k : Nat) (arg : ArgDesc) : Out AbsState := do
  match arg.kind,← st.get slot (arg_reg k) with
  | .Scalar _ _,.Scalar s =>
    if arg.flags.contains ArgFlags.CONST && s.as_const.isNone then fail (.KfuncSignature slot k arg)
    else if arg.flags.contains ArgFlags.OBJECT_FIELD_OFFSET && !a.object_field_matches st k desc s then
      fail (.KfuncSignature slot k arg)
    else return st
  | .Ptr kind key,.Ptr p => check_ptr_arg st slot desc k arg kind key p
  | .Ptr _ _,.Scalar s =>
    -- a literal null, where the signature takes one
    if arg.flags.contains ArgFlags.NULLABLE && s.as_const == some 0#64 then return st
    else fail (.KfuncSignature slot k arg)
  | _,_ => fail (.KfuncSignature slot k arg)
def check_args (slot : Nat) (desc : KfuncDesc) : List ArgDesc → Nat → AbsState → Out AbsState
  | [],_,st => return st
  | arg :: rest,k,st => do
    let st ← a.check_arg st slot desc k arg
    check_args slot desc rest (k + 1) st
/-- The size of an acquired byte region: its constant size argument. -/
def acquired_mem_size (slot : Nat) (desc : KfuncDesc) : Except VerifyError (Option U64) :=
  if !KfuncDesc.is_acquired_mem desc.ret then .ok none
  else
    match desc.args.findIdx? (fun arg => arg.flags.contains ArgFlags.CONST) with
    | none => .error (.KfuncSignature slot 0 desc.ret)
    | some idx => do
      match ← st.get slot (arg_reg idx) with
      | .Scalar s =>
        match s.as_const with
        | some c => .ok (some c)
        | none => .error (.KfuncSignature slot idx desc.ret)
      | _ => .error (.KfuncSignature slot idx desc.ret)
/-- An await point: what does not survive dies, and a killed register that is still
    live is reported. -/
def await_point (slot i : Nat) (desc : KfuncDesc) : Except VerifyError AbsState :=
  if desc.context = .Sleepable then
    let (st,killed) := st.kill_at_await
    match killed.find? (fun entry => a.live.after_has i entry.1) with
    | some (reg,domain) => .error (.PointerCrossesAwait slot reg domain)
    | none => .ok st
  else .ok st
def return_value (slot i : Nat) (desc : KfuncDesc) (mem_size : Option U64) : Except VerifyError AbsState :=
  let is_lock := KfuncDesc.is_lock_guard desc.ret
  if desc.ret.consumes_in_arg_position then
    if is_lock && decide (1 ≤ st.live_locks) then .error (.TooManyLocks slot)
    else
      .ok ((st.acquire ⟨i,is_lock,desc.ret.domain⟩).set_reg Reg.R0
        (match value_of desc.ret (some i),mem_size with
          | .Ptr p,some size => .Ptr { p with size := some size }
          | value,_ => value))
  else .ok (st.set_reg Reg.R0 (value_of desc.ret none))
def takes_ctx (desc : KfuncDesc) : Bool :=
  desc.args.any (fun arg => match arg.kind with
    | .Ptr .Ctx _ => true
    | _ => false)
def kfunc_by_id (slot : Nat) (id : BitVec 32) : Except VerifyError KfuncDesc :=
  match a.prog.kfuncs.find? (fun desc => desc.id == id) with
  | some desc => .ok desc
  | none => .error (.UnknownKfunc slot id)
def call_kfunc (slot i : Nat) (id : BitVec 32) : Out AbsState := do
  let desc ← a.kfunc_by_id slot id
  if !a.prog.context.permits desc.context then fail (.ContextMismatch slot desc.context a.prog.context)
  else
    let st ← a.check_args slot desc desc.args 0 st
    let mem_size ← acquired_mem_size st slot desc
    note (.KfuncCall ⟨slot,desc.id,desc.addr,desc.may_suspend,desc.context⟩)
    let st ← a.await_point st slot i desc
    let st ← return_value (forget_args st) slot i desc mem_size
    return if takes_ctx desc then st.invalidate_packet_bounds else st

/-! ### One instruction -/
/-- R0 goes back to the kernel: no reference may be left and R0 must be a number. -/
def check_exit (slot : Nat) : Except VerifyError Unit :=
  match st.refs with
  | r :: _ =>
    .error (.LeakedReference slot
      (((List.finRange 11).find? (fun reg => (st.regs reg).ptr_is (fun p => p.ref_id == some r.id))).getD 0))
  | [] =>
    match st.regs Reg.R0 with
    | .NotInit => .error (.UninitRegister slot 0)
    | .Ptr _ => .error (.PointerArithmetic slot 0)
    | .Scalar _ => .ok ()
def step (i : Nat) : Out AbsState :=
  let insn := a.ir.insn i
  let slot := insn.slot
  match insn.op with
  | .Alu wide op dst src => alu st slot wide op dst src
  | .Neg wide dst => do
    let d ← st.get_scalar slot dst
    st.set slot dst (.Scalar (d.neg_op wide))
  | .Mov wide dst src sign_extend => do
    let v ← st.source slot src wide
    st.set slot dst (mov_value wide sign_extend v)
  | .Div wide signed dst src => do
    let d ← st.get_scalar slot dst
    let s ← st.scalar_source slot src wide
    st.set slot dst (.Scalar (d.div_op wide signed s))
  | .Mod wide signed dst src => do
    let d ← st.get_scalar slot dst
    let s ← st.scalar_source slot src wide
    st.set slot dst (.Scalar (d.mod_op wide signed s))
  | .End dst order width => do
    let d ← st.get_scalar slot dst
    st.set slot dst (.Scalar (d.end_op order width))
  | .AddrSpaceCast dst src dst_as src_as => addr_space_cast st slot dst src dst_as src_as
  | .Load size sign_extend dst src off => a.load st slot size sign_extend dst src off
  | .Store size dst off src => a.store st slot size dst off src
  | .Atomic size op dst src off => a.atomic st slot size op dst src off
  | .LoadImm64 dst value => do
    let v ← a.load_imm64 slot value
    st.set slot dst v
  | .Call (.Subprog off) => a.call_subprog st slot insn.next_slot off
  | .Call (.Kfunc id) => a.call_kfunc st slot i id
  | .Jump _ | .JumpCond _ _ _ _ _ | .MayGoto _ => return st
  | .Exit => do
    check_exit st slot
    return st
end Analysis
end Narf.Bpf
