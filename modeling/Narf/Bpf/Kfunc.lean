import Narf.Bpf.Isa

/-! Kernel-function descriptors: the types, validity domains and obligations a kfunc
signature carries, and the self-consistency check made at registration. A descriptor's
symbol name is not read by the verifier and is left out. -/

namespace Narf.Bpf

inductive ValidityDomain where
  | NonPreemptible | RcuRead | SleepableRcuRead | Owned | Static
  deriving DecidableEq

namespace ValidityDomain
def survives_await : ValidityDomain → Bool
  | .NonPreemptible | .RcuRead => false
  | .SleepableRcuRead | .Owned | .Static => true
def requires_release (domain : ValidityDomain) : Bool := domain == .Owned
end ValidityDomain
/-- The pointee type of an object pointer; zero is "no type". -/
abbrev TypeKey := BitVec 32

namespace TypeKey
def NONE : TypeKey := 0#32
def is_some (key : TypeKey) : Bool := key != NONE
end TypeKey
def fnv1a32_nonzero (bytes : List (BitVec 8)) : BitVec 32 :=
  let hash := bytes.foldl (fun hash byte => (hash ^^^ byte.setWidth 32) * 0x01000193#32) 0x811c9dc5#32
  if hash = 0#32 then 1#32 else hash
def MAP_HANDLE_TYPE_NAME : List (BitVec 8) :=
  ['n','a','r','f','_','b','p','f','_','m','a','p'].map (fun c => BitVec.ofNat 8 c.toNat)
def MAP_HANDLE_TYPE_KEY : TypeKey := fnv1a32_nonzero MAP_HANDLE_TYPE_NAME
inductive PtrKind where
  | Object | TraceObject | Mem | MemEnd | Arena | Ctx | MapValue | LockGuard
  deriving DecidableEq
inductive TypeKind where
  | Scalar (bits : Nat) (signed : Bool)
  | Ptr (kind : PtrKind) (key : TypeKey)
  | Void
  deriving DecidableEq

namespace TypeKind
def is_scalar : TypeKind → Bool
  | .Scalar _ _ => true
  | _ => false
end TypeKind
abbrev ArgFlags := BitVec 16

namespace ArgFlags
def NONE : ArgFlags := 0#16
def NULLABLE : ArgFlags := 1#16
def UNINIT : ArgFlags := 2#16
def SIZED_BY_NEXT : ArgFlags := 4#16
def CONST : ArgFlags := 8#16
def READONLY : ArgFlags := 16#16
def ANY_TRACE_OBJECT : ArgFlags := 32#16
def OBJECT_FIELD_OFFSET : ArgFlags := 64#16
def contains (flags other : ArgFlags) : Bool := flags &&& other == other
end ArgFlags
structure ArgDesc where
  kind : TypeKind
  domain : ValidityDomain
  flags : ArgFlags
  deriving DecidableEq

namespace ArgDesc
def SCALAR64 : ArgDesc := ⟨.Scalar 64 false,.Static,ArgFlags.NONE⟩
/-- A guard is linear by its kind; an object or byte region by its domain. -/
def consumes_in_arg_position (desc : ArgDesc) : Bool :=
  match desc.kind with
  | .Ptr .LockGuard _ => true
  | .Ptr .Object _ | .Ptr .Mem _ => desc.domain.requires_release
  | _ => false
end ArgDesc

inductive Context where
  | Atomic | Sleepable
  deriving DecidableEq
/-- Whether a kfunc that needs `required` may be called from this context. -/
def Context.permits : Context → Context → Bool
  | .Sleepable,_ => true
  | .Atomic,.Atomic => true
  | .Atomic,.Sleepable => false
structure KfuncDesc where
  id : BitVec 32
  addr : U64
  args : List ArgDesc
  ret : ArgDesc
  may_suspend : Bool
  context : Context
  deriving DecidableEq
def MAX_KFUNC_ARGS : Nat := 5
inductive KfuncError where
  | TooManyArgs (count : Nat)
  | NullAddress
  | SuspendingAtomicShim
  | MissingSizeArg (index : Nat)
  | ScalarWithDomain (index : Nat)
  | ConstOnNonScalar (index : Nat)
  | AnyTraceObjectOnWrongType (index : Nat)
  | FieldOffsetOnWrongType (index : Nat)
  | UnpairedTraceObject (index : Nat)
  | UnpairedFieldOffset (index : Nat)
  | VoidArgument (index : Nat)
  | SleepableLockGuard
  | UntypedLockGuard
  | NonNullableLockGuard
  | TraceObjectReturn
  | SleepableLockGuardArg (index : Nat)
  | UntypedLockGuardArg (index : Nat)
  | BadScalarWidth (index bits : Nat)
  | AcquiredMemWithoutConstSize
  deriving DecidableEq
/-- The scalar widths an access can have. Return values are checked at index `usize::MAX`. -/
def validate_type (desc : ArgDesc) (index : Nat) : Except KfuncError Unit :=
  match desc.kind with
  | .Scalar bits _ =>
    if bits = 8 ∨ bits = 16 ∨ bits = 32 ∨ bits = 64 then .ok () else .error (.BadScalarWidth index bits)
  | _ => .ok ()
def USIZE_MAX : Nat := 2 ^ 64 - 1

namespace KfuncDesc
def is_lock_guard (desc : ArgDesc) : Bool :=
  match desc.kind with
  | .Ptr .LockGuard _ => true
  | _ => false
/-- The checks on one argument, in the source's order; `next` is the argument after it. -/
def validate_arg (desc : ArgDesc) (index : Nat) (next : Option ArgDesc) : Except KfuncError Unit := do
  validate_type desc index
  if desc.flags.contains ArgFlags.SIZED_BY_NEXT && !(next.any (fun arg => arg.kind.is_scalar)) then
    .error (.MissingSizeArg index)
  else if desc.kind.is_scalar && desc.domain != .Static then .error (.ScalarWithDomain index)
  else if desc.kind = .Void then .error (.VoidArgument index)
  else if desc.kind = .Ptr .LockGuard TypeKey.NONE then .error (.UntypedLockGuardArg index)
  else if desc.flags.contains ArgFlags.CONST && !desc.kind.is_scalar then .error (.ConstOnNonScalar index)
  else if desc.flags.contains ArgFlags.ANY_TRACE_OBJECT && desc.kind != .Ptr .TraceObject TypeKey.NONE then
    .error (.AnyTraceObjectOnWrongType index)
  else if desc.flags.contains ArgFlags.OBJECT_FIELD_OFFSET &&
      (!desc.flags.contains ArgFlags.CONST || !desc.kind.is_scalar) then
    .error (.FieldOffsetOnWrongType index)
  else if is_lock_guard desc && desc.domain.survives_await then .error (.SleepableLockGuardArg index)
  else .ok ()
def validate_args : List ArgDesc → Nat → Except KfuncError Unit
  | [],_ => .ok ()
  | arg :: rest,index => do
    validate_arg arg index rest.head?
    validate_args rest (index + 1)
def flagged (args : List ArgDesc) (flag : ArgFlags) : Nat := args.countP (fun arg => arg.flags.contains flag)
/-- Each generic trace object needs exactly one later field offset. -/
def validate_trace_objects (args : List ArgDesc) : List Nat → Except KfuncError Unit
  | [] => .ok ()
  | index :: rest =>
    if (args[index]?.any (fun arg => arg.flags.contains ArgFlags.ANY_TRACE_OBJECT)) &&
        flagged (args.drop (index + 1)) ArgFlags.OBJECT_FIELD_OFFSET != 1 then
      .error (.UnpairedTraceObject index)
    else validate_trace_objects args rest
/-- Each field offset needs exactly one earlier trace object and one earlier sized region. -/
def validate_field_offsets (args : List ArgDesc) : List Nat → Except KfuncError Unit
  | [] => .ok ()
  | index :: rest =>
    if (args[index]?.any (fun arg => arg.flags.contains ArgFlags.OBJECT_FIELD_OFFSET)) &&
        (flagged (args.take index) ArgFlags.ANY_TRACE_OBJECT != 1 ||
          flagged (args.take index) ArgFlags.SIZED_BY_NEXT != 1) then
      .error (.UnpairedFieldOffset index)
    else validate_field_offsets args rest
def is_acquired_mem (desc : ArgDesc) : Bool :=
  match desc.kind with
  | .Ptr .Mem _ => desc.consumes_in_arg_position
  | _ => false
def is_trace_object (desc : ArgDesc) : Bool :=
  match desc.kind with
  | .Ptr .TraceObject _ => true
  | _ => false
def validate (desc : KfuncDesc) : Except KfuncError Unit := do
  if MAX_KFUNC_ARGS < desc.args.length then throw (.TooManyArgs desc.args.length)
  if desc.addr = 0#64 then throw .NullAddress
  if desc.may_suspend && desc.context != .Sleepable then throw .SuspendingAtomicShim
  validate_type desc.ret USIZE_MAX
  if is_trace_object desc.ret then throw .TraceObjectReturn
  if desc.ret.kind = .Ptr .LockGuard TypeKey.NONE then throw .UntypedLockGuard
  if is_lock_guard desc.ret && !desc.ret.flags.contains ArgFlags.NULLABLE then throw .NonNullableLockGuard
  validate_args desc.args 0
  validate_trace_objects desc.args (List.range desc.args.length)
  validate_field_offsets desc.args (List.range desc.args.length)
  if is_lock_guard desc.ret && desc.ret.domain.survives_await then throw .SleepableLockGuard
  if is_acquired_mem desc.ret && flagged desc.args ArgFlags.CONST != 1 then throw .AcquiredMemWithoutConstSize
end KfuncDesc
end Narf.Bpf
