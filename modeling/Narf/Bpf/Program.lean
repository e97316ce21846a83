import Narf.Bpf.Kfunc

/-! What the verifier is given and what it returns: the program with its descriptors,
the verified artifact with its site tables, and the errors. -/

namespace Narf.Bpf

structure ObjectField where
  offset : BitVec 32
  size : BitVec 32
structure ObjectDesc where
  key : TypeKey
  size : BitVec 32
  fields : List ObjectField
/-- A map a program may name. The key size and entry count are read by other
    components only. -/
structure MapDesc where
  fd : BitVec 32
  fd_array_idx : Option (BitVec 32)
  value_size : BitVec 32
structure Program where
  insns : List Insn
  context : Context
  ctx_fields : List ArgDesc
  kfuncs : List KfuncDesc
  maps : List MapDesc
  objects : List ObjectDesc
/-- An access that may fault, and the register a fixup must zero. -/
structure FaultSite where
  insn_index : Nat
  dst_reg : Option Reg
  arena : Bool
structure BareAccessSite where
  insn_index : Nat
structure TypedLoadSite where
  insn_index : Nat
  field_offset : BitVec 32
  size : BitVec 32
structure KfuncCallSite where
  insn_index : Nat
  id : BitVec 32
  addr : U64
  may_suspend : Bool
  context : Context
structure SubprogInfo where
  start : Nat
  stack_bytes : Nat
structure VerifiedProgram where
  insns : List Insn
  context : Context
  max_stack_bytes : Nat
  initial_fuel : Nat
  fault_sites : List FaultSite
  bare_access_sites : List BareAccessSite
  typed_load_sites : List TypedLoadSite
  subprogs : List SubprogInfo
  uses_arena : Bool
  kfunc_calls : List KfuncCallSite

inductive VerifyError where
  | Decode (at_ : Nat) (err : DecodeError)
  | Empty
  | FallsOffEnd (at_ : Nat)
  | BadTarget (at_ : Nat) (target : Int)
  | BadCtxField (field : Nat) (err : KfuncError)
  | BadObjectDescriptor (object : Nat)
  | CrossSubprogEdge (at_ target : Nat)
  | UninitRegister (at_ : Nat) (reg : Reg)
  | WriteToFramePointer (at_ : Nat)
  | OutOfBounds (at_ : Nat)
  | UnknownKfunc (at_ : Nat) (id : BitVec 32)
  | KfuncSignature (at_ arg : Nat) (expected : ArgDesc)
  | ContextMismatch (at_ : Nat) (required actual : Context)
  | PointerCrossesAwait (at_ : Nat) (reg : Reg) (domain : ValidityDomain)
  | LeakedReference (at_ : Nat) (reg : Reg)
  | ReleaseOfUnacquired (at_ : Nat) (reg : Reg)
  | TooManyLocks (at_ : Nat)
  | NotAPointer (at_ : Nat) (reg : Reg)
  | PointerArithmetic (at_ : Nat) (reg : Reg)
  | PossiblyNull (at_ : Nat) (reg : Reg)
  | WriteToReadOnly (at_ : Nat)
  | UninitStack (at_ : Nat) (off : Int)
  | Recursion (at_ : Nat)
  | StackTooDeep (needed limit : Nat)
  | CallDepth (needed limit : Nat)
  | Kfunc (err : KfuncError)
  | OpaqueDeref (at_ : Nat) (reg : Reg)
  | TypedFieldMismatch (at_ : Nat) (reg : Reg)
  | ArenaOutOfWindow (at_ : Nat) (reg : Reg)
  | FixpointDiverged (subprog rounds : Nat)
  | UnknownMap (at_ : Nat) (fd : BitVec 32)
  | MapValueOffset (at_ : Nat) (off size : BitVec 32)
  | BadAddrSpaceCast (at_ : Nat) (dst_as src_as : BitVec 16)
  | NotImplemented (what : String)
  deriving DecidableEq

def ARENA_WINDOW_BYTES : Nat := 4 <<< 30
def MAX_CALL_DEPTH : Nat := 8
def DEFAULT_FUEL : Nat := 1 <<< 20
end Narf.Bpf
