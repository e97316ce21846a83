import Mathlib

/-! The instruction set of the BPF subsystem: the eight-byte encoded slot, the raw
opcode fields, and the structured decoding every later stage works on. Machine
words are bit vectors; an `i16`, `i32` or `i64` is the bit vector of its two's
complement, read signed by `toInt` where the source compares or widens it. -/

namespace Narf.Bpf

abbrev U64 := BitVec 64
abbrev I64 := BitVec 64

namespace Opcode
def CLASS_MASK : BitVec 8 := 0x07#8
def OP_MASK : BitVec 8 := 0xf0#8
def SRC_MASK : BitVec 8 := 0x08#8
def SIZE_MASK : BitVec 8 := 0x18#8
def MODE_MASK : BitVec 8 := 0xe0#8
def SRC_K : BitVec 8 := 0x00#8
def SRC_X : BitVec 8 := 0x08#8
def SIZE_W : BitVec 8 := 0x00#8
def SIZE_H : BitVec 8 := 0x08#8
def SIZE_B : BitVec 8 := 0x10#8
def MODE_IMM : BitVec 8 := 0x00#8
def MODE_ABS : BitVec 8 := 0x20#8
def MODE_IND : BitVec 8 := 0x40#8
def MODE_MEM : BitVec 8 := 0x60#8
def MODE_MEMSX : BitVec 8 := 0x80#8
def MODE_ATOMIC : BitVec 8 := 0xc0#8
def ALU_ADD : BitVec 8 := 0x00#8
def ALU_SUB : BitVec 8 := 0x10#8
def ALU_MUL : BitVec 8 := 0x20#8
def ALU_DIV : BitVec 8 := 0x30#8
def ALU_OR : BitVec 8 := 0x40#8
def ALU_AND : BitVec 8 := 0x50#8
def ALU_LSH : BitVec 8 := 0x60#8
def ALU_RSH : BitVec 8 := 0x70#8
def ALU_NEG : BitVec 8 := 0x80#8
def ALU_MOD : BitVec 8 := 0x90#8
def ALU_XOR : BitVec 8 := 0xa0#8
def ALU_MOV : BitVec 8 := 0xb0#8
def ALU_ARSH : BitVec 8 := 0xc0#8
def ALU_END : BitVec 8 := 0xd0#8
def JMP_JA : BitVec 8 := 0x00#8
def JMP_JEQ : BitVec 8 := 0x10#8
def JMP_JGT : BitVec 8 := 0x20#8
def JMP_JGE : BitVec 8 := 0x30#8
def JMP_JSET : BitVec 8 := 0x40#8
def JMP_JNE : BitVec 8 := 0x50#8
def JMP_JSGT : BitVec 8 := 0x60#8
def JMP_JSGE : BitVec 8 := 0x70#8
def JMP_CALL : BitVec 8 := 0x80#8
def JMP_EXIT : BitVec 8 := 0x90#8
def JMP_JLT : BitVec 8 := 0xa0#8
def JMP_JLE : BitVec 8 := 0xb0#8
def JMP_JSLT : BitVec 8 := 0xc0#8
def JMP_JSLE : BitVec 8 := 0xd0#8
def JMP_JCOND : BitVec 8 := 0xe0#8
def JCOND_MAY_GOTO : BitVec 32 := 0#32
def ATOMIC_FETCH : BitVec 32 := 0x01#32
def ATOMIC_ADD : BitVec 32 := 0x00#32
def ATOMIC_OR : BitVec 32 := 0x40#32
def ATOMIC_AND : BitVec 32 := 0x50#32
def ATOMIC_XOR : BitVec 32 := 0xa0#32
def ATOMIC_XCHG : BitVec 32 := 0xe1#32
def ATOMIC_CMPXCHG : BitVec 32 := 0xf1#32
def ATOMIC_LOAD_ACQ : BitVec 32 := 0x100#32
def ATOMIC_STORE_REL : BitVec 32 := 0x110#32
def OFF_SIGNED : BitVec 16 := 1#16
def OFF_ADDR_SPACE_CAST : BitVec 16 := 1#16
def PSEUDO_IMM64 : BitVec 8 := 0#8
def PSEUDO_MAP_FD : BitVec 8 := 1#8
def PSEUDO_MAP_VALUE : BitVec 8 := 2#8
def PSEUDO_BTF_ID : BitVec 8 := 3#8
def PSEUDO_FUNC : BitVec 8 := 4#8
def PSEUDO_MAP_IDX : BitVec 8 := 5#8
def PSEUDO_MAP_IDX_VALUE : BitVec 8 := 6#8
def CALL_HELPER : BitVec 8 := 0#8
def CALL_PSEUDO : BitVec 8 := 1#8
def CALL_KFUNC : BitVec 8 := 2#8
end Opcode

open Opcode

inductive Class where
  | Ld | Ldx | St | Stx | Alu | Jmp | Jmp32 | Alu64
/-- The low three bits of the opcode; every pattern is a class. -/
def Class.from_code (code : BitVec 8) : Class :=
  match (code &&& CLASS_MASK).toNat with
  | 0 => .Ld
  | 1 => .Ldx
  | 2 => .St
  | 3 => .Stx
  | 4 => .Alu
  | 5 => .Jmp
  | 6 => .Jmp32
  | _ => .Alu64

inductive Size where
  | B | H | W | Dw
  deriving DecidableEq

namespace Size
def from_code (code : BitVec 8) : Size :=
  if code &&& SIZE_MASK = SIZE_W then .W
  else if code &&& SIZE_MASK = SIZE_H then .H
  else if code &&& SIZE_MASK = SIZE_B then .B
  else .Dw
def bytes : Size → Nat
  | .B => 1
  | .H => 2
  | .W => 4
  | .Dw => 8
def bits (size : Size) : Nat := size.bytes * 8
end Size
/-- A register number. The bound `R0..=R10` is the invariant `Reg::new` checks. -/
abbrev Reg := Fin 11
instance reg_ne_zero : NeZero 11 := ⟨by decide⟩

namespace Reg
def R0 : Reg := 0
def R10 : Reg := 10
def new (n : BitVec 8) : Option Reg :=
  if bound : n.toNat < 11 then some ⟨n.toNat,bound⟩ else none
def is_frame_ptr (reg : Reg) : Bool := reg == R10
end Reg
inductive Source where
  | Imm (imm : BitVec 32)
  | Reg (reg : Reg)
inductive ByteOrder where
  | Little | Big | Swap
inductive AluOp where
  | Add | Sub | Mul | Or | And | Lsh | Rsh | Xor | Arsh
  deriving DecidableEq
inductive CondOp where
  | Eq | Ne | Gt | Ge | Lt | Le | Sgt | Sge | Slt | Sle | Set
inductive AtomicOp where
  | Add (fetch : Bool)
  | Or (fetch : Bool)
  | And (fetch : Bool)
  | Xor (fetch : Bool)
  | Xchg
  | Cmpxchg
  | LoadAcquire
  | StoreRelease
  deriving DecidableEq

namespace AtomicOp
/-- The operation an atomic's `imm` field selects; `none` is unassigned. -/
def from_imm (imm : BitVec 32) : Option AtomicOp :=
  let fetch := imm &&& ATOMIC_FETCH != 0#32
  if imm = ATOMIC_XCHG then some .Xchg
  else if imm = ATOMIC_CMPXCHG then some .Cmpxchg
  else if imm = ATOMIC_LOAD_ACQ then some .LoadAcquire
  else if imm = ATOMIC_STORE_REL then some .StoreRelease
  else if imm &&& ~~~ATOMIC_FETCH = ATOMIC_ADD then some (.Add fetch)
  else if imm &&& ~~~ATOMIC_FETCH = ATOMIC_OR then some (.Or fetch)
  else if imm &&& ~~~ATOMIC_FETCH = ATOMIC_AND then some (.And fetch)
  else if imm &&& ~~~ATOMIC_FETCH = ATOMIC_XOR then some (.Xor fetch)
  else none
def writes_src : AtomicOp → Bool
  | .Add fetch | .Or fetch | .And fetch | .Xor fetch => fetch
  | .Xchg | .LoadAcquire => true
  | .Cmpxchg | .StoreRelease => false
end AtomicOp
/-- One encoded instruction slot, `dst` in the low nibble of `regs`. -/
structure Insn where
  code : BitVec 8
  regs : BitVec 8
  off : BitVec 16
  imm : BitVec 32
  deriving Inhabited

namespace Insn
def dst_raw (insn : Insn) : BitVec 8 := insn.regs &&& 0x0f#8
def src_raw (insn : Insn) : BitVec 8 := insn.regs >>> 4
end Insn
inductive DecodeError where
  | BadRegister (reg : BitVec 8)
  | BadOp (op : BitVec 8)
  | BadMode (mode : BitVec 8)
  | BadOff (off : BitVec 16)
  | BadImm (imm : BitVec 32)
  | TruncatedImm64
  | MalformedImm64
  | HelperCall (imm : BitVec 32)
  | LegacyPacketLoad
  deriving DecidableEq
inductive Imm64 where
  | Value (value : U64)
  | MapFd (fd : BitVec 32)
  | MapValue (fd value_offset : BitVec 32)
  | BtfId (id : BitVec 32)
  | SubprogAddr (off : BitVec 32)
  | MapIdx (idx : BitVec 32)
  | MapIdxValue (idx value_offset : BitVec 32)
inductive CallTarget where
  | Subprog (off : BitVec 32)
  | Kfunc (id : BitVec 32)
/-- A structured view of one instruction; a decoding, not an IR. -/
inductive Decoded where
  | Alu (wide : Bool) (op : AluOp) (dst : Reg) (src : Source)
  | Neg (wide : Bool) (dst : Reg)
  | Mov (wide : Bool) (dst : Reg) (src : Source) (sign_extend : Option Nat)
  | Div (wide signed : Bool) (dst : Reg) (src : Source)
  | Mod (wide signed : Bool) (dst : Reg) (src : Source)
  | End (dst : Reg) (order : ByteOrder) (width : Nat)
  | AddrSpaceCast (dst src : Reg) (dst_as src_as : BitVec 16)
  | Load (size : Size) (sign_extend : Bool) (dst src : Reg) (off : BitVec 16)
  | Store (size : Size) (dst : Reg) (off : BitVec 16) (src : Source)
  | Atomic (size : Size) (op : AtomicOp) (dst src : Reg) (off : BitVec 16)
  | LoadImm64 (dst : Reg) (value : Imm64)
  | Jump (off : BitVec 32)
  | JumpCond (wide : Bool) (op : CondOp) (dst : Reg) (src : Source) (off : BitVec 16)
  | MayGoto (off : BitVec 16)
  | Call (target : CallTarget)
  | Exit

/-! ### Decoding -/
def src_reg (insn : Insn) : Except DecodeError Reg :=
  match Reg.new insn.src_raw with
  | some reg => .ok reg
  | none => .error (.BadRegister insn.src_raw)
/-- The operand the source bit selects; the register field is checked only when read. -/
def source_operand (insn : Insn) : Except DecodeError Source :=
  if insn.code &&& SRC_MASK = SRC_X then
    match src_reg insn with
    | .ok reg => .ok (.Reg reg)
    | .error error => .error error
  else .ok (.Imm insn.imm)
/-- The nine binary operations that share the `Alu` form. -/
def AluOp.of_code (op : BitVec 8) : Option AluOp :=
  if op = ALU_ADD then some .Add
  else if op = ALU_SUB then some .Sub
  else if op = ALU_MUL then some .Mul
  else if op = ALU_OR then some .Or
  else if op = ALU_AND then some .And
  else if op = ALU_LSH then some .Lsh
  else if op = ALU_RSH then some .Rsh
  else if op = ALU_XOR then some .Xor
  else if op = ALU_ARSH then some .Arsh
  else none
def CondOp.of_code (op : BitVec 8) : Option CondOp :=
  if op = JMP_JEQ then some .Eq
  else if op = JMP_JNE then some .Ne
  else if op = JMP_JGT then some .Gt
  else if op = JMP_JGE then some .Ge
  else if op = JMP_JLT then some .Lt
  else if op = JMP_JLE then some .Le
  else if op = JMP_JSGT then some .Sgt
  else if op = JMP_JSGE then some .Sge
  else if op = JMP_JSLT then some .Slt
  else if op = JMP_JSLE then some .Sle
  else if op = JMP_JSET then some .Set
  else none
/-- Plain move, sign-extending move, or the address-space cast at `off == 1`. -/
def decode_mov (insn : Insn) (wide : Bool) (dst : Reg) : Except DecodeError Decoded := do
  if wide && insn.code &&& SRC_MASK == SRC_X && insn.off == OFF_ADDR_SPACE_CAST then
    let src ← src_reg insn
    return .AddrSpaceCast dst src ((insn.imm >>> 16).setWidth 16) (insn.imm.setWidth 16)
  let sign_extend ←
    if insn.off = 0#16 then .ok none
    else if insn.off = 8#16 then .ok (some 8)
    else if insn.off = 16#16 then .ok (some 16)
    else if insn.off = 32#16 then .ok (some 32)
    else .error (.BadOff insn.off)
  let src ← source_operand insn
  return .Mov wide dst src sign_extend
def decode_end (insn : Insn) (wide : Bool) (dst : Reg) : Except DecodeError Decoded := do
  let order ←
    if wide then
      if insn.code &&& SRC_MASK != SRC_K then .error (.BadOp insn.code) else .ok ByteOrder.Swap
    else if insn.code &&& SRC_MASK = SRC_K then .ok .Little
    else .ok .Big
  let width ←
    if insn.imm = 16#32 then .ok 16
    else if insn.imm = 32#32 then .ok 32
    else if insn.imm = 64#32 then .ok 64
    else .error (.BadImm insn.imm)
  return .End dst order width
def decode_alu (insn : Insn) (wide : Bool) (dst : Reg) : Except DecodeError Decoded := do
  let op := insn.code &&& OP_MASK
  match AluOp.of_code op with
  | some alu =>
    let src ← source_operand insn
    return .Alu wide alu dst src
  | none =>
    if op = ALU_NEG then
      if insn.code &&& SRC_MASK != SRC_K || insn.imm != 0#32 || insn.off != 0#16 then
        .error (.BadOp insn.code)
      else return .Neg wide dst
    else if op = ALU_DIV ∨ op = ALU_MOD then
      let signed ←
        if insn.off = 0#16 then .ok false
        else if insn.off = OFF_SIGNED then .ok true
        else .error (.BadOff insn.off)
      let src ← source_operand insn
      if op = ALU_DIV then return .Div wide signed dst src
      else return .Mod wide signed dst src
    else if op = ALU_MOV then decode_mov insn wide dst
    else if op = ALU_END then decode_end insn wide dst
    else .error (.BadOp op)
/-- `JMP | JA` takes its displacement from `off`, `JMP32 | JA` from `imm`. -/
def decode_jmp (insn : Insn) (wide : Bool) (dst : Reg) : Except DecodeError Decoded := do
  let op := insn.code &&& OP_MASK
  if op = JMP_JA then
    if wide then
      if insn.imm != 0#32 then .error (.BadImm insn.imm) else return .Jump (insn.off.signExtend 32)
    else if insn.off != 0#16 then .error (.BadOff insn.off)
    else return .Jump insn.imm
  else if op = JMP_CALL ∧ wide then
    if insn.src_raw = CALL_PSEUDO then return .Call (.Subprog insn.imm)
    else if insn.src_raw = CALL_KFUNC then return .Call (.Kfunc insn.imm)
    else if insn.src_raw = CALL_HELPER then .error (.HelperCall insn.imm)
    else .error (.BadRegister insn.src_raw)
  else if op = JMP_EXIT ∧ wide then
    if insn.regs != 0#8 || insn.off != 0#16 || insn.imm != 0#32 then .error (.BadOp insn.code)
    else return .Exit
  else if op = JMP_JCOND ∧ wide then
    if insn.imm = JCOND_MAY_GOTO then return .MayGoto insn.off else .error (.BadImm insn.imm)
  else
    match CondOp.of_code op with
    | none => .error (.BadOp op)
    | some cond =>
      let src ← source_operand insn
      return .JumpCond wide cond dst src insn.off
def decode_ldx (insn : Insn) (dst : Reg) : Except DecodeError Decoded := do
  let mode := insn.code &&& MODE_MASK
  let sign_extend ←
    if mode = MODE_MEM then .ok false
    else if mode = MODE_MEMSX then .ok true
    else .error (.BadMode mode)
  let size := Size.from_code insn.code
  if sign_extend && size == .Dw then .error (.BadMode MODE_MEMSX)
  else
    let src ← src_reg insn
    return .Load size sign_extend dst src insn.off
def decode_st (insn : Insn) (dst : Reg) : Except DecodeError Decoded :=
  if insn.code &&& MODE_MASK != MODE_MEM then .error (.BadMode (insn.code &&& MODE_MASK))
  else .ok (.Store (Size.from_code insn.code) dst insn.off (.Imm insn.imm))
def decode_stx (insn : Insn) (dst : Reg) : Except DecodeError Decoded := do
  let mode := insn.code &&& MODE_MASK
  if mode = MODE_MEM then
    let src ← src_reg insn
    return .Store (Size.from_code insn.code) dst insn.off (.Reg src)
  else if mode = MODE_ATOMIC then
    match AtomicOp.from_imm insn.imm with
    | none => .error (.BadImm insn.imm)
    | some op =>
      let size := Size.from_code insn.code
      if size != .W && size != .Dw then .error (.BadMode (insn.code &&& SIZE_MASK))
      else
        let src ← src_reg insn
        return .Atomic size op dst src insn.off
  else .error (.BadMode mode)
/-- A pseudo immediate whose high half must be clear. -/
def low_half_only (next : Insn) (value : Imm64) : Except DecodeError Imm64 :=
  if next.imm != 0#32 then .error .MalformedImm64 else .ok value
def decode_imm64 (insn next : Insn) : Except DecodeError Imm64 :=
  if insn.src_raw = PSEUDO_IMM64 then
    .ok (.Value ((next.imm.setWidth 64 <<< 32) ||| insn.imm.setWidth 64))
  else if insn.src_raw = PSEUDO_MAP_FD then low_half_only next (.MapFd insn.imm)
  else if insn.src_raw = PSEUDO_MAP_VALUE then .ok (.MapValue insn.imm next.imm)
  else if insn.src_raw = PSEUDO_BTF_ID then low_half_only next (.BtfId insn.imm)
  else if insn.src_raw = PSEUDO_FUNC then low_half_only next (.SubprogAddr insn.imm)
  else if insn.src_raw = PSEUDO_MAP_IDX then low_half_only next (.MapIdx insn.imm)
  else if insn.src_raw = PSEUDO_MAP_IDX_VALUE then .ok (.MapIdxValue insn.imm next.imm)
  else .error (.BadRegister insn.src_raw)
def decode_ld (insn : Insn) (next : Option Insn) (dst : Reg) : Except DecodeError Decoded := do
  let mode := insn.code &&& MODE_MASK
  if mode = MODE_IMM then
    if Size.from_code insn.code != .Dw then .error (.BadMode (insn.code &&& SIZE_MASK))
    else
      match next with
      | none => .error .TruncatedImm64
      | some next =>
        if next.code != 0#8 || next.regs != 0#8 || next.off != 0#16 then .error .MalformedImm64
        else
          let value ← decode_imm64 insn next
          return .LoadImm64 dst value
  else if mode = MODE_ABS ∨ mode = MODE_IND then .error .LegacyPacketLoad
  else .error (.BadMode mode)
/-- Decode the instruction at `index` with the number of slots it takes. The source
    indexes the slice, so every caller keeps `index` in range; outside it the model
    decodes the zero slot. -/
def decode (prog : List Insn) (index : Nat) : Except DecodeError (Decoded × Nat) := do
  let insn := prog.getD index default
  let dst ←
    match Reg.new insn.dst_raw with
    | some reg => .ok reg
    | none => .error (.BadRegister insn.dst_raw)
  match Class.from_code insn.code with
  | .Alu => return (← decode_alu insn false dst,1)
  | .Alu64 => return (← decode_alu insn true dst,1)
  | .Jmp => return (← decode_jmp insn true dst,1)
  | .Jmp32 => return (← decode_jmp insn false dst,1)
  | .Ldx => return (← decode_ldx insn dst,1)
  | .St => return (← decode_st insn dst,1)
  | .Stx => return (← decode_stx insn dst,1)
  | .Ld => return (← decode_ld insn prog[index + 1]? dst,2)
end Narf.Bpf
