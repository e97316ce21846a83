import Narf.Bpf.Cfg
import Narf.Bpf.Program

/-! The instruction-level IR: one entry per decoded instruction, basic blocks with their
successors, subprograms, widening points and widening thresholds. The source builds the
block tables by filling vectors in place; here each table is the function it ends up as.
Tables no later pass reads (`back_edges`, `idom`, `rpo`, `scc`) live inside `Cfg`. -/

namespace Narf.Bpf

structure IrInsn where
  op : Decoded
  slot : Nat
  width : Nat
def IrInsn.next_slot (insn : IrInsn) : Nat := insn.slot + insn.width
structure Block where
  start : Nat
  stop : Nat
  succs : List Nat
  preds : List Nat
  subprog : Nat
  widen_here : Bool
  deriving Inhabited
structure Subprog where
  entry_slot : Nat
  entry_block : Nat
  callees : List Nat
  deriving Inhabited
structure Ir where
  insns : List IrInsn
  ir_of_slot : Nat → Option Nat
  blocks : List Block
  block_of : Nat → Nat
  subprogs : List Subprog
  thresholds : List I64

/-! ### Decoding and successors -/
/-- Decode every slot, in order. Each step consumes at least one slot, so the program's
    length is enough fuel. -/
def decode_slots (insns : List Insn) : Nat → Nat → Except VerifyError (List IrInsn)
  | 0,slot =>
    if slot = insns.length then .ok [] else .error (.Decode (insns.length - 1) .TruncatedImm64)
  | fuel + 1,slot =>
    if slot < insns.length then
      match decode insns slot with
      | .error err => .error (.Decode slot err)
      | .ok (op,width) =>
        match decode_slots insns fuel (slot + width) with
        | .error err => .error err
        | .ok rest => .ok (⟨op,slot,width⟩ :: rest)
    else if slot = insns.length then .ok []
    else .error (.Decode (insns.length - 1) .TruncatedImm64)
def ir_of_slot (ir : List IrInsn) (slot : Nat) : Option Nat := ir.findIdx? (fun insn => insn.slot == slot)

section Successors
variable (count : Nat) (ir : List IrInsn)
def branch (insn : IrInsn) (off : Int) : Except VerifyError Nat :=
  let target := (insn.next_slot : Int) + off
  if target < 0 ∨ (count : Int) ≤ target ∨ ir_of_slot ir target.toNat = none then
    .error (.BadTarget insn.slot target)
  else .ok target.toNat
def fallthrough (insn : IrInsn) : Except VerifyError Nat :=
  if count ≤ insn.next_slot then .error (.FallsOffEnd insn.slot) else .ok insn.next_slot
/-- The slots control can reach from an instruction, and the subprogram entry it names. -/
def successors_of (insn : IrInsn) : Except VerifyError (List Nat × Option Nat) :=
  match insn.op with
  | .Exit => .ok ([],none)
  | .Jump off => do
    let target ← branch count ir insn off.toInt
    return ([target],none)
  | .JumpCond _ _ _ _ off | .MayGoto off => do
    let target ← branch count ir insn off.toInt
    let next ← fallthrough count insn
    return ([target,next],none)
  | .Call (.Subprog off) | .LoadImm64 _ (.SubprogAddr off) => do
    let entry ← branch count ir insn off.toInt
    let next ← fallthrough count insn
    return ([next],some entry)
  | _ => do
    let next ← fallthrough count insn
    return ([next],none)
end Successors
/-- The constant an instruction contributes to the widening thresholds. -/
def threshold_of : Decoded → Option I64
  | .JumpCond _ _ _ (.Imm imm) _ | .Alu _ _ _ (.Imm imm) | .Mov _ _ (.Imm imm) _ => some (imm.signExtend 64)
  | .LoadImm64 _ (.Value value) => some value
  | _ => none
/-- `sort_unstable` then `dedup`. -/
def sort_dedup (slots : List Nat) : List Nat := (slots.insertionSort (· ≤ ·)).eraseReps
def thresholds (ir : List IrInsn) : List I64 :=
  ((ir.filterMap (fun insn => threshold_of insn.op) ++
    [0#64,-1#64,(BitVec.intMin 32).signExtend 64,(BitVec.intMax 32).signExtend 64,0xffffffff#64]).insertionSort
      (fun a b => a.toInt ≤ b.toInt)).eraseReps

/-! ### Subprograms and blocks -/
def enclosing (entries : List Nat) (count slot : Nat) : Nat × Nat :=
  let idx := (entries.takeWhile (fun e => e ≤ slot)).length - 1
  (entries.getD idx 0,entries.getD (idx + 1) count)
/-- The first edge that leaves its subprogram, in program order. -/
def cross_edge (entries : List Nat) (count : Nat) : List (IrInsn × List Nat) → Option VerifyError
  | [] => none
  | (insn,succs) :: rest =>
    let (lo,hi) := enclosing entries count insn.slot
    match succs.find? (fun t => t < lo ∨ hi ≤ t) with
    | some t => some (.CrossSubprogEdge insn.slot t)
    | none => cross_edge entries count rest
def is_straight_line (insn : IrInsn) (succs : List Nat) : Bool := succs == [insn.next_slot]

section Blocks
variable (ir : List IrInsn) (succ_slots : List (List Nat)) (entries : List Nat)
def branch_slots : List Nat :=
  (ir.zip succ_slots).flatMap (fun edge => if is_straight_line edge.1 edge.2 then [] else edge.2)
/-- The first instruction, subprogram entries, and whatever follows or is the target of
    an instruction that is not straight-line. -/
def is_leader (i : Nat) : Bool :=
  i == 0 ||
    (match ir[i]? with
      | some insn => entries.contains insn.slot || (branch_slots ir succ_slots).contains insn.slot
      | none => false) ||
    (match i with
      | 0 => false
      | p + 1 =>
        match ir[p]?,succ_slots[p]? with
        | some insn,some succs => !is_straight_line insn succs
        | _,_ => false)
def block_starts : List Nat := (List.range ir.length).filter (is_leader ir succ_slots entries)
variable (starts : List Nat)
def block_index (i : Nat) : Nat := starts.countP (fun s => s ≤ i) - 1
def block_stop (b : Nat) : Nat := starts.getD (b + 1) ir.length
/-- Successor blocks in branch order, taken first, before `dedup`. -/
def block_succs (b : Nat) : List Nat :=
  (succ_slots.getD (block_stop ir starts b - 1) []).map
    (fun slot => block_index starts ((ir_of_slot ir slot).getD 0))
def block_preds (b : Nat) : List Nat :=
  (List.range starts.length).filter (fun p => (block_succs ir succ_slots starts p).contains b)
/-- The subprogram whose entry is the last one at or before instruction `i`. -/
def subprog_of (i : Nat) : Nat := entries.countP (fun e => (ir_of_slot ir e).getD 0 ≤ i) - 1
def callees (si : Nat) : List Nat :=
  sort_dedup ((List.range ir.length).filterMap fun i =>
    match ir[i]? with
    | some insn =>
      match insn.op with
      | .Call (.Subprog off) =>
        if subprog_of ir entries (starts.getD (block_index starts i) 0) = si then
          let callee := entries.idxOf ((insn.next_slot : Int) + off.toInt).toNat
          some (if callee < entries.length then callee else 0)
        else none
      | _ => none
    | none => none)
def build_blocks : List Block :=
  let count := starts.length
  let succs := fun b => (block_succs ir succ_slots starts b).eraseReps
  let preds := block_preds ir succ_slots starts
  let roots := entries.map (fun e => block_index starts ((ir_of_slot ir e).getD 0))
  let widen := Cfg.widening_points count succs preds roots
  (List.range count).map fun b =>
    ⟨starts.getD b 0,block_stop ir starts b,succs b,preds b,subprog_of ir entries (starts.getD b 0),widen b⟩
end Blocks

namespace Ir
def build (insns : List Insn) : Except VerifyError Ir := do
  if insns.isEmpty then throw .Empty
  let ir ← decode_slots insns insns.length 0
  let edges ← ir.mapM (successors_of insns.length ir)
  let succ_slots := edges.map (fun edge => edge.1)
  let entries := sort_dedup (0 :: edges.filterMap (fun edge => edge.2))
  match cross_edge entries insns.length (ir.zip succ_slots) with
  | some err => throw err
  | none =>
    let starts := block_starts ir succ_slots entries
    return {
      insns := ir
      ir_of_slot := Narf.Bpf.ir_of_slot ir
      blocks := build_blocks ir succ_slots entries starts
      block_of := block_index starts
      subprogs := (List.range entries.length).map fun si =>
        let entry := entries.getD si 0
        ⟨entry,block_index starts ((Narf.Bpf.ir_of_slot ir entry).getD 0),callees ir entries starts si⟩
      thresholds := Narf.Bpf.thresholds ir }

variable (ir : Ir)
def insn (index : Nat) : IrInsn := ir.insns.getD index ⟨.Exit,0,1⟩
def block (b : Nat) : Block := ir.blocks.getD b default
def subprog (sp : Nat) : Subprog := ir.subprogs.getD sp default
end Ir

/-! ### Definitions and uses -/
structure DefUse where
  defs : BitVec 16
  uses : BitVec 16
  address : Bool
  condition : Bool
def reg_mask (regs : List Reg) : BitVec 16 := regs.foldl (fun mask reg => mask ||| (1#16 <<< reg.val)) 0#16
def Source.regs : Source → List Bpf.Reg
  | .Reg reg => [reg]
  | .Imm _ => []
def defs (op : Decoded) : DefUse :=
  match op with
  | .Alu _ _ dst src | .Div _ _ dst src | .Mod _ _ dst src =>
    ⟨reg_mask [dst],reg_mask (dst :: src.regs),false,false⟩
  | .Neg _ dst | .End dst _ _ => ⟨reg_mask [dst],reg_mask [dst],false,false⟩
  | .Mov _ dst src _ => ⟨reg_mask [dst],reg_mask src.regs,false,false⟩
  | .AddrSpaceCast dst src _ _ => ⟨reg_mask [dst],reg_mask [src],false,false⟩
  | .Load _ _ dst src _ => ⟨reg_mask [dst],reg_mask [src],true,false⟩
  | .Store _ dst _ src => ⟨0#16,reg_mask (dst :: src.regs),true,false⟩
  | .Atomic _ op dst src _ =>
    let cmpxchg := op == .Cmpxchg
    ⟨reg_mask ((if op.writes_src then [src] else []) ++ if cmpxchg then [Reg.R0] else []),
      reg_mask (dst :: src :: if cmpxchg then [Reg.R0] else []),true,false⟩
  | .LoadImm64 dst _ => ⟨reg_mask [dst],0#16,false,false⟩
  | .JumpCond _ _ dst src _ => ⟨0#16,reg_mask (dst :: src.regs),false,true⟩
  | .Jump _ | .MayGoto _ => ⟨0#16,0#16,false,false⟩
  | .Call _ => ⟨reg_mask [0,1,2,3,4,5],reg_mask [1,2,3,4,5],false,false⟩
  | .Exit => ⟨0#16,reg_mask [Reg.R0],false,false⟩
end Narf.Bpf
