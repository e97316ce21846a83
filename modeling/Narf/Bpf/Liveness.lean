import Narf.Bpf.Ir

/-! Register liveness and precision, two instances of one backward dataflow over bit
masks, and block reachability. -/

namespace Narf.Bpf.Liveness
/-- The registers in the set before and after each IR instruction. -/
structure Masks where
  before : Nat → BitVec 16
  after : Nat → BitVec 16
def Masks.after_has (masks : Masks) (i : Nat) (reg : Reg) : Bool := (masks.after i).getLsbD reg
variable (ir : Ir)
def successors (i : Nat) : List Nat :=
  let b := ir.block (ir.block_of i)
  if i + 1 < b.stop then [i + 1] else b.succs.map (fun s => (ir.block s).start)

variable (seed : Nat → Bool)
/-- The masks before and after instruction `i` that the current masks give. -/
def transfer (masks : Masks) (i : Nat) : BitVec 16 × BitVec 16 :=
  let out := (successors ir i).foldl (fun out s => out ||| masks.before s) 0#16
  let du := defs (ir.insn i).op
  let kept := out &&& ~~~du.defs
  (if seed i || du.defs &&& out != 0#16 then kept ||| du.uses else kept,out)
/-- One backward sweep over the given instructions, and whether it changed anything. -/
def round : List Nat → Masks → Bool → Masks × Bool
  | [],masks,changed => (masks,changed)
  | i :: rest,masks,changed =>
    let (before,out) := transfer ir seed masks i
    if out ≠ masks.after i ∨ before ≠ masks.before i then
      round rest ⟨Cfg.update masks.before i before,Cfg.update masks.after i out⟩ true
    else round rest masks changed
def rounds : Nat → Masks → Masks
  | 0,masks => masks
  | fuel + 1,masks =>
    match round ir seed (List.range ir.insns.length).reverse masks false with
    | (next,true) => rounds fuel next
    | (next,false) => next
/-- Every round but the last sets one of `11` bits in one of two masks per instruction. -/
def backward : Masks := rounds ir seed (22 * ir.insns.length + 1) ⟨fun _ => 0#16,fun _ => 0#16⟩
def liveness : Masks := backward ir (fun _ => true)
/-- The instructions whose uses decide an address, a branch or a call argument. -/
def is_precision_seed (i : Nat) : Bool :=
  let op := (ir.insn i).op
  let du := defs op
  du.address || du.condition || (match op with
    | .Call _ => true
    | _ => false)
def precision : Masks := backward ir (is_precision_seed ir)
/-- Blocks reachable from a subprogram entry; each block is pushed at most once. -/
def reach_loop : Nat → List Nat → List Nat → List Nat
  | 0,seen,_ => seen
  | _ + 1,seen,[] => seen
  | fuel + 1,seen,b :: rest =>
    let fresh := ((ir.block b).succs.eraseDups).filter (fun s => !seen.contains s)
    reach_loop fuel (fresh ++ seen) (fresh.reverse ++ rest)
def reachable_blocks (entry : Nat) : List Nat := reach_loop ir (ir.blocks.length + 1) [entry] [entry]
end Narf.Bpf.Liveness
