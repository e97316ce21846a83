import Narf.Bpf.Transfer

/-! The forward fixpoint over each subprogram, the call-graph order it runs in, and the
`verify` entry point. The per-block states a subprogram's fixpoint ends with are local
to the source's loop; here the loop returns them, so that results can speak of the
state the verifier holds before an instruction. -/

namespace Narf.Bpf
open Narf.Lib

namespace Analysis
variable (a : Analysis)

/-! ### One block -/
def walk_steps : Nat → Nat → AbsState → Out AbsState
  | 0,_,st => return st
  | count + 1,i,st => do
    let st ← a.step st i
    walk_steps count (i + 1) st
def block_at_slot (next_slot : Nat) (off : Int) : Nat :=
  a.ir.block_of ((a.ir.ir_of_slot ((next_slot : Int) + off).toNat).getD 0)
def walk_last (last : Nat) (succs : List Nat) (st : AbsState) : Out (List (Nat × AbsState)) :=
  let insn := a.ir.insn last
  match insn.op with
  | .Exit => do
    check_exit st insn.slot
    return []
  | .JumpCond wide op dst src off => do
    let taken ← st.refine insn.slot wide (Pred.of op) dst src
    let fall ← st.refine insn.slot wide (Pred.of op).negate dst src
    return (taken.map (fun s => (a.block_at_slot insn.next_slot off.toInt,s))).toList ++
      (fall.map (fun s => (a.block_at_slot insn.next_slot 0,s))).toList
  | .MayGoto off =>
    return [(a.block_at_slot insn.next_slot off.toInt,st),(a.block_at_slot insn.next_slot 0,st)]
  | _ => do
    let st ← a.step st last
    return succs.map (fun s => (s,st))
def walk_block (b : Nat) (st : AbsState) : Out (List (Nat × AbsState)) := do
  let blk := a.ir.block b
  let st ← a.walk_steps (blk.stop - 1 - blk.start) blk.start st
  a.walk_last (blk.stop - 1) blk.succs st

/-! ### One subprogram -/
/-- The worklist loop's state: per-block input states, and the LIFO worklist with its
    membership bits. -/
structure Worklist where
  in_state : Nat → Option AbsState
  queued : Nat → Bool
  pending : List Nat
def merge (succ : Nat) (old st : AbsState) : AbsState :=
  let blk := a.ir.block succ
  if blk.widen_here then old.widen st a.ir.thresholds (a.prec.before blk.start) else old.join st
def Worklist.push (w : Worklist) (succ : Nat) (st : AbsState) : Worklist :=
  { in_state := Cfg.update w.in_state succ (some st)
    queued := Cfg.update w.queued succ true
    pending := if w.queued succ then w.pending else succ :: w.pending }
def propagate (reachable : List Nat) (w : Worklist) (edge : Nat × AbsState) : Worklist :=
  if !reachable.contains edge.1 then w
  else
    match w.in_state edge.1 with
    | none => w.push edge.1 edge.2
    | some old =>
      let merged := a.merge edge.1 old edge.2
      if !merged.is_subset_of old then w.push edge.1 merged else w
def fixpoint_round_budget (blocks : Nat) : Nat := Max.max (Min.min (blocks * 512) U64_MAX.toNat) 16384
/-- The worklist loop; `left` counts the rounds still in the budget. -/
def fixpoint_loop (sp : Nat) (reachable : List Nat) : Nat → Worklist → Out Worklist
  | left,w =>
    match w.pending with
    | [] => return w
    | b :: rest =>
      match left with
      | 0 => fail (.FixpointDiverged sp (fixpoint_round_budget a.ir.blocks.length + 1))
      | left + 1 =>
        let w := { w with queued := Cfg.update w.queued b false, pending := rest }
        match w.in_state b with
        | none => fixpoint_loop sp reachable left w
        | some start => do
          let edges ← a.walk_block b start
          fixpoint_loop sp reachable left (edges.foldl (a.propagate reachable) w)
def analyse_subprog (sp : Nat) (entry : AbsState) : Out (Nat → Option AbsState) := do
  let entry_block := (a.ir.subprog sp).entry_block
  let reachable := Liveness.reachable_blocks a.ir entry_block
  let start : Worklist :=
    { in_state := Cfg.update (fun _ => none) entry_block (some entry)
      queued := Cfg.update (fun _ => false) entry_block true
      pending := [entry_block] }
  let w ← a.fixpoint_loop sp reachable (fixpoint_round_budget a.ir.blocks.length) start
  return w.in_state
end Analysis

/-! ### The whole program -/
/-- Remove a finished caller's edges; callees left without callers become ready. -/
def retire_callees : List Nat → (Nat → Nat) → List Nat → (Nat → Nat) × List Nat
  | [],indegree,ready => (indegree,ready)
  | c :: rest,indegree,ready =>
    let indegree := Cfg.update indegree c (indegree c - 1)
    retire_callees rest indegree (if indegree c = 0 then c :: ready else ready)
/-- Callers before callees; each subprogram is retired at most once. -/
def topological_loop (ir : Ir) : Nat → (Nat → Nat) → List Nat → List Nat → (Nat → Nat) × List Nat
  | 0,indegree,_,order => (indegree,order)
  | _ + 1,indegree,[],order => (indegree,order)
  | fuel + 1,indegree,sp :: ready,order =>
    let (indegree,ready) := retire_callees (ir.subprog sp).callees indegree ready
    topological_loop ir fuel indegree ready (order ++ [sp])
def topological_order (ir : Ir) : Except VerifyError (List Nat) :=
  let n := ir.subprogs.length
  let indegree := fun c => ir.subprogs.countP (fun sp => sp.callees.contains c)
  let ready := ((List.range n).filter (fun i => indegree i == 0)).reverse
  let (indegree,order) := topological_loop ir n indegree ready []
  if order.length ≠ n then
    let stuck := ((List.range n).find? (fun i => 0 < indegree i)).getD 0
    .error (.Recursion (ir.subprog stuck).entry_slot)
  else .ok order

structure Accumulators where
  fault_sites : List FaultSite
  bare_access_sites : List BareAccessSite
  typed_load_sites : List TypedLoadSite
  kfunc_calls : List KfuncCallSite
  uses_arena : Bool
  entry : Nat → Option AbsState
  depth : Nat → Nat
  /-- The per-block states of the subprograms analysed so far. -/
  states : Nat → Nat → Option AbsState

namespace Accumulators
def start (ctx_size : U64) : Accumulators :=
  { fault_sites := [], bare_access_sites := [], typed_load_sites := [], kfunc_calls := [], uses_arena := false,
    entry := Cfg.update (fun _ => none) 0 (some (AbsState.entry ctx_size)), depth := fun _ => 0,
    states := fun _ _ => none }
def apply (current : Nat) (acc : Accumulators) : Note → Accumulators
  | .Fault site => { acc with fault_sites := acc.fault_sites ++ [site] }
  | .Bare site => { acc with bare_access_sites := acc.bare_access_sites ++ [site] }
  | .TypedLoad site => { acc with typed_load_sites := acc.typed_load_sites ++ [site] }
  | .KfuncCall site => { acc with kfunc_calls := acc.kfunc_calls ++ [site] }
  | .UsesArena => { acc with uses_arena := true }
  | .Depth depth => { acc with depth := Cfg.update acc.depth current (Max.max (acc.depth current) depth) }
  | .Entry callee st =>
    { acc with entry := Cfg.update acc.entry callee (some (match acc.entry callee with
        | none => st
        | some prev => prev.join st)) }
end Accumulators
/-- Analyse the subprograms in order; one that nothing calls is skipped. -/
def analyse_all (a : Analysis) : List Nat → Accumulators → Except VerifyError Accumulators
  | [],acc => .ok acc
  | sp :: rest,acc =>
    match acc.entry sp with
    | none => analyse_all a rest acc
    | some entry =>
      match a.analyse_subprog sp entry with
      | .error err => .error err
      | .ok (in_state,notes) =>
        let acc := notes.foldl (Accumulators.apply sp) acc
        analyse_all a rest { acc with states := Cfg.update acc.states sp in_state }
def align8 (n : Nat) : Nat := (n + 7) / 8 * 8
/-- Sum a cost over the call graph, callees first: `own` plus the dearest callee. -/
def sum_over_calls (ir : Ir) (own : Nat → Nat) (initial : Nat) (order : List Nat) : Nat → Nat :=
  order.reverse.foldl (fun total sp =>
    Cfg.update total sp (own sp + (((ir.subprog sp).callees.map total).max?.getD 0))) (fun _ => initial)
/-- Sort by site and keep one entry per site. -/
def sort_sites {α : Type} (index : α → Nat) (sites : List α) : List α :=
  (sites.insertionSort (fun s t => index s ≤ index t)).eraseRepsBy (fun s t => index s == index t)
def Analysis.of (prog : Program) (ir : Ir) : Analysis :=
  { ir, prog, live := Liveness.liveness ir, prec := Liveness.precision ir }
/-- The analysis of an accepted program, with the states it ended in. -/
def analyse (prog : Program) : Except VerifyError (Analysis × List Nat × Accumulators) := do
  let ir ← Ir.build prog.insns
  let order ← topological_order ir
  let a := Analysis.of prog ir
  let acc ← analyse_all a order (Accumulators.start (BitVec.ofNat 64 (prog.ctx_fields.length * 8)))
  return (a,order,acc)
/-- The state the verifier holds before instruction `i` of subprogram `sp`. -/
def state_at (a : Analysis) (acc : Accumulators) (sp i : Nat) : Option AbsState :=
  let b := a.ir.block_of i
  match acc.states sp b with
  | none => none
  | some start =>
    match a.walk_steps (i - (a.ir.block b).start) (a.ir.block b).start start with
    | .ok (st,_) => some st
    | .error _ => none
def run (prog : Program) : Except VerifyError VerifiedProgram := do
  let (a,order,acc) ← analyse prog
  let ir := a.ir
  let total := sum_over_calls ir (fun sp => align8 (acc.depth sp)) 0 order
  let depth := sum_over_calls ir (fun _ => 1) 1 order
  if MAX_CALL_DEPTH < depth 0 then throw (.CallDepth (depth 0) MAX_CALL_DEPTH)
  if MAX_STACK_BYTES < total 0 then throw (.StackTooDeep (total 0) MAX_STACK_BYTES)
  return {
    insns := prog.insns
    context := prog.context
    max_stack_bytes := total 0
    initial_fuel := DEFAULT_FUEL
    fault_sites := sort_sites FaultSite.insn_index acc.fault_sites
    bare_access_sites := sort_sites BareAccessSite.insn_index acc.bare_access_sites
    typed_load_sites := sort_sites TypedLoadSite.insn_index acc.typed_load_sites
    subprogs := (List.range ir.subprogs.length).map
      (fun sp => ⟨(ir.subprog sp).entry_slot,align8 (acc.depth sp)⟩)
    uses_arena := acc.uses_arena
    kfunc_calls := sort_sites KfuncCallSite.insn_index acc.kfunc_calls }
def validate_kfuncs : List KfuncDesc → Except VerifyError Unit
  | [] => .ok ()
  | desc :: rest =>
    match desc.validate with
    | .error err => .error (.Kfunc err)
    | .ok () => validate_kfuncs rest
def validate_ctx_fields : List ArgDesc → Nat → Except VerifyError Unit
  | [],_ => .ok ()
  | field :: rest,index =>
    match validate_type field index with
    | .error err => .error (.BadCtxField index err)
    | .ok () => validate_ctx_fields rest (index + 1)
/-- A typed, sized object with its fields inside it, and no earlier object of its type. -/
def object_ok (earlier : List ObjectDesc) (object : ObjectDesc) : Bool :=
  object.key.is_some && object.size != 0#32 &&
    !object.fields.any (fun field =>
      field.size == 0#32 || decide (object.size.toNat < field.offset.toNat + field.size.toNat)) &&
    !earlier.any (fun other => other.key == object.key)
def validate_objects (objects : List ObjectDesc) : Except VerifyError Unit :=
  match (List.range objects.length).find? (fun index =>
      match objects[index]? with
      | some object => !object_ok (objects.take index) object
      | none => false) with
  | some index => .error (.BadObjectDescriptor index)
  | none => .ok ()
def verify (prog : Program) : Except VerifyError VerifiedProgram := do
  if prog.insns.isEmpty then throw .Empty
  validate_kfuncs prog.kfuncs
  validate_ctx_fields prog.ctx_fields 0
  validate_objects prog.objects
  run prog
end Narf.Bpf
