import Narf.Bpf.Refine
import Narf.Bpf.ScalarRefine

/-! Soundness of branch refinement on scalars: the edge a concrete comparison takes is
never dropped, and both operands stay in their refined values. -/

namespace Narf.Bpf
open BitVec hiding not_or
open Bool hiding and_true not_or

namespace Pred
def Holds (pred : Pred) (a b : U64) : Prop :=
  match pred with
  | .Eq => a = b
  | .Ne => a ≠ b
  | .Gt => b.toNat < a.toNat
  | .Ge => b.toNat ≤ a.toNat
  | .Lt => a.toNat < b.toNat
  | .Le => a.toNat ≤ b.toNat
  | .Sgt => b.toInt < a.toInt
  | .Sge => b.toInt ≤ a.toInt
  | .Slt => a.toInt < b.toInt
  | .Sle => a.toInt ≤ b.toInt
  | .Set => a &&& b ≠ 0#64
  | .NotSet => a &&& b = 0#64
/-- The predicate of an edge: the branch's own when taken, its negation otherwise. -/
def edge (op : CondOp) (taken : Bool) : Pred := if taken then of op else (of op).negate
lemma holds_of_compare {op : CondOp} {a b : U64} {taken : Bool} (outcome : Interp.compare op a b = taken) : (edge op taken).Holds a b := by
  cases taken <;> cases op <;> simp [Interp.compare] at outcome <;> simpa [edge,of,negate,Holds] using outcome
/-- A 32-bit comparison of two words whose high halves are clear is the full one, as
    far as the sign bit of the low half is clear when the comparison is signed. -/
lemma compare_low {op : CondOp} {a b : U64} (smallA : a.toNat < 2 ^ 32) (smallB : b.toNat < 2 ^ 32)
    (signed : (of op).is_unsigned = false → a.toNat < 2 ^ 31 ∧ b.toNat < 2 ^ 31) :
    Interp.compare op (a.setWidth 32) (b.setWidth 32) = Interp.compare op a b := by
  have natA : (a.setWidth 32).toNat = a.toNat := by rw [toNat_setWidth,Nat.mod_eq_of_lt smallA]
  have natB : (b.setWidth 32).toNat = b.toNat := by rw [toNat_setWidth,Nat.mod_eq_of_lt smallB]
  have same : a.setWidth 32 = b.setWidth 32 ↔ a = b := by rw [← toNat_inj,← toNat_inj,natA,natB]
  have met : a.setWidth 32 &&& b.setWidth 32 = 0#32 ↔ a &&& b = 0#64 := by
    rw [← toNat_inj,← toNat_inj,toNat_and,toNat_and,natA,natB]
    rfl
  have intA := toInt_cases a
  have intB := toInt_cases b
  have lowA := toInt_eq_toNat_cond (a.setWidth 32)
  have lowB := toInt_eq_toNat_cond (b.setWidth 32)
  cases op <;> simp only [Interp.compare,natA,natB,beq_eq_decide_eq,bne,same,met]
  all_goals
    have halves := signed rfl
    rw [lowA,lowB]
    congr 1
    apply propext
    omega
lemma is_unsigned_negate (pred : Pred) : pred.negate.is_unsigned = pred.is_unsigned := by cases pred <;> rfl
lemma is_unsigned_edge (op : CondOp) (taken : Bool) : (edge op taken).is_unsigned = (of op).is_unsigned := by
  cases taken
  · exact is_unsigned_negate _
  · rfl
end Pred

namespace AbsState
variable {wide : Bool} {pred : Pred} {st : AbsState} {slot : Nat} {reg dst : Reg} {value : AbsValue} {src : Source}
lemma refinable_bound {s : Scalar} {v : U64} (narrow : wide = false) (exact_ : refinable wide pred s) (mem : s.contains v) :
    v.toNat < 2 ^ 32 ∧ (pred.is_unsigned = false → v.toNat < 2 ^ 31) := by
  have bounds := Scalar.contains_iff.mp mem
  have reading := toInt_cases v
  subst narrow
  simp only [refinable,Bool.false_or,Bool.and_eq_true,decide_eq_true_eq] at exact_
  cases signedness : pred.is_unsigned <;> simp only [signedness,false_eq_true,if_true,if_false] at exact_
  · exact ⟨by omega,fun _ => by omega⟩
  · exact ⟨by omega,fun impossible => by cases impossible⟩
/-- On the edge a comparison takes, the edge's predicate holds of the full words,
    whenever both operands are refinable at its width. -/
lemma holds_of_cond {op : CondOp} {taken : Bool} {A B : Scalar} {a b : U64} (memberA : A.contains a) (memberB : B.contains b)
    (exactA : refinable wide (Pred.edge op taken) A) (exactB : refinable wide (Pred.edge op taken) B)
    (outcome : Interp.cond op wide a b = taken) : (Pred.edge op taken).Holds a b := by
  apply Pred.holds_of_compare
  cases wide with
  | true => exact outcome
  | false =>
    have boundA := refinable_bound rfl exactA memberA
    have boundB := refinable_bound rfl exactB memberB
    rw [Pred.is_unsigned_edge] at boundA boundB
    rw [← Pred.compare_low boundA.1 boundB.1 (fun signed => ⟨boundA.2 signed,boundB.2 signed⟩)]
    exact outcome
lemma u64_saturating_succ_le {v w : U64} (below : v.toNat < w.toNat) : (u64_saturating_succ v).toNat ≤ w.toNat := by
  unfold u64_saturating_succ
  split
  · omega
  · rw [toNat_add,toNat_ofNat]
    omega
lemma le_u64_saturating_pred {v w : U64} (below : v.toNat < w.toNat) : v.toNat ≤ (u64_saturating_pred w).toNat := by
  unfold u64_saturating_pred
  split
  · omega
  · rw [toNat_sub,toNat_ofNat]
    omega
lemma i64_saturating_succ_le {v w : I64} (below : v.toInt < w.toInt) : (i64_saturating_succ v).toInt ≤ w.toInt := by
  have range := toInt_range w
  have top := toInt_I64_MAX
  have bottom := toInt_I64_MIN
  have rangeV := toInt_range v
  unfold i64_saturating_succ
  split
  · omega
  · have one : (1#64 : I64).toInt = 1 := by decide
    rw [toInt_add,one,Int.bmod_eq_of_le] <;> omega
lemma le_i64_saturating_pred {v w : I64} (below : v.toInt < w.toInt) : v.toInt ≤ (i64_saturating_pred w).toInt := by
  have range := toInt_range w
  have top := toInt_I64_MAX
  have bottom := toInt_I64_MIN
  have rangeV := toInt_range v
  unfold i64_saturating_pred
  split
  · omega
  · have one : (1#64 : I64).toInt = 1 := by decide
    rw [toInt_sub,one,Int.bmod_eq_of_le] <;> omega

open Scalar in
lemma refine_scalars_keeps {A B : Scalar} {a b : U64} (memberA : A.contains a) (memberB : B.contains b) (holds : pred.Holds a b) :
    Keeps (refine_scalars pred A B).1 a ∧ Keeps (refine_scalars pred A B).2 b := by
  have rangeA := Scalar.unsigned_bounds_contains memberA
  have rangeB := Scalar.unsigned_bounds_contains memberB
  have signedA := (contains_iff.mp memberA).2
  have signedB := (contains_iff.mp memberB).2
  cases pred <;> simp only [Pred.Holds] at holds <;> simp only [refine_scalars]
  case Eq =>
    subst holds
    exact ⟨refine_eq_keeps memberA memberB,refine_eq_keeps memberB memberA⟩
  case Ne => exact ⟨refine_ne_keeps memberA memberB holds,refine_ne_keeps memberB memberA (Ne.symm holds)⟩
  case Gt =>
    exact ⟨refine_unsigned_min_keeps memberA (u64_saturating_succ_le (by omega)),
      refine_unsigned_max_keeps memberB (le_u64_saturating_pred (by omega))⟩
  case Ge => exact ⟨refine_unsigned_min_keeps memberA (by omega),refine_unsigned_max_keeps memberB (by omega)⟩
  case Lt =>
    exact ⟨refine_unsigned_max_keeps memberA (le_u64_saturating_pred (by omega)),
      refine_unsigned_min_keeps memberB (u64_saturating_succ_le (by omega))⟩
  case Le => exact ⟨refine_unsigned_max_keeps memberA (by omega),refine_unsigned_min_keeps memberB (by omega)⟩
  case Sgt =>
    exact ⟨refine_signed_min_keeps memberA (i64_saturating_succ_le (by omega)),
      refine_signed_max_keeps memberB (le_i64_saturating_pred (by omega))⟩
  case Sge => exact ⟨refine_signed_min_keeps memberA (by omega),refine_signed_max_keeps memberB (by omega)⟩
  case Slt =>
    exact ⟨refine_signed_max_keeps memberA (le_i64_saturating_pred (by omega)),
      refine_signed_min_keeps memberB (i64_saturating_succ_le (by omega))⟩
  case Sle => exact ⟨refine_signed_max_keeps memberA (by omega),refine_signed_min_keeps memberB (by omega)⟩
  case Set => exact ⟨refine_bits_set_keeps memberA memberB holds,keeps_self memberB⟩
  case NotSet => exact ⟨refine_bits_clear_keeps memberA memberB holds,keeps_self memberB⟩

/-! ### The refined state -/
def operand (wide : Bool) (regs : Reg → U64) : Source → U64
  | .Reg reg => regs reg
  | .Imm imm => imm_value wide imm
lemma get_eq_ok : st.get slot reg = .ok value ↔ st.regs reg = value ∧ value ≠ .NotInit := by
  unfold get
  cases st.regs reg <;> cases value <;> simp
lemma refine_eq_of_reads {d s : AbsValue} (dstRead : st.get slot dst = .ok d) (srcRead : st.source slot src wide = .ok s) (pred : Pred) :
    st.refine slot wide pred dst src = .ok (st.refine_values wide pred dst src d s) := by
  rw [refine,dstRead,srcRead]
  rfl
lemma set_reg_eq_self (held : st.regs reg = value) : st.set_reg reg value = st := by
  obtain ⟨regs,stack,refs⟩ := st
  simp only [set_reg,AbsState.mk.injEq,and_true]
  funext other
  split
  · next same => rw [same]; exact held.symm
  · rfl
@[simp] lemma regs_set_reg (st : AbsState) (reg other : Reg) (value : AbsValue) :
    (st.set_reg reg value).regs other = if other = reg then value else st.regs other := rfl
section Operands
variable {st : AbsState} {slot : Nat} {wide : Bool} {dst : Reg} {src : Source} {A B : Scalar}
  (dstScalar : st.regs dst = .Scalar A) (srcScalar : st.source slot src wide = .ok (.Scalar B))
include dstScalar srcScalar
lemma set_operands_eq_self : st.set_operands dst src A B = st := by
  unfold set_operands
  rw [set_reg_eq_self dstScalar]
  cases src with
  | Imm imm => rfl
  | Reg reg =>
    dsimp only
    split
    · exact set_reg_eq_self (get_eq_ok.mp srcScalar).1
    · rfl
/-- Which edge a comparison takes decides how its operands may be refined: `refine`
    keeps that edge and writes back scalars that still contain both words. -/
lemma refine_edge {op : CondOp} {taken : Bool} {a b : U64} (memberA : A.contains a)
    (memberB : B.contains b) (outcome : Interp.cond op wide a b = taken) :
    ∃ A' B', st.refine slot wide (Pred.edge op taken) dst src = .ok (some (st.set_operands dst src A' B')) ∧
      A'.contains a ∧ B'.contains b := by
  have reads := refine_eq_of_reads (get_eq_ok.mpr ⟨dstScalar,by simp⟩) srcScalar (Pred.edge op taken)
  rw [reads,refine_values]
  split
  · exact ⟨A,B,by rw [set_operands_eq_self dstScalar srcScalar],memberA,memberB⟩
  · next exactness =>
    simp only [or_eq_true,not_eq_true',not_or,not_eq_false] at exactness
    obtain ⟨⟨A',refinedA,keptA⟩,⟨B',refinedB,keptB⟩⟩ := refine_scalars_keeps memberA memberB
      (holds_of_cond memberA memberB exactness.1 exactness.2 outcome)
    refine ⟨A',B',?_,keptA,keptB⟩
    rw [show refine_scalars (Pred.edge op taken) A B = (some A',some B') from Prod.ext refinedA refinedB]
end Operands

section Written
variable (st : AbsState) (dst : Reg) (src : Source) (A B : Scalar)
lemma set_operands_dst : (st.set_operands dst src A B).regs dst = .Scalar A := by
  unfold set_operands
  cases src with
  | Imm imm => simp
  | Reg reg =>
    dsimp only
    split
    · next fresh =>
      have differ : dst ≠ reg := by
        intro same
        simp [same] at fresh
      simp [differ]
    · simp
lemma set_operands_src {reg : Reg} (fresh : reg ≠ dst) (writable : reg ≠ Reg.R10) :
    (st.set_operands dst (.Reg reg) A B).regs reg = .Scalar B := by
  simp [set_operands,Reg.is_frame_ptr,fresh,writable]
lemma set_operands_frame : (st.set_operands dst (.Reg Reg.R10) A B).regs = (st.set_reg dst (.Scalar A)).regs := by
  simp [set_operands,Reg.is_frame_ptr]
lemma set_operands_other {other : Reg} (notDst : other ≠ dst) (notSrc : src ≠ .Reg other) :
    (st.set_operands dst src A B).regs other = st.regs other := by
  unfold set_operands
  cases src with
  | Imm imm => simp [notDst]
  | Reg reg =>
    have differ : other ≠ reg := fun same => notSrc (by rw [same])
    dsimp only
    split <;> simp [notDst,differ]
@[simp] lemma set_operands_stack : (st.set_operands dst src A B).stack = st.stack := by
  unfold set_operands
  cases src with
  | Imm imm => rfl
  | Reg reg =>
    dsimp only
    split <;> rfl
@[simp] lemma set_operands_refs : (st.set_operands dst src A B).refs = st.refs := by
  unfold set_operands
  cases src with
  | Imm imm => rfl
  | Reg reg =>
    dsimp only
    split <;> rfl
end Written
lemma set_operands_source {B A' B' : Scalar} {regs : Reg → U64} (srcScalar : st.source slot src wide = .ok (.Scalar B))
    (memberB : B.contains (operand wide regs src)) (keptA : A'.contains (regs dst)) (keptB : B'.contains (operand wide regs src)) :
    ∃ C, (st.set_operands dst src A' B').source slot src wide = .ok (.Scalar C) ∧ C.contains (operand wide regs src) := by
  cases src with
  | Imm imm => exact ⟨B,srcScalar,memberB⟩
  | Reg reg =>
    -- a source register is `dst`, the frame pointer, or written on its own
    by_cases same : reg = dst
    · subst same
      exact ⟨A',get_eq_ok.mpr ⟨set_operands_dst _ _ _ _ _,by simp⟩,keptA⟩
    by_cases frame : reg = Reg.R10
    · subst frame
      refine ⟨B,get_eq_ok.mpr ⟨?_,by simp⟩,memberB⟩
      rw [set_operands_frame,regs_set_reg,if_neg same]
      exact (get_eq_ok.mp srcScalar).1
    · exact ⟨B',get_eq_ok.mpr ⟨set_operands_src _ _ _ _ same frame,by simp⟩,keptB⟩
/-- Refinement is sound on scalars: along the edge a concrete comparison takes, the
    refined state exists, holds both compared words, and differs from the old one in
    the operands only. -/
theorem refine_sound (st : AbsState) (slot : Nat) (wide : Bool) (op : CondOp) (taken : Bool) (dst : Reg) (src : Source)
    (regs : Reg → U64) (A B : Scalar) (dstScalar : st.regs dst = .Scalar A)
    (srcScalar : st.source slot src wide = .ok (.Scalar B)) (memberA : A.contains (regs dst) = true)
    (memberB : B.contains (operand wide regs src) = true) (outcome : Interp.cond op wide (regs dst) (operand wide regs src) = taken) :
    ∃ st', st.refine slot wide (if taken then Pred.of op else (Pred.of op).negate) dst src = .ok (some st') ∧
      (∃ A', st'.regs dst = .Scalar A' ∧ A'.contains (regs dst) = true) ∧
      (∃ B', st'.source slot src wide = .ok (.Scalar B') ∧ B'.contains (operand wide regs src) = true) ∧
      (∀ other, other ≠ dst → src ≠ .Reg other → st'.regs other = st.regs other) ∧ st'.stack = st.stack ∧ st'.refs = st.refs := by
  obtain ⟨A',B',refined,keptA,keptB⟩ := refine_edge dstScalar srcScalar memberA memberB outcome
  refine ⟨st.set_operands dst src A' B',refined,⟨A',set_operands_dst _ _ _ _ _,keptA⟩,?_,?_,?_,?_⟩
  · exact set_operands_source srcScalar memberB keptA keptB
  · exact fun other notDst notSrc => set_operands_other _ _ _ _ _ notDst notSrc
  · exact set_operands_stack _ _ _ _ _
  · exact set_operands_refs _ _ _ _ _
/-- A byte in every register. -/
def bytes_held : AbsState := { AbsState.entry 0#64 with regs := fun _ => .Scalar (Scalar.unsigned_bits 8) }
/-- The fall-through edge of `r1 < r1` at 32 bits, and the taken edge of `r1 < 10`, which narrows R1. -/
theorem refine_sound_byte : (∃ st', bytes_held.refine 0 false (Pred.of .Lt).negate 1 (.Reg 1) = .ok (some st') ∧
      ∃ A', st'.regs 1 = .Scalar A' ∧ A'.contains 7#64 = true) ∧
    ∃ st', bytes_held.refine 0 true (Pred.of .Lt) 1 (.Imm 10#32) = .ok (some st') ∧
      ∃ A', st'.regs 1 = .Scalar A' ∧ A'.contains 7#64 = true ∧ A'.max = 9#64 := by
  constructor
  · obtain ⟨st',refined,held,_⟩ := refine_sound bytes_held 0 false .Lt false 1 (.Reg 1) (fun _ => 7#64) _ _ rfl rfl
      (by decide) (by decide) (by decide)
    exact ⟨st',refined,held⟩
  · obtain ⟨st',refined,⟨A',held,member⟩,_⟩ := refine_sound bytes_held 0 true .Lt true 1 (.Imm 10#32) (fun _ => 7#64) _ _
      rfl rfl (by decide) (by decide) (by decide)
    have narrowed : ((bytes_held.refine 0 true (Pred.of .Lt) 1 (.Imm 10#32)).toOption.join.map (fun st => st.regs 1)) =
        some (.Scalar ⟨⟨0#64,15#64,by decide⟩,0#64,9#64⟩) := by decide +kernel
    rw [if_pos rfl] at refined
    rw [refined] at narrowed
    cases held.symm.trans (Option.some.inj narrowed)
    exact ⟨st',refined,_,held,member,rfl⟩
end AbsState
end Narf.Bpf
