import Narf.Bpf.StepSpec

/-! Pointer arithmetic against concrete base addresses. Each register's pointer refers
to some region; `base` gives the address that region starts at. -/

namespace Narf.Bpf
open BitVec

open Narf.Lib Narf.Lib.Traced

/-- The concrete registers are described by the abstract ones: a scalar contains its
    word, and a pointer's offset contains the word's distance from its region's base. -/
structure Described (st : AbsState) (base regs : Reg → U64) : Prop where
  scalar : ∀ reg s, st.regs reg = .Scalar s → s.contains (regs reg) = true
  ptr : ∀ reg p, st.regs reg = .Ptr p → p.off.contains (regs reg - base reg) = true
/-- A word at an operation's width: all of it, or its low half. -/
def at_width (wide : Bool) (v : U64) : U64 := if wide then v else Interp.low32 v
lemma alu_add_at_width (wide : Bool) (a b : U64) : Interp.alu .Add wide a b = at_width wide (a + b) := by
  cases wide
  · have low : a.setWidth 32 + b.setWidth 32 = (a + b).setWidth 32 := by
      apply eq_of_toNat_eq
      simp only [toNat_add,toNat_setWidth]
      omega
    simp only [Interp.alu,at_width,Interp.low32,Bool.false_eq_true,if_false,low]
  · rfl
lemma alu_sub_at_width (wide : Bool) (a b : U64) : Interp.alu .Sub wide a b = at_width wide (a - b) := by
  cases wide
  · have low : a.setWidth 32 - b.setWidth 32 = (a - b).setWidth 32 := by
      apply eq_of_toNat_eq
      simp only [toNat_sub,toNat_setWidth]
      omega
    simp only [Interp.alu,at_width,Interp.low32,Bool.false_eq_true,if_false,low]
  · rfl
lemma source_contains {st : AbsState} {base regs : Reg → U64} (described : Described st base regs) {slot : Nat}
    {src : Source} {wide : Bool} {b : Scalar} (read : st.source slot src wide = .ok (.Scalar b)) :
    b.contains (AbsState.operand wide regs src) := by
  cases src with
  | Imm imm =>
    cases read
    exact Scalar.contains_constant.mpr rfl
  | Reg reg => exact described.scalar reg b (AbsState.get_eq_ok.mp read).1
lemma low32_setWidth (r : BitVec 32) : Interp.low32 (r.setWidth 64) = r.setWidth 64 := by
  have low : (r.setWidth 64).setWidth 32 = r := by
    rw [setWidth_setWidth_of_le r (show 32 ≤ 64 by omega),setWidth_eq]
  rw [Interp.low32,low]
lemma exists_offset (op : AluOp) (wide : Bool) (a b base : U64) :
    Interp.alu op wide a b = at_width wide (base + (Interp.alu op wide a b - base)) := by
  have cancel : base + (Interp.alu op wide a b - base) = Interp.alu op wide a b := by
    generalize Interp.alu op wide a b = result
    bv_omega
  rw [cancel]
  cases wide
  · exact (low32_setWidth _).symm
  · rfl
/-- Arena arithmetic is tracked for an added or subtracted scalar only. -/
lemma arena_off_cases (op : AluOp) (off : Scalar) (s : AbsValue) : (∃ b, op = .Add ∧ s = .Scalar b ∧ arena_off op off s = off.add b) ∨
      (∃ b, op = .Sub ∧ s = .Scalar b ∧ arena_off op off s = off.sub b) ∨ arena_off op off s = Scalar.UNKNOWN := by
  cases s with
  | NotInit | Ptr => cases op <;> exact .inr (.inr rfl)
  | Scalar b =>
    cases op
    case Add => exact .inl ⟨b,rfl,rfl,rfl⟩
    case Sub => exact .inr (.inl ⟨b,rfl,rfl,rfl⟩)
    all_goals exact .inr (.inr rfl)
/-- A pointer the verifier accepts arithmetic on: how its offset moved. -/
lemma offset_of_aluEffect {wide : Bool} {op : AluOp} {p p' : PtrVal} {s : AbsValue} {v w base : U64}
    (effect : AluEffect wide op (.Ptr p) s (.Ptr p')) (held : p.off.contains (v - base)) (other : ∀ b, s = .Scalar b → b.contains w) :
    ∃ o, p'.off.contains o ∧ Interp.alu op wide v w = at_width wide (base + o) := by
  have added (b : Scalar) (mem : b.contains w) : (p.off.add b).contains (v - base + w) ∧
      Interp.alu .Add wide v w = at_width wide (base + (v - base + w)) := by
    refine ⟨Scalar.add_contains held mem,?_⟩
    rw [alu_add_at_width]
    congr 1
    bv_omega
  have subtracted (b : Scalar) (mem : b.contains w) : (p.off.sub b).contains (v - base - w) ∧
      Interp.alu .Sub wide v w = at_width wide (base + (v - base - w)) := by
    refine ⟨Scalar.sub_contains held mem,?_⟩
    rw [alu_sub_at_width]
    congr 1
    bv_omega
  cases effect with
  | forward _ b full fixed add =>
    subst add
    exact ⟨_,added b (other b rfl)⟩
  | backward _ b full fixed sub =>
    subst sub
    exact ⟨_,subtracted b (other b rfl)⟩
  | arena _ _ arena =>
    dsimp only
    rcases arena_off_cases op p.off s with ⟨b,rfl,rfl,tracked⟩ | ⟨b,rfl,rfl,tracked⟩ | unknown
    · rw [tracked]
      exact ⟨_,added b (other b rfl)⟩
    · rw [tracked]
      exact ⟨_,subtracted b (other b rfl)⟩
    · rw [unknown]
      exact ⟨_,Scalar.contains_unknown _,exists_offset op wide v w base⟩
/-- Pointer arithmetic the verifier accepts is sound: a pointer result is the base of
    its region plus an offset in the abstract one, at the width of the operation, which is
    32 bits for arena pointers only; a scalar result is the full difference of two
    pointers alike in class and reference, and contains it when both point into one region. -/
theorem alu_pointer_sound (st st' : AbsState) (slot : Nat) (wide : Bool) (op : AluOp) (dst : Reg) (src : Source)
    (base regs : Reg → U64) (described : Described st base regs)
    (pointer : (∃ p, st.regs dst = .Ptr p) ∨ ∃ reg p, src = .Reg reg ∧ st.regs reg = .Ptr p)
    (accepted : Yields (alu st slot wide op dst src) st') :
    (∃ p' o, st'.regs dst = .Ptr p' ∧ (wide = false → p'.cls = .Arena) ∧ p'.off.contains o = true ∧
      Interp.alu op wide (regs dst) (AbsState.operand wide regs src) = at_width wide (base dst + o)) ∨
    ∃ s' reg p q, st'.regs dst = .Scalar s' ∧ src = .Reg reg ∧ op = .Sub ∧ wide = true ∧ st.regs dst = .Ptr p ∧
      st.regs reg = .Ptr q ∧ p.cls = q.cls ∧ p.ref_id = q.ref_id ∧ (base reg = base dst →
        s'.contains (Interp.alu op wide (regs dst) (AbsState.operand wide regs src)) = true) := by
  obtain ⟨s,out,read,writable,effect,rfl⟩ := alu_spec accepted
  have result : (st.set_reg dst out).regs dst = out := by simp
  rw [result]
  cases dstIs : st.regs dst with
  | NotInit =>
    rw [dstIs] at effect
    cases effect
  | Scalar a =>
    -- with a scalar on the left only another scalar is accepted
    rw [dstIs] at effect
    cases effect with
    | scalars _ b =>
      rcases pointer with ⟨p,held⟩ | ⟨reg,p,rfl,held⟩
      · rw [dstIs] at held
        cases held
      · have srcHeld := (AbsState.get_eq_ok.mp read).1
        rw [held] at srcHeld
        cases srcHeld
  | Ptr p =>
    rw [dstIs] at effect
    have held := described.ptr dst p dstIs
    cases out with
    | NotInit => cases effect
    | Ptr p' =>
      obtain ⟨o,member,moved⟩ := offset_of_aluEffect effect held
        (fun b same => source_contains described (same ▸ read))
      refine .inl ⟨p',o,rfl,?_,member,moved⟩
      intro narrow
      cases effect with
      | arena _ _ arena => exact arena
      | forward _ _ full | backward _ _ full => exact absurd (narrow.symm.trans full) (by decide)
    | Scalar s' =>
      cases effect with
      | difference _ q full fixed sub cls ref =>
        cases src with
        | Imm imm => cases read
        | Reg reg =>
          have there := (AbsState.get_eq_ok.mp read).1
          refine .inr ⟨_,reg,p,q,rfl,rfl,sub,full,rfl,there,cls,ref,fun sameBase => ?_⟩
          have heldSrc := described.ptr reg q there
          subst full sub
          have distance : Interp.alu .Sub true (regs dst) (regs reg) = (regs dst - base dst) - (regs reg - base reg) := by
            rw [sameBase]
            simp only [Interp.alu,if_true]
            bv_omega
          rw [AbsState.operand,distance]
          exact Scalar.sub_contains held heldSrc

def unshifted (cls : PtrClass) : PtrVal := { PtrVal.region cls 8#64 with off := Scalar.constant 0#64 }
def two_pointers (cls : PtrClass) : AbsState :=
  { regs := fun reg => if reg = 1 ∨ reg = 2 then .Ptr (unshifted cls) else .NotInit
    stack := Stack.default
    refs := [] }
lemma two_pointers_described (cls : PtrClass) (base : U64) : Described (two_pointers cls) (fun _ => base) (fun _ => base) := by
  constructor
  · intro reg s held
    simp only [two_pointers] at held
    split at held <;> cases held
  · intro reg p held
    simp only [two_pointers] at held
    split at held <;> cases held
    rw [sub_self]
    exact Scalar.contains_constant.mpr rfl
/-- Two map values of different maps: `r1 - r2` is accepted as the constant zero while the
    values lie 4096 bytes apart. And `w1 += 0` on an arena pointer keeps offset zero while
    the result is the low half of the base. -/
theorem alu_pointer_unsound : (∃ st' s', Yields (alu (two_pointers .MapValue) 0 true .Sub 1 (.Reg 2)) st' ∧ st'.regs 1 = .Scalar s' ∧
      s'.contains (Interp.alu .Sub true 0xffff800000002000#64 0xffff800000001000#64) = false) ∧
    ∃ st' p', Yields (alu (two_pointers .Arena) 0 false .Add 1 (.Imm 0#32)) st' ∧ st'.regs 1 = .Ptr p' ∧
      p'.off.contains (Interp.alu .Add false 0xffff800000000000#64 0#64 - 0xffff800000000000#64) = false := by
  refine ⟨⟨_,_,⟨_,rfl⟩,rfl,?_⟩,⟨_,_,⟨_,rfl⟩,rfl,?_⟩⟩ <;> decide +kernel
/-- The difference of two pointers into one map value at `0x1000`. -/
theorem alu_pointer_sound_difference :
    ∃ st' s', Yields (alu (two_pointers .MapValue) 0 true .Sub 1 (.Reg 2)) st' ∧ st'.regs 1 = .Scalar s' ∧
      s'.contains (Interp.alu .Sub true 0x1000#64 0x1000#64) = true := by
  have yields : ∃ st', Yields (alu (two_pointers .MapValue) 0 true .Sub 1 (.Reg 2)) st' ∧ ∃ s', st'.regs 1 = .Scalar s' :=
    ⟨_,⟨_,rfl⟩,_,rfl⟩
  obtain ⟨st',done,s,held⟩ := yields
  rcases alu_pointer_sound (two_pointers .MapValue) st' 0 true .Sub 1 (.Reg 2) (fun _ => 0x1000#64) (fun _ => 0x1000#64)
    (two_pointers_described _ _) (.inl ⟨_,rfl⟩) done with ⟨p,_,pointer,_⟩ | ⟨s',_,_,_,scalar,_,_,_,_,_,_,_,contains⟩
  · rw [held] at pointer
    cases pointer
  · exact ⟨st',s',done,scalar,contains rfl⟩
end Narf.Bpf
