import Narf.Bpf.CallSpec
import Narf.Bpf.Frame

/-! What a successful arithmetic instruction did to the abstract state. -/
namespace Narf.Bpf
open Narf.Lib Narf.Lib.Traced

/-- How an ALU instruction combined its operands. -/
inductive AluEffect (wide : Bool) (op : AluOp) : AbsValue → AbsValue → AbsValue → Prop
  | scalars (a b : Scalar) : AluEffect wide op (.Scalar a) (.Scalar b) (.Scalar (a.alu op wide b))
  | arena (p : PtrVal) (s : AbsValue) (arena : p.cls = .Arena) :
      AluEffect wide op (.Ptr p) s (.Ptr { p with off := arena_off op p.off s })
  | forward (p : PtrVal) (b : Scalar) (full : wide = true) (fixed : p.cls ≠ .Arena) (add : op = .Add) :
      AluEffect wide op (.Ptr p) (.Scalar b) (.Ptr { p with off := p.off.add b })
  | backward (p : PtrVal) (b : Scalar) (full : wide = true) (fixed : p.cls ≠ .Arena) (sub : op = .Sub) :
      AluEffect wide op (.Ptr p) (.Scalar b) (.Ptr { p with off := p.off.sub b })
  | difference (p q : PtrVal) (full : wide = true) (fixed : p.cls ≠ .Arena) (sub : op = .Sub) (cls : p.cls = q.cls)
      (ref : p.ref_id = q.ref_id) : AluEffect wide op (.Ptr p) (.Ptr q) (.Scalar (p.off.sub q.off))

variable {slot : Nat} {wide : Bool} {op : AluOp} {dst : Reg}
lemma alu_value_spec {d s out : AbsValue} (done : Yields (alu_value slot wide op dst d s) out) : AluEffect wide op d s out := by
  cases d with
  | NotInit => simp [alu_value] at done
  | Scalar a =>
    cases s with
    | NotInit | Ptr => simp [alu_value] at done
    | Scalar b =>
      simp only [alu_value,pure_yields] at done
      subst done
      exact .scalars a b
  | Ptr p =>
    simp only [alu_value] at done
    by_cases arena : p.cls = .Arena
    · simp only [arena,if_true,bind_yields,pure_yields] at done
      obtain ⟨_,_,rfl⟩ := done
      rw [← arena]
      exact .arena p s arena
    · rw [if_neg arena] at done
      cases s with
      | NotInit => simp at done
      | Scalar b =>
        dsimp only at done
        by_cases full : (wide && p.cls != .MemEnd)
        · rw [if_pos full] at done
          have wide_ : wide := (Bool.and_eq_true_iff.mp full).1
          cases op <;> simp at done
          · subst done
            exact .forward p b wide_ arena rfl
          · subst done
            exact .backward p b wide_ arena rfl
        · rw [if_neg full] at done
          simp at done
      | Ptr q =>
        dsimp only at done
        split at done
        · next same =>
          simp only [Bool.and_eq_true,beq_iff_eq] at same
          obtain ⟨⟨⟨⟨wide_,sub⟩,cls⟩,ref⟩,_⟩ := same
          rw [pure_yields] at done
          subst done
          exact .difference p q wide_ arena sub cls ref
        · simp at done
lemma alu_spec {st st' : AbsState} {src : Source} (done : Yields (alu st slot wide op dst src) st') :
    ∃ s out, st.source slot src wide = .ok s ∧ dst ≠ Reg.R10 ∧ AluEffect wide op (st.regs dst) s out ∧ st' = st.set_reg dst out := by
  simp only [alu,bind_yields,lift_yields] at done
  obtain ⟨d,dstRead,s,srcRead,out,combined,written⟩ := done
  obtain ⟨writable,rfl⟩ := AbsState.set_eq_ok.mp written
  rw [(AbsState.get_eq_ok.mp dstRead).1]
  exact ⟨s,out,srcRead,writable,alu_value_spec combined,rfl⟩
end Narf.Bpf
