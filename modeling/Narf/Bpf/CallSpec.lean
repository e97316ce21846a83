import Narf.Bpf.RefineSound
import Narf.Bpf.Transfer

/-! What a successful kfunc call did to the abstract state: the effect of each argument,
of the await point and of the returned value. Later results about calls start from
these and not from the code of `call_kfunc`. -/

namespace Narf.Bpf
open Narf.Lib Narf.Lib.Traced

lemma AbsState.set_eq_ok {st st' : AbsState} {slot : Nat} {reg : Reg} {value : AbsValue} :
    st.set slot reg value = .ok st' ↔ reg ≠ Reg.R10 ∧ st.set_reg reg value = st' := by
  unfold set Reg.is_frame_ptr
  by_cases frame : reg = Reg.R10 <;> simp [frame]
lemma AbsState.kill_ptrs_none (st : AbsState) : st.kill_ptrs (fun _ => false) = st := by
  have untouched : ∀ value : AbsValue, value.ptr_is (fun _ => false) = false := by
    intro value
    cases value <;> rfl
  simp [AbsState.kill_ptrs,Stack.kill_values,untouched,Assoc.mapValues]

namespace Analysis
/-- The byte region argument `k` names in the frame, with the length its next argument
    allows. -/
structure FrameArg (st : AbsState) (k : Nat) (arg : ArgDesc) (p : PtrVal) (off : I64) (len : Scalar) : Prop where
  sized : arg.flags.contains ArgFlags.SIZED_BY_NEXT = true
  stack : p.cls = .Stack
  constOff : p.off.as_const = some off
  length : st.regs (arg_reg (k + 1)) = .Scalar len
  below : off.toInt < 0
  above : -(MAX_STACK_BYTES : Int) ≤ off.toInt
  fits : off.toInt + len.unsigned_bounds.2.toNat ≤ 0
/-- What checking a non-consuming byte region did: a frame region is filled or was
    already written, any other region is left alone. -/
inductive RegionEffect (st : AbsState) (k : Nat) (arg : ArgDesc) (p : PtrVal) : AbsState → Prop
  | fills (off : I64) (len : Scalar) (frame : FrameArg st k arg p off len)
      (uninit : arg.flags.contains ArgFlags.UNINIT = true) :
      RegionEffect st k arg p
        { st with stack := st.stack.write_unspecified off.toInt len.unsigned_bounds.2.toNat }
  | reads (off : I64) (len : Scalar) (frame : FrameArg st k arg p off len)
      (readable : arg.flags.contains ArgFlags.UNINIT = false)
      (written : st.stack.is_initialized off.toInt len.unsigned_bounds.2.toNat = true) : RegionEffect st k arg p st
  | elsewhere (outside : p.cls ≠ .Stack) : RegionEffect st k arg p st

variable {st st' : AbsState} {slot k i : Nat} {arg : ArgDesc} {p : PtrVal} {kind : PtrKind} {key : TypeKey}
  {desc : KfuncDesc}

lemma check_mem_arg_spec (checked : Yields (check_mem_arg st slot k arg p) st') : RegionEffect st k arg p st' := by
  simp only [check_mem_arg,guard_yields,bind_yields,lift_yields,Bool.not_eq_true',Bool.not_eq_false] at checked
  obtain ⟨sized,value,read,checked⟩ := checked
  have length := (AbsState.get_eq_ok.mp read).1
  cases value with
  | NotInit | Ptr => simp at checked
  | Scalar len =>
    cases cls : p.cls <;> simp only [cls] at checked
    case Stack =>
      cases const : p.off.as_const with
      | none => simp [const] at checked
      | some off =>
        simp only [const,guard_yields,not_or,not_le,not_lt] at checked
        obtain ⟨⟨below,above,fits⟩,checked⟩ := checked
        have frame : FrameArg st k arg p off len := ⟨sized,cls,const,length,below,above,fits⟩
        cases uninit : arg.flags.contains ArgFlags.UNINIT with
        | true =>
          simp only [uninit,if_true,bind_yields,pure_yields] at checked
          obtain ⟨_,_,rfl⟩ := checked
          exact .fills off len frame uninit
        | false =>
          simp only [uninit,Bool.false_eq_true,if_false,guard_yields,Bool.not_eq_false,pure_yields] at checked
          obtain ⟨written,rfl⟩ := checked
          exact .reads off len frame uninit written
    case Mem | MapValue | Ctx =>
      cases size : p.size with
      | none => simp [size] at checked
      | some size' =>
        simp only [size,guard_yields,pure_yields] at checked
        obtain ⟨_,_,rfl⟩ := checked
        exact .elsewhere (by rw [cls]; decide)
    case Arena =>
      simp only [guard_yields,bind_yields,pure_yields] at checked
      obtain ⟨_,_,_,_,rfl⟩ := checked
      exact .elsewhere (by rw [cls]; decide)
    all_goals simp at checked

structure PtrArg (st : AbsState) (desc : KfuncDesc) (k : Nat) (arg : ArgDesc) (kind : PtrKind) (key : TypeKey)
    (p : PtrVal) : Prop where
  wanted : arg.kind = .Ptr kind key
  held : st.regs (arg_reg k) = .Ptr p
  nonNull : p.nullable = true → arg.flags.contains ArgFlags.NULLABLE = true
  outlives : desc.may_suspend = true → p.domain.survives_await = true
inductive ArgEffect (st : AbsState) (desc : KfuncDesc) (k : Nat) (arg : ArgDesc) : AbsState → Prop
  | word (s : Scalar) (held : st.regs (arg_reg k) = .Scalar s)
      (null : ∀ kind key, arg.kind = .Ptr kind key → s.as_const = some 0#64) : ArgEffect st desc k arg st
  | region (key : TypeKey) (p : PtrVal) (st' : AbsState) (ptr : PtrArg st desc k arg .Mem key p)
      (keeps : arg.consumes_in_arg_position = false) (effect : RegionEffect st k arg p st') :
      ArgEffect st desc k arg st'
  | handle (kind : PtrKind) (key : TypeKey) (p : PtrVal) (ptr : PtrArg st desc k arg kind key p)
      (keeps : arg.consumes_in_arg_position = false) (cls : p.cls = kind.cls)
      (unshifted : p.off.as_const = some 0#64) : ArgEffect st desc k arg st
  | releases (kind : PtrKind) (key : TypeKey) (p : PtrVal) (id : Nat) (ptr : PtrArg st desc k arg kind key p)
      (consumes : arg.consumes_in_arg_position = true) (cls : p.cls = kind.cls)
      (unshifted : p.off.as_const = some 0#64) (ref : p.ref_id = some id) (held : st.holds id = true) :
      ArgEffect st desc k arg ((st.release id).1.kill_ref (some id))

lemma release_arg_spec (released : Yields (release_arg st slot k arg p) st') :
    arg.consumes_in_arg_position = false ∧ st' = st ∨ arg.consumes_in_arg_position ∧ ∃ id, p.ref_id = some id ∧ st.holds id ∧
        st' = (st.release id).1.kill_ref (some id) := by
  unfold release_arg at released
  cases consumes : arg.consumes_in_arg_position with
  | false =>
    simp only [consumes,Bool.false_eq_true,if_false,pure_yields] at released
    exact .inl ⟨rfl,released.symm⟩
  | true =>
    simp only [consumes,if_true] at released
    cases ref : p.ref_id with
    | none => simp [ref] at released
    | some id =>
      simp only [ref,AbsState.release] at released
      cases held : st.holds id with
      | false => simp [held] at released
      | true =>
        simp only [held,pure_yields] at released
        exact .inr ⟨rfl,id,rfl,held,released.symm⟩
/-- The region check of a pointer argument: a byte region that stays with the caller, or
    an unshifted pointer of the wanted class. -/
lemma check_ptr_shape_spec (checked : Yields (check_ptr_shape st slot k arg kind key p) st') :
    kind = .Mem ∧ arg.consumes_in_arg_position = false ∧ RegionEffect st k arg p st' ∨
      st' = st ∧ p.cls = kind.cls ∧ p.off.as_const = some 0#64 := by
  unfold check_ptr_shape at checked
  by_cases mem : kind = .Mem
  · simp only [mem,if_true] at checked
    cases consumes : arg.consumes_in_arg_position with
    | false =>
      simp only [consumes,Bool.false_eq_true,if_false] at checked
      exact .inl ⟨mem,rfl,check_mem_arg_spec checked⟩
    | true =>
      simp only [consumes,if_true,guard_yields,not_or,not_not,pure_yields] at checked
      obtain ⟨⟨cls,unshifted⟩,rfl⟩ := checked
      exact .inr ⟨rfl,by rw [cls,mem]; rfl,unshifted⟩
  · simp only [mem,if_false,guard_yields,Bool.not_eq_true',Bool.not_eq_false,not_not,pure_yields] at checked
    obtain ⟨fits,unshifted,rfl⟩ := checked
    simp only [class_fits,Bool.and_eq_true,beq_iff_eq] at fits
    exact .inr ⟨rfl,fits.1,unshifted⟩
lemma check_ptr_arg_spec (wanted : arg.kind = .Ptr kind key) (held : st.regs (arg_reg k) = .Ptr p)
    (checked : Yields (check_ptr_arg st slot desc k arg kind key p) st') : ArgEffect st desc k arg st' := by
  simp only [check_ptr_arg,guard_yields,bind_yields,Bool.and_eq_true,Bool.not_eq_true',not_and,Bool.not_eq_false] at checked
  obtain ⟨nonNull,outlives,_,mid,shaped,_,_,released⟩ := checked
  have ptr : PtrArg st desc k arg kind key p := ⟨wanted,held,nonNull,outlives⟩
  rcases check_ptr_shape_spec shaped with ⟨rfl,keeps,effect⟩ | ⟨rfl,cls,unshifted⟩
  · rcases release_arg_spec released with ⟨_,rfl⟩ | ⟨consumes,_⟩
    · exact .region key p _ ptr keeps effect
    · rw [keeps] at consumes
      cases consumes
  · rcases release_arg_spec released with ⟨keeps,rfl⟩ | ⟨consumes,id,ref,live,rfl⟩
    · exact .handle kind key p ptr keeps cls unshifted
    · exact .releases kind key p id ptr consumes cls unshifted ref live
variable (a : Analysis)
lemma check_arg_spec (checked : Yields (a.check_arg st slot desc k arg) st') : ArgEffect st desc k arg st' := by
  simp only [check_arg,bind_yields,lift_yields] at checked
  obtain ⟨value,read,checked⟩ := checked
  have held := (AbsState.get_eq_ok.mp read).1
  cases value with
  | NotInit => cases wanted : arg.kind <;> simp [wanted] at checked
  | Scalar s =>
    cases wanted : arg.kind with
    | Void => simp [wanted] at checked
    | Scalar bits signed =>
      simp only [wanted,guard_yields,pure_yields] at checked
      obtain ⟨_,_,rfl⟩ := checked
      exact .word s held (by simp [wanted])
    | Ptr kind key =>
      simp only [wanted] at checked
      split at checked
      · next null =>
        rw [pure_yields] at checked
        subst checked
        simp only [Bool.and_eq_true,beq_iff_eq] at null
        exact .word s held fun _ _ _ => null.2
      · simp at checked
  | Ptr p =>
    cases wanted : arg.kind with
    | Void | Scalar => simp [wanted] at checked
    | Ptr kind key =>
      simp only [wanted] at checked
      exact check_ptr_arg_spec wanted held checked
/-- The arguments from index `k` on, one after the other. -/
inductive ArgsEffect (desc : KfuncDesc) : List ArgDesc → Nat → AbsState → AbsState → Prop
  | done (k : Nat) (st : AbsState) : ArgsEffect desc [] k st st
  | next (arg : ArgDesc) (rest : List ArgDesc) (k : Nat) (st mid st' : AbsState) (first : ArgEffect st desc k arg mid)
      (later : ArgsEffect desc rest (k + 1) mid st') : ArgsEffect desc (arg :: rest) k st st'
lemma check_args_spec {args : List ArgDesc} (checked : Yields (a.check_args slot desc args k st) st') : ArgsEffect desc args k st st' := by
  induction args generalizing k st with
  | nil =>
    simp only [check_args,pure_yields] at checked
    subst checked
    exact .done k st
  | cons arg rest later =>
    simp only [check_args,bind_yields] at checked
    obtain ⟨mid,first,checked⟩ := checked
    exact .next arg rest k st mid st' (a.check_arg_spec first) (later checked)
/-- Whether the call is an await point that drops pointer `p`. -/
def awaits_out (desc : KfuncDesc) (p : PtrVal) : Bool := desc.context == .Sleepable && !p.survives_await
def awaited (desc : KfuncDesc) (st : AbsState) : AbsState := st.kill_ptrs (awaits_out desc)
lemma await_point_spec (awaitedOk : a.await_point st slot i desc = .ok st') : st' = awaited desc st := by
  unfold await_point at awaitedOk
  by_cases sleeps : desc.context = .Sleepable
  · have test : awaits_out desc = fun p => !p.survives_await := by
      funext p
      simp [awaits_out,sleeps]
    simp only [sleeps,if_true,AbsState.kill_at_await] at awaitedOk
    split at awaitedOk
    · cases awaitedOk
    · rw [awaited,test]
      exact (Except.ok.inj awaitedOk).symm
  · have test : awaits_out desc = fun _ => false := by
      funext p
      simp [awaits_out,sleeps]
    rw [if_neg sleeps] at awaitedOk
    rw [awaited,test,AbsState.kill_ptrs_none]
    exact (Except.ok.inj awaitedOk).symm
/-- The reference a call at site `i` returns, if its type is a linear one. -/
def return_ref (desc : KfuncDesc) (i : Nat) : Option Nat :=
  if desc.ret.consumes_in_arg_position then some i else none
/-- The value returned at site `i`: the declared one, with a size stamped on an acquired
    byte region. -/
inductive Returned (desc : KfuncDesc) (i : Nat) : AbsValue → Prop
  | plain : Returned desc i (value_of desc.ret (return_ref desc i))
  | sized (p : PtrVal) (size : U64) (declared : value_of desc.ret (return_ref desc i) = .Ptr p) (mem : p.cls = .Mem) :
      Returned desc i (.Ptr { p with size := some size })
def after_kfunc (desc : KfuncDesc) (i : Nat) (st : AbsState) (value : AbsValue) : AbsState :=
  let kept := forget_args (awaited desc st)
  let held :=
    if desc.ret.consumes_in_arg_position then
      kept.acquire ⟨i,KfuncDesc.is_lock_guard desc.ret,desc.ret.domain⟩
    else kept
  let out := held.set_reg Reg.R0 value
  if takes_ctx desc then out.invalidate_packet_bounds else out
lemma cls_of_acquired_mem {desc : ArgDesc} {ref : Option Nat}
    (acquired : KfuncDesc.is_acquired_mem desc) (declared : value_of desc ref = .Ptr p) : p.cls = .Mem := by
  cases kind : desc.kind with
  | Scalar | Void => simp [KfuncDesc.is_acquired_mem,kind] at acquired
  | Ptr ptr key =>
    cases ptr <;> simp [KfuncDesc.is_acquired_mem,kind] at acquired
    simp only [value_of,kind] at declared
    cases declared
    rfl
lemma acquired_of_mem_size {size : U64}
    (found : acquired_mem_size st slot desc = .ok (some size)) : KfuncDesc.is_acquired_mem desc.ret := by
  unfold acquired_mem_size at found
  split at found
  · cases found
  · next acquired => simpa using acquired
lemma return_value_spec {before : AbsState} {mem_size : Option U64} (sized : acquired_mem_size before slot desc = .ok mem_size)
    (done : return_value st slot i desc mem_size = .ok st') : ∃ value, Returned desc i value ∧ st' =
      (if desc.ret.consumes_in_arg_position then
        st.acquire ⟨i,KfuncDesc.is_lock_guard desc.ret,desc.ret.domain⟩ else st).set_reg Reg.R0 value := by
  unfold return_value at done
  cases consumes : desc.ret.consumes_in_arg_position with
  | false =>
    simp only [consumes,Bool.false_eq_true,if_false] at done
    refine ⟨_,.plain,?_⟩
    rw [return_ref,consumes]
    exact (Except.ok.inj done).symm
  | true =>
    simp only [consumes,if_true] at done
    split at done
    · cases done
    · have ref : return_ref desc i = some i := by rw [return_ref,consumes]; rfl
      refine ⟨_,?_,(Except.ok.inj done).symm⟩
      have asDeclared : Returned desc i (value_of desc.ret (return_ref desc i)) := .plain
      rw [ref] at asDeclared
      cases declared : value_of desc.ret (some i) <;> rw [declared] at asDeclared
      case NotInit => exact asDeclared
      case Scalar s => exact asDeclared
      case Ptr p =>
        cases mem_size with
        | none => exact asDeclared
        | some size =>
          exact .sized p size (by rw [ref,declared]) (cls_of_acquired_mem (acquired_of_mem_size sized) declared)
lemma call_kfunc_spec {id : BitVec 32} (called : Yields (a.call_kfunc st slot i id) st') :
    ∃ desc checked value, a.kfunc_by_id slot id = .ok desc ∧ a.prog.context.permits desc.context ∧
      ArgsEffect desc desc.args 0 st checked ∧ Returned desc i value ∧ st' = after_kfunc desc i checked value := by
  simp only [call_kfunc,bind_yields,lift_yields,guard_yields,pure_yields,Bool.not_eq_true',Bool.not_eq_false] at called
  obtain ⟨desc,found,permitted,checked,args,size,sized,_,_,mid,waited,final,done,rfl⟩ := called
  obtain rfl := a.await_point_spec waited
  obtain ⟨value,declared,rfl⟩ := return_value_spec sized done
  exact ⟨desc,checked,value,found,permitted,a.check_args_spec args,declared,rfl⟩

/-! ### Subprogram calls -/
lemma regs_after_subprog (st : AbsState) (reg : Reg) : (after_subprog st).regs reg =
      if is_arg_reg reg then .NotInit else if reg = Reg.R0 then AbsValue.UNKNOWN_SCALAR else st.regs reg := by
  unfold after_subprog
  split <;> rfl
lemma stack_after_subprog (st : AbsState) : (after_subprog st).stack = if passed_frame_pointer st then st.stack.clobber else st.stack := by
  unfold after_subprog
  dsimp only
  split <;> rfl
inductive Lent : AbsValue → AbsValue → Prop
  | frame (p : PtrVal) (off : I64) (stack : p.cls = .Stack) (const : p.off.as_const = some off) :
      Lent (.Ptr p) (.Ptr (PtrVal.region .Mem (imax (-off) 0#64)))
  | other (value : AbsValue) (outside : ∀ p, value = .Ptr p → p.cls ≠ .Stack) : Lent value value
lemma lend_value_spec {value out : AbsValue} (done : Yields (lend_value slot value) out) : Lent value out := by
  cases value with
  | NotInit =>
    obtain rfl := pure_yields.mp done
    exact .other _ (by simp)
  | Scalar s =>
    obtain rfl := pure_yields.mp done
    exact .other _ (by simp)
  | Ptr p =>
    simp only [lend_value] at done
    by_cases stack : p.cls = .Stack
    · rw [if_pos stack] at done
      split at done
      · simp at done
      · next off const =>
        simp only [guard_yields,bind_yields,pure_yields] at done
        obtain ⟨_,_,_,rfl⟩ := done
        exact .frame p off stack const
    · rw [if_neg stack,pure_yields] at done
      subst done
      exact .other _ (by simpa using stack)

structure CalleeEntry (st entry : AbsState) : Prop where
  args : ∀ reg, is_arg_reg reg = true → Lent (st.regs reg) (entry.regs reg)
  frame : entry.regs Reg.R10 = .Ptr PtrVal.frame_pointer
  others : ∀ reg, is_arg_reg reg = false → reg ≠ Reg.R10 → entry.regs reg = .NotInit
  stack : entry.stack = Stack.default
  refs : entry.refs = []
lemma callee_entry_spec {entry : AbsState} (done : Yields (callee_entry st slot) entry) : CalleeEntry st entry := by
  simp only [callee_entry,bind_yields,pure_yields] at done
  obtain ⟨r1,lent1,r2,lent2,r3,lent3,r4,lent4,r5,lent5,rfl⟩ := done
  refine ⟨fun reg arg => ?_,rfl,fun reg plain differ => ?_,rfl,rfl⟩
  · have cases : reg = 1 ∨ reg = 2 ∨ reg = 3 ∨ reg = 4 ∨ reg = 5 := by
      revert arg
      revert reg
      decide
    rcases cases with rfl | rfl | rfl | rfl | rfl
    · exact lend_value_spec lent1
    · exact lend_value_spec lent2
    · exact lend_value_spec lent3
    · exact lend_value_spec lent4
    · exact lend_value_spec lent5
  · have apart : reg ≠ 1 ∧ reg ≠ 2 ∧ reg ≠ 3 ∧ reg ≠ 4 ∧ reg ≠ 5 := by
      revert plain
      revert reg
      decide
    have notFrame : reg ≠ 10 := differ
    simp [apart,notFrame]
variable {a}
lemma call_subprog_spec {next_slot : Nat} {off : BitVec 32} (called : Yields (a.call_subprog st slot next_slot off) st') :
    (∃ callee entry, a.callee_of next_slot off = some callee ∧ CalleeEntry st entry) ∧ st' = after_subprog st := by
  unfold call_subprog at called
  split at called
  · simp at called
  · next callee found =>
    simp only [bind_yields,pure_yields] at called
    obtain ⟨entry,entered,_,_,rfl⟩ := called
    exact ⟨⟨callee,entry,found,callee_entry_spec entered⟩,rfl⟩
end Analysis
end Narf.Bpf
