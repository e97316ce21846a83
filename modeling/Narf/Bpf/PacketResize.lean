import Narf.Bpf.CallSpec
import Narf.Bpf.Fixpoint
import Narf.Bpf.Frame

/-! Which proven packet extents outlive a call that may resize the packet. Registers
are always cleared by a kfunc that takes the context; spilled slots are not, and a
subprogram call clears neither. -/

namespace Narf.Bpf
open Narf.Lib Narf.Lib.Traced

def is_bound (value : AbsValue) : Bool :=
  value.ptr_is (fun p => p.cls == .Mem && p.key.is_some && p.size.isSome)
def NoBounds (st : AbsState) : Prop :=
  (∀ reg, is_bound (st.regs reg) = false) ∧ ∀ index value, st.stack.spilled index = some value → is_bound value = false
lemma exists_ptr_of_is_bound {value : AbsValue} (bound : is_bound value) : ∃ p, value = .Ptr p := by
  cases value with
  | Ptr p => exact ⟨p,rfl⟩
  | NotInit | Scalar => cases bound
lemma invalidate_packet_bounds_regs (st : AbsState) (reg : Reg) : is_bound (st.invalidate_packet_bounds.regs reg) = false := by
  simp only [AbsState.invalidate_packet_bounds]
  cases st.regs reg with
  | NotInit | Scalar => rfl
  | Ptr p =>
    by_cases packet : p.cls = .Mem ∧ p.key.is_some
    · simp [packet,is_bound,AbsValue.ptr_is]
    · simp only [packet,if_false,is_bound,AbsValue.ptr_is]
      by_cases mem : p.cls = .Mem
      · simp [mem,show p.key.is_some = false by simpa [mem] using packet]
      · simp [mem]

namespace Analysis

/-! ### What a kfunc's arguments clear -/
/-- Argument `k` makes the call drop the pointer `p` spilled in slot `index`: it consumes
    the pointer's reference, or it is a frame region the kfunc fills over the slot. -/
def ArgClears (st : AbsState) (k : Nat) (arg : ArgDesc) (index : Nat) (p : PtrVal) : Prop :=
  ∃ q, st.regs (arg_reg k) = .Ptr q ∧ (arg.consumes_in_arg_position = true ∧ q.ref_id = p.ref_id ∨
      arg.consumes_in_arg_position = false ∧ (∃ key, arg.kind = .Ptr .Mem key) ∧
        arg.flags.contains ArgFlags.UNINIT = true ∧ q.cls = .Stack ∧
        ∃ off len, q.off.as_const = some off ∧ st.regs (arg_reg (k + 1)) = .Scalar len ∧
          Stack.Touches off.toInt len.unsigned_bounds.2.toNat index)
lemma PtrKind_cls_ne_stack (kind : PtrKind) : kind.cls ≠ .Stack := by cases kind <;> decide

variable {st mid st' : AbsState} {desc : KfuncDesc} {k : Nat} {arg : ArgDesc} {args : List ArgDesc}
lemma spilled_of_argEffect (effect : ArgEffect st desc k arg mid) (index : Nat) (p : PtrVal) :
    mid.stack.spilled index = some (.Ptr p) ↔ st.stack.spilled index = some (.Ptr p) ∧ ¬ ArgClears st k arg index p := by
  cases effect with
  | word s held =>
    have inert : ¬ ArgClears st k arg index p := by
      rintro ⟨q,other,_⟩
      rw [held] at other
      cases other
    simp [inert]
  | handle kind key q ptr keeps cls unshifted =>
    have inert : ¬ ArgClears st k arg index p := by
      rintro ⟨r,other,⟨consumes,_⟩ | ⟨_,_,_,stack,_⟩⟩
      · rw [keeps] at consumes
        cases consumes
      · cases ptr.held.symm.trans other
        exact PtrKind_cls_ne_stack kind (cls ▸ stack)
    simp [inert]
  | releases kind key q id ptr consumes cls unshifted ref held =>
    have clears : ArgClears st k arg index p ↔ p.ref_id = some id := by
      constructor
      · rintro ⟨r,other,⟨_,same⟩ | ⟨keeps,_⟩⟩
        · cases ptr.held.symm.trans other
          exact same.symm.trans ref
        · rw [consumes] at keeps
          cases keeps
      · exact fun same => ⟨q,ptr.held,.inl ⟨consumes,ref.trans same.symm⟩⟩
    rw [clears]
    change (st.stack.kill_values _).spilled index = _ ↔ _
    rw [Stack.spilled_kill_values]
    simp [AbsValue.ptr_is]
  | region key q _ ptr keeps effect =>
    cases effect with
    | elsewhere outside =>
      have inert : ¬ ArgClears st k arg index p := by
        rintro ⟨r,other,⟨consumes,_⟩ | ⟨_,_,_,stack,_⟩⟩
        · rw [keeps] at consumes
          cases consumes
        · cases ptr.held.symm.trans other
          exact outside stack
      simp [inert]
    | reads off len frame readable initialized =>
      have inert : ¬ ArgClears st k arg index p := by
        rintro ⟨r,other,⟨consumes,_⟩ | ⟨_,_,uninit,_⟩⟩
        · rw [keeps] at consumes
          cases consumes
        · rw [readable] at uninit
          cases uninit
      simp [inert]
    | fills off len frame uninit =>
      have clears : ArgClears st k arg index p ↔ Stack.Touches off.toInt len.unsigned_bounds.2.toNat index := by
        constructor
        · rintro ⟨r,other,⟨consumes,_⟩ | ⟨_,_,_,_,off',len',const,length,touched⟩⟩
          · rw [keeps] at consumes
            cases consumes
          · cases ptr.held.symm.trans other
            cases frame.constOff.symm.trans const
            cases frame.length.symm.trans length
            exact touched
        · exact fun touched => ⟨q,ptr.held,.inr ⟨keeps,⟨key,ptr.wanted⟩,uninit,frame.stack,off,len,frame.constOff,frame.length,touched⟩⟩
      rw [clears]
      exact Stack.spilled_write_unspecified.trans And.comm
/-- Checking arguments only ever drops pointers from registers. -/
def RegsShrink (st mid : AbsState) : Prop :=
  ∀ reg, mid.regs reg = st.regs reg ∨ mid.regs reg = .NotInit ∧ ∃ p, st.regs reg = .Ptr p
lemma regsShrink_of_argEffect (effect : ArgEffect st desc k arg mid) : RegsShrink st mid := by
  intro reg
  cases effect with
  | word | handle => exact .inl rfl
  | region key q _ ptr keeps effect => cases effect <;> exact .inl rfl
  | releases kind key q id ptr consumes cls unshifted ref held =>
    change (if (st.regs reg).ptr_is _ then AbsValue.NotInit else st.regs reg) = _ ∨ _
    split
    · next killed =>
      refine .inr ⟨?_,?_⟩
      · exact if_pos killed
      · cases value : st.regs reg with
        | NotInit | Scalar => rw [value] at killed; cases killed
        | Ptr p => exact ⟨p,rfl⟩
    · exact .inl rfl
lemma held_of_argEffect (effect : ArgEffect st desc k arg mid) : st.regs (arg_reg k) ≠ .NotInit := by
  cases effect with
  | word s held => simp [held]
  | handle kind key q ptr keeps cls unshifted | region key q _ ptr keeps effect | releases kind key q id ptr consumes cls unshifted ref held =>
    simp [ptr.held]
lemma held_of_argsEffect
    (effect : ArgsEffect desc args k st st') {j : Nat} (bound : j < args.length) : st.regs (arg_reg (k + j)) ≠ .NotInit := by
  induction effect generalizing j with
  | done k st => cases bound
  | next arg rest k st mid st' first later ih =>
    cases j with
    | zero => exact held_of_argEffect first
    | succ j =>
      have inner := ih (Nat.lt_of_succ_lt_succ bound)
      rw [add_assoc,add_comm 1] at inner
      rcases regsShrink_of_argEffect first (arg_reg (k + (j + 1))) with same | ⟨gone,_⟩
      · rw [← same]
        exact inner
      · exact absurd gone inner
/-- Some argument from index `k` on clears the slot. -/
def Clears (st : AbsState) (args : List ArgDesc) (k index : Nat) (p : PtrVal) : Prop :=
  ∃ j arg, args[j]? = some arg ∧ ArgClears st (k + j) arg index p
lemma argClears_of_shrink (shrunk : RegsShrink st mid) {index : Nat}
    {p : PtrVal} (held : mid.regs (arg_reg k) ≠ .NotInit) : ArgClears mid k arg index p ↔ ArgClears st k arg index p := by
  have same : mid.regs (arg_reg k) = st.regs (arg_reg k) := by
    rcases shrunk (arg_reg k) with same | ⟨gone,_⟩
    · exact same
    · exact absurd gone held
  have length (len : Scalar) : mid.regs (arg_reg (k + 1)) = .Scalar len ↔ st.regs (arg_reg (k + 1)) = .Scalar len := by
    rcases shrunk (arg_reg (k + 1)) with other | ⟨gone,q,other⟩
    · rw [other]
    · simp [gone,other]
  simp [ArgClears,same,length]
lemma spilled_of_argsEffect (effect : ArgsEffect desc args k st st') (index : Nat) (p : PtrVal) :
    st'.stack.spilled index = some (.Ptr p) ↔ st.stack.spilled index = some (.Ptr p) ∧ ¬ Clears st args k index p := by
  induction effect with
  | done k st => simp [Clears]
  | next arg rest k st mid st' first later ih =>
    -- the later arguments see the registers they saw before the first one
    have rest_iff : Clears mid rest (k + 1) index p ↔ ∃ j arg', rest[j]? = some arg' ∧ ArgClears st (k + (j + 1)) arg' index p := by
      refine exists_congr fun j => exists_congr fun arg' => and_congr_right fun found => ?_
      have held := held_of_argsEffect later (List.getElem?_eq_some_iff.mp found).1
      rw [argClears_of_shrink (regsShrink_of_argEffect first) held,add_assoc,add_comm 1]
    have all_iff : Clears st (arg :: rest) k index p ↔ ArgClears st k arg index p ∨ Clears mid rest (k + 1) index p := by
      rw [rest_iff]
      constructor
      · rintro ⟨j,arg',found,clears⟩
        cases j with
        | zero =>
          cases found
          exact .inl clears
        | succ j => exact .inr ⟨j,arg',found,clears⟩
      · rintro (clears | ⟨j,arg',found,clears⟩)
        · exact ⟨0,arg,rfl,clears⟩
        · exact ⟨j + 1,arg',found,clears⟩
    rw [ih,spilled_of_argEffect first,all_iff,and_assoc,not_or]

/-! ### After the call -/
lemma spilled_after_kfunc (desc : KfuncDesc) (i : Nat) (st : AbsState) (value : AbsValue) (index : Nat) :
    (after_kfunc desc i st value).stack.spilled index = (awaited desc st).stack.spilled index := by
  unfold after_kfunc
  split <;> split <;> rfl
/-- A kfunc that takes the context clears the registers; a spilled extent is gone exactly
    when the await point or an argument clears it. -/
lemma noBounds_after_kfunc {i : Nat} {checked : AbsState} {value : AbsValue}
    (resizes : takes_ctx desc) (effect : ArgsEffect desc desc.args 0 st checked) :
    NoBounds (after_kfunc desc i checked value) ↔ ∀ index p, st.stack.spilled index = some (.Ptr p) → is_bound (.Ptr p) →
        awaits_out desc p ∨ Clears st desc.args 0 index p := by
  have regs : ∀ reg, is_bound ((after_kfunc desc i checked value).regs reg) = false := by
    intro reg
    rw [after_kfunc,if_pos resizes]
    exact invalidate_packet_bounds_regs _ reg
  have slots : ∀ index p, (after_kfunc desc i checked value).stack.spilled index = some (.Ptr p) ↔
      (st.stack.spilled index = some (.Ptr p) ∧ ¬ Clears st desc.args 0 index p) ∧ awaits_out desc p = false := by
    intro index p
    rw [spilled_after_kfunc,← spilled_of_argsEffect effect]
    exact Stack.spilled_kill_values
  constructor
  · intro none index p held bound
    by_contra kept
    rw [not_or,Bool.not_eq_true] at kept
    have survives := (slots index p).mpr ⟨⟨held,kept.2⟩,kept.1⟩
    rw [none.2 index _ survives] at bound
    cases bound
  · intro cleared
    refine ⟨regs,fun index found held => ?_⟩
    by_contra bound
    rw [Bool.not_eq_false] at bound
    obtain ⟨p,rfl⟩ := exists_ptr_of_is_bound bound
    obtain ⟨⟨before,notCleared⟩,notAwaited⟩ := (slots index p).mp held
    rcases cleared index p before bound with awaitedOut | clears
    · rw [notAwaited] at awaitedOut
      cases awaitedOut
    · exact notCleared clears
lemma noBounds_after_subprog (st : AbsState) : NoBounds (after_subprog st) ↔
      (∀ reg : Reg, 6 ≤ reg.val → is_bound (st.regs reg) = false) ∧ (passed_frame_pointer st ∨
          ∀ index value, st.stack.spilled index = some value → is_bound value = false) := by
  have regs : (∀ reg, is_bound ((after_subprog st).regs reg) = false) ↔ ∀ reg : Reg, 6 ≤ reg.val → is_bound (st.regs reg) = false := by
    constructor
    · intro none reg saved
      have kept := none reg
      have notArg : is_arg_reg reg = false := by
        unfold is_arg_reg
        rw [decide_eq_false_iff_not]
        omega
      have notResult : reg ≠ Reg.R0 := by
        rintro rfl
        cases saved
      rwa [regs_after_subprog,notArg,if_neg (by decide),if_neg notResult] at kept
    · intro none reg
      rw [regs_after_subprog]
      split
      · rfl
      · split
        · rfl
        · next notArg notResult =>
          apply none
          have positive : reg.val ≠ 0 := fun zero => notResult (Fin.ext zero)
          simp only [is_arg_reg,decide_eq_true_eq] at notArg
          omega
  have slots : (∀ index value, (after_subprog st).stack.spilled index = some value → is_bound value = false) ↔
      (passed_frame_pointer st ∨ ∀ index value, st.stack.spilled index = some value → is_bound value = false) := by
    rw [stack_after_subprog]
    cases passed_frame_pointer st <;> simp
  rw [NoBounds,regs,slots]
/-- Exactly when no proven packet extent outlives a call: after a kfunc that takes the
    context, every extent spilled before it must be one the call itself drops; after a
    subprogram call, none may be in R6 and up, nor spilled in a frame the callee was not
    handed. -/
theorem no_bounds_after_call_iff (a : Analysis) (st : AbsState) (slot : Nat) :
    (∀ i id desc st', a.kfunc_by_id slot id = .ok desc → takes_ctx desc = true → Yields (a.call_kfunc st slot i id) st' →
      (NoBounds st' ↔ ∀ index p, st.stack.spilled index = some (.Ptr p) → is_bound (.Ptr p) = true →
        awaits_out desc p = true ∨ Clears st desc.args 0 index p)) ∧
    ∀ next_slot off st', Yields (a.call_subprog st slot next_slot off) st' →
      (NoBounds st' ↔ (∀ reg : Reg, 6 ≤ reg.val → is_bound (st.regs reg) = false) ∧ (passed_frame_pointer st = true ∨
          ∀ index value, st.stack.spilled index = some value → is_bound value = false)) := by
  constructor
  · intro i id desc st' found resizes called
    obtain ⟨desc',checked,value,found',_,effect,_,rfl⟩ := a.call_kfunc_spec called
    cases found.symm.trans found'
    exact noBounds_after_kfunc resizes effect
  · intro next_slot off st' called
    rw [(call_subprog_spec called).2]
    exact noBounds_after_subprog st
end Analysis

/-! ### Accepted programs that keep an extent -/
/-- A kfunc with the shape of `bpf_xdp_adjust_head`: it takes the context. -/
def adjust_head : KfuncDesc :=
  { id := 1#32, addr := 0x1000#64, args := [⟨.Ptr .Ctx TypeKey.NONE,.Static,ArgFlags.NONE⟩], ret := ArgDesc.SCALAR64,
    may_suspend := false, context := .Atomic }
/-- A program on a packet hook with that kfunc. -/
def packet_program (insns : List Insn) : Program :=
  { insns, context := .Atomic, ctx_fields := [⟨.Ptr .Mem 1#32,.Static,ArgFlags.NONE⟩,⟨.Ptr .MemEnd 1#32,.Static,ArgFlags.NONE⟩],
    kfuncs := [adjust_head], maps := [], objects := [] }
/-- Load `data` and `data_end` and leave the program unless `data + 8 <= data_end`. -/
def check_eight_bytes (skip : BitVec 16) : List Insn :=
  [⟨0xbf#8,0x16#8,0#16,0#32⟩,   -- r6 = r1
   ⟨0x79#8,0x17#8,0#16,0#32⟩,   -- r7 = *(u64 *)(r1 + 0)
   ⟨0x79#8,0x18#8,8#16,0#32⟩,   -- r8 = *(u64 *)(r1 + 8)
   ⟨0xbf#8,0x72#8,0#16,0#32⟩,   -- r2 = r7
   ⟨0x07#8,0x02#8,0#16,8#32⟩,   -- r2 += 8
   ⟨0x2d#8,0x82#8,skip,0#32⟩]   -- if r2 > r8 goto skip
/-- Spill the checked pointer, adjust the packet, reload and dereference. -/
def spill_across_adjust : Program :=
  packet_program (check_eight_bytes 6#16 ++
    [⟨0x7b#8,0x7a#8,-8#16,0#32⟩,  -- *(u64 *)(r10 - 8) = r7
     ⟨0xbf#8,0x61#8,0#16,0#32⟩,   -- r1 = r6
     ⟨0x85#8,0x20#8,0#16,1#32⟩,   -- call adjust_head
     ⟨0x79#8,0xa7#8,-8#16,0#32⟩,  -- r7 = *(u64 *)(r10 - 8)
     ⟨0x79#8,0x70#8,0#16,0#32⟩,   -- r0 = *(u64 *)(r7 + 0)
     ⟨0x95#8,0x00#8,0#16,0#32⟩,   -- exit
     ⟨0xb7#8,0x00#8,0#16,0#32⟩,   -- r0 = 0
     ⟨0x95#8,0x00#8,0#16,0#32⟩])  -- exit
/-- Keep the checked pointer in R7 over a subprogram that adjusts the packet. -/
def keep_across_subprog : Program :=
  packet_program (check_eight_bytes 4#16 ++
    [⟨0xbf#8,0x61#8,0#16,0#32⟩,   -- r1 = r6
     ⟨0x85#8,0x10#8,0#16,4#32⟩,   -- call +4
     ⟨0x79#8,0x70#8,0#16,0#32⟩,   -- r0 = *(u64 *)(r7 + 0)
     ⟨0x95#8,0x00#8,0#16,0#32⟩,   -- exit
     ⟨0xb7#8,0x00#8,0#16,0#32⟩,   -- r0 = 0
     ⟨0x95#8,0x00#8,0#16,0#32⟩,   -- exit
     ⟨0x85#8,0x20#8,0#16,1#32⟩,   -- call adjust_head
     ⟨0xb7#8,0x00#8,0#16,0#32⟩,   -- r0 = 0
     ⟨0x95#8,0x00#8,0#16,0#32⟩])  -- exit
/-- Whether the program is accepted, and its main program's state before instruction
    `i` satisfies `test`. -/
def accepted_with (prog : Program) (i : Nat) (test : AbsState → Bool) : Bool :=
  match verify prog,analyse prog with
  | .ok _,.ok (a,_,acc) => (state_at a acc 0 i).any test
  | _,_ => false
/-- Both programs are accepted. After the call to `adjust_head` the first still holds a
    proven extent in the slot it reloads from; after the subprogram that calls it, the
    second holds one in R7. -/
theorem bounds_outlive_resize : accepted_with spill_across_adjust 9 (fun st => (st.stack.spilled 0).any is_bound) = true ∧
      accepted_with keep_across_subprog 8 (fun st => is_bound (st.regs 7)) = true := by
  decide +kernel
/-- The entry state with eight bytes of the packet checked in R7. -/
def checked_entry : AbsState := (AbsState.entry 16#64).set_reg 7 (.Ptr { PtrVal.region .Mem 8#64 with key := 1#32 })
/-- With nothing spilled, the call takes the extent off R7. -/
theorem no_bounds_after_call_checked : is_bound (checked_entry.regs 7) = true ∧
      ∃ st', Yields ((Analysis.of spill_across_adjust ⟨[],fun _ => none,[],fun _ => 0,[],[]⟩).call_kfunc
        checked_entry 0 0 1#32) st' ∧ NoBounds st' := by
  refine ⟨by decide,_,⟨_,rfl⟩,?_⟩
  refine ((Analysis.no_bounds_after_call_iff (Analysis.of spill_across_adjust ⟨[],fun _ => none,[],fun _ => 0,[],[]⟩)
    checked_entry 0).1 0 1#32 adjust_head _ (by decide) (by decide) ⟨_,rfl⟩).mpr ?_
  intro index p held
  cases held
end Narf.Bpf
