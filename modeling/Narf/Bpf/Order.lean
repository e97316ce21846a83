import Narf.Bpf.Frame
import Narf.Bpf.ScalarRefine
import Narf.Bpf.Refs

/-! The order of abstract states: a weaker state says less about the machine. Joining and
widening weaken both states, and a state that passes the subset check is weakened by the
state it was compared with. What states describe is left to the reader of the order. -/

namespace Narf.Bpf
open Bool

/-! ### Weaker values -/
/-- What `p` says of a pointer, `q` says. -/
structure PtrVal.Weakens (p q : PtrVal) : Prop where
  cls : q.cls = p.cls
  key : q.key = p.key
  ref : q.ref_id = p.ref_id
  domain : rank q.domain ≤ rank p.domain
  offset : ∀ v, p.off.contains v = true → q.off.contains v = true
  nullable : q.nullable = false → p.nullable = false
  size : ∀ n, q.size = some n → ∃ m, p.size = some m ∧ n.toNat ≤ m.toNat
  readonly : q.readonly = false → p.readonly = false
/-- What `a` says of a value, `b` says: nothing is said of an unset register, and a number
    that may be anything is the weakest of those that are set. -/
inductive AbsValue.Weakens : AbsValue → AbsValue → Prop where
  | notInit (a : AbsValue) : Weakens a .NotInit
  | anything (a : AbsValue) {u : Bpf.Scalar} (all : ∀ v, u.contains v = true) : Weakens a (.Scalar u)
  | scalar {s u : Bpf.Scalar} (larger : ∀ v, s.contains v = true → u.contains v = true) : Weakens (.Scalar s) (.Scalar u)
  | ptr {p q : PtrVal} (weaker : p.Weakens q) : Weakens (.Ptr p) (.Ptr q)

namespace PtrVal
variable {p q r : PtrVal}
lemma Weakens.trans (first : p.Weakens q) (second : q.Weakens r) : p.Weakens r where
  cls := second.cls.trans first.cls
  key := second.key.trans first.key
  ref := second.ref.trans first.ref
  domain := le_trans second.domain first.domain
  offset v mem := second.offset v (first.offset v mem)
  nullable certain := first.nullable (second.nullable certain)
  size n sized := by
    obtain ⟨m,held,less⟩ := second.size n sized
    obtain ⟨k,found,more⟩ := first.size m held
    exact ⟨k,found,le_trans less more⟩
  readonly free := first.readonly (second.readonly free)
lemma rank_weaker_domain (a b : ValidityDomain) : rank (weaker_domain a b) ≤ rank a ∧ rank (weaker_domain a b) ≤ rank b := by
  unfold weaker_domain
  split <;> omega
lemma join_size_le {a b : Option U64} {n : U64} (joined : join_size a b = some n) :
    ∃ m k, a = some m ∧ b = some k ∧ n.toNat ≤ m.toNat ∧ n.toNat ≤ k.toNat := by
  cases a with
  | none => cases joined
  | some m =>
    cases b with
    | none => cases joined
    | some k =>
      cases joined
      refine ⟨m,k,rfl,rfl,?_⟩
      unfold umin
      split <;> omega
lemma join_weakens (joined : p.join q = some r) : p.Weakens r ∧ q.Weakens r := by
  unfold join at joined
  split at joined
  · cases joined
  next same =>
  obtain ⟨cls,key,ref⟩ : p.cls = q.cls ∧ p.key = q.key ∧ p.ref_id = q.ref_id := by simpa using same
  cases joined
  have domains := rank_weaker_domain p.domain q.domain
  constructor
  · exact
      { cls := rfl, key := rfl, ref := rfl, domain := domains.1, offset := fun v mem => Scalar.join_contains_left mem _
        nullable := fun certain => (or_eq_false_iff.mp certain).1, size := fun n sized => by
          obtain ⟨m,k,first,_,less,_⟩ := join_size_le sized
          exact ⟨m,first,less⟩
        readonly := fun free => (or_eq_false_iff.mp free).1 }
  · exact
      { cls, key, ref, domain := domains.2, offset := fun v mem => Scalar.join_contains_right _ mem
        nullable := fun certain => (or_eq_false_iff.mp certain).2, size := fun n sized => by
          obtain ⟨m,k,_,second,_,less⟩ := join_size_le sized
          exact ⟨k,second,less⟩
        readonly := fun free => (or_eq_false_iff.mp free).2 }
lemma widen_weakens {thresholds : List I64} (widened : p.widen q thresholds = some r) : p.Weakens r ∧ q.Weakens r := by
  unfold widen at widened
  rw [Option.map_eq_some_iff] at widened
  obtain ⟨joined,both,rfl⟩ := widened
  obtain ⟨left,right⟩ := join_weakens both
  exact ⟨{ left with offset := fun v mem => Scalar.widen_contains thresholds (.inl mem) },
    { right with offset := fun v mem => Scalar.widen_contains thresholds (.inr mem) }⟩
lemma weakens_of_subset (subset : p.is_subset_of q) : p.Weakens q := by
  simp only [is_subset_of,and_eq_true,beq_iff_eq,or_eq_true,not_eq_true'] at subset
  obtain ⟨⟨⟨⟨⟨⟨⟨cls,key⟩,ref⟩,domain⟩,offset⟩,nullable⟩,readonly⟩,size⟩ := subset
  refine
    { cls := cls.symm, key := key.symm, ref := ref.symm, domain := by rw [domain]
      offset := fun v mem => Scalar.contains_of_is_subset_of offset mem
      nullable := fun certain => nullable.resolve_left (by simp [certain])
      size := fun n sized => ?_
      readonly := fun free => readonly.resolve_left (by simp [free]) }
  rw [sized] at size
  cases held : p.size with
  | none => simp [held,size_covers] at size
  | some m => exact ⟨m,rfl,by simpa [held,size_covers] using size⟩
end PtrVal

namespace AbsValue
lemma Weakens.trans {a b c : AbsValue} (first : a.Weakens b) (second : b.Weakens c) : a.Weakens c := by
  cases second with
  | notInit => exact .notInit a
  | anything _ all => exact .anything a all
  | scalar larger =>
    cases first with
    | anything _ all => exact .anything a (fun v => larger v (all v))
    | scalar large => exact .scalar (fun v mem => larger v (large v mem))
  | ptr weaker =>
    cases first with
    | ptr weak => exact .ptr (weak.trans weaker)
variable (a b : AbsValue)
lemma weakens_unknown : a.Weakens UNKNOWN_SCALAR := .anything a Scalar.contains_unknown
lemma join_weakens : a.Weakens (a.join b) ∧ b.Weakens (a.join b) := by
  cases a with
  | NotInit => exact ⟨.notInit _,.notInit _⟩
  | Scalar s =>
    cases b with
    | NotInit => exact ⟨.notInit _,.notInit _⟩
    | Scalar u => exact ⟨.scalar (fun v mem => Scalar.join_contains_left mem u),
        .scalar (fun v mem => Scalar.join_contains_right s mem)⟩
    | Ptr q => exact ⟨weakens_unknown _,weakens_unknown _⟩
  | Ptr p =>
    cases b with
    | NotInit => exact ⟨.notInit _,.notInit _⟩
    | Scalar u => exact ⟨weakens_unknown _,weakens_unknown _⟩
    | Ptr q =>
      simp only [join]
      cases joined : p.join q with
      | none => exact ⟨weakens_unknown _,weakens_unknown _⟩
      | some r =>
        obtain ⟨left,right⟩ := PtrVal.join_weakens joined
        exact ⟨.ptr left,.ptr right⟩
lemma widen_weakens (thresholds : List I64) : a.Weakens (a.widen b thresholds) ∧ b.Weakens (a.widen b thresholds) := by
  unfold widen
  split
  · exact ⟨.scalar (fun v mem => Scalar.widen_contains thresholds (.inl mem)),
      .scalar (fun v mem => Scalar.widen_contains thresholds (.inr mem))⟩
  · next p q =>
    cases widened : p.widen q thresholds with
    | none => exact ⟨weakens_unknown _,weakens_unknown _⟩
    | some r =>
      obtain ⟨left,right⟩ := PtrVal.widen_weakens widened
      exact ⟨.ptr left,.ptr right⟩
  · exact join_weakens a b
lemma weakens_of_subset {a b : AbsValue} (subset : a.is_subset_of b) : a.Weakens b := by
  cases b with
  | NotInit => exact .notInit a
  | Scalar u =>
    cases a with
    | Scalar s => exact .scalar (fun v mem => Scalar.contains_of_is_subset_of subset mem)
    | NotInit | Ptr => cases subset
  | Ptr q =>
    cases a with
    | Ptr p => exact .ptr (PtrVal.weakens_of_subset subset)
    | NotInit | Scalar => cases subset
end AbsValue

/-! ### Weaker states -/
/-- What `stack` says of a frame's contents, `stack'` says. -/
structure Stack.Weakens (stack stack' : Stack) : Prop where
  spilled : ∀ index value, stack'.spilled index = some value → ∃ held, stack.spilled index = some held ∧ held.Weakens value
  written : ∀ off, stack'.written off = true → stack.written off = true
/-- What `st` describes, `st'` describes. -/
structure AbsState.Weakens (st st' : AbsState) : Prop where
  regs : ∀ reg, (st.regs reg).Weakens (st'.regs reg)
  stack : st.stack.Weakens st'.stack
  holds : ∀ id, st.holds id = true → st'.holds id = true

namespace StackSlot
lemma spill_combine {s t : StackSlot} {value : AbsValue} {f : AbsValue → AbsValue → AbsValue} {init : BitVec 8}
    (found : spill ⟨init,if s.whole && t.whole then f s.value t.value else .NotInit,s.whole && t.whole⟩ = some value) :
    s.spill = some s.value ∧ t.spill = some t.value ∧ value = f s.value t.value := by
  obtain ⟨whole,same⟩ := Stack.spill_eq_some.mp found
  obtain ⟨first,second⟩ := and_eq_true_iff.mp whole
  exact ⟨Stack.spill_eq_some.mpr ⟨first,rfl⟩,Stack.spill_eq_some.mpr ⟨second,rfl⟩,by simpa [first,second] using same.symm⟩
end StackSlot

namespace Stack
lemma Weakens.trans {stack mid stack' : Stack} (first : stack.Weakens mid) (second : mid.Weakens stack') : stack.Weakens stack' := by
  refine ⟨fun index value found => ?_,fun off marked => first.written off (second.written off marked)⟩
  obtain ⟨between,there,more⟩ := second.spilled index value found
  obtain ⟨held,here,less⟩ := first.spilled index between there
  exact ⟨held,here,less.trans more⟩
lemma combine_weakens {f : StackSlot → StackSlot → StackSlot} {g : AbsValue → AbsValue → AbsValue} (shape : ∀ s t : StackSlot, f s t =
      ⟨s.init &&& t.init,if s.whole && t.whole then g s.value t.value else .NotInit,s.whole && t.whole⟩)
    (bound : ∀ a b : AbsValue, a.Weakens (g a b) ∧ b.Weakens (g a b)) (stack other : Stack) :
    stack.Weakens (stack.combine f other) ∧ other.Weakens (stack.combine f other) := by
  have slots : ∀ index, (stack.combine f other).slot index = f (stack.slot index) (other.slot index) :=
    slot_combine f (fun t => by simp [shape,StackSlot.EMPTY]) stack other
  have spills : ∀ index value, (stack.combine f other).spilled index = some value →
      stack.spilled index = some (stack.slot index).value ∧ other.spilled index = some (other.slot index).value ∧
        value = g (stack.slot index).value (other.slot index).value := by
    intro index value found
    rw [spilled,slots,shape] at found
    exact StackSlot.spill_combine found
  have marks : ∀ off, (stack.combine f other).written off →
      stack.written off ∧ other.written off := by
    intro off marked
    rw [written,slots,shape,BitVec.getLsbD_and] at marked
    exact and_eq_true_iff.mp marked
  refine ⟨⟨fun index value found => ?_,fun off marked => (marks off marked).1⟩,
    ⟨fun index value found => ?_,fun off marked => (marks off marked).2⟩⟩
  · obtain ⟨here,_,rfl⟩ := spills index value found
    exact ⟨_,here,(bound _ _).1⟩
  · obtain ⟨_,there,rfl⟩ := spills index value found
    exact ⟨_,there,(bound _ _).2⟩
lemma join_weakens (stack other : Stack) : stack.Weakens (stack.join other) ∧ other.Weakens (stack.join other) :=
  combine_weakens (fun _ _ => rfl) AbsValue.join_weakens stack other
lemma widen_weakens (stack next : Stack) (thresholds : List I64) :
    stack.Weakens (stack.widen next thresholds) ∧ next.Weakens (stack.widen next thresholds) :=
  combine_weakens (g := fun a b => a.widen b thresholds) (fun _ _ => rfl) (fun a b => AbsValue.widen_weakens a b thresholds)
    stack next
lemma weakens_of_subset {stack other : Stack} (subset : stack.is_subset_of other) : stack.Weakens other := by
  refine ⟨fun index value found => ?_,fun off marked => ?_⟩
  · have slots := slot_is_subset_of subset index
    simp only [StackSlot.is_subset_of,and_eq_true,or_eq_true,not_eq_true'] at slots
    obtain ⟨whole,rfl⟩ := spill_eq_some.mp found
    obtain ⟨held,less⟩ := slots.2.resolve_left (by simp [whole])
    exact ⟨_,spill_eq_some.mpr ⟨held,rfl⟩,AbsValue.weakens_of_subset less⟩
  · have slots := slot_is_subset_of subset (slot_index off)
    simp only [StackSlot.is_subset_of,and_eq_true,beq_iff_eq] at slots
    have clear := congrArg (·.getLsbD (byte_in_slot off)) slots.1
    rw [written] at marked ⊢
    have inside : byte_in_slot off < 8 := BitVec.lt_of_getLsbD marked
    simpa [marked,inside] using clear
end Stack

namespace AbsState
lemma join_weakens (st other : AbsState) : st.Weakens (st.join other) ∧ other.Weakens (st.join other) := by
  obtain ⟨left,right⟩ := Stack.join_weakens st.stack other.stack
  exact ⟨⟨fun reg => (AbsValue.join_weakens _ _).1,left,fun id held => by rw [holds_join,held,Bool.true_or]⟩,
    ⟨fun reg => (AbsValue.join_weakens _ _).2,right,fun id held => by rw [holds_join,held,Bool.or_true]⟩⟩
lemma widen_weakens (st next : AbsState) (thresholds : List I64) (precise : BitVec 16) :
    st.Weakens (st.widen next thresholds precise) ∧ next.Weakens (st.widen next thresholds precise) := by
  obtain ⟨left,right⟩ := Stack.widen_weakens st.stack (st.stack.join next.stack) thresholds
  have joined := (Stack.join_weakens st.stack next.stack).2
  exact ⟨⟨fun reg => (AbsValue.widen_weakens _ _ _).1,left,fun id held => by rw [holds_widen,held,Bool.true_or]⟩,
    ⟨fun reg => (AbsValue.join_weakens _ _).2.trans (AbsValue.widen_weakens _ _ _).2,joined.trans right,
      fun id held => by rw [holds_widen,held,Bool.or_true]⟩⟩
lemma weakens_of_subset {st other : AbsState} (subset : st.is_subset_of other) : st.Weakens other := by
  refine ⟨fun reg => ?_,?_,fun id held => holds_of_subset subset held⟩
  all_goals simp only [is_subset_of,and_eq_true] at subset
  · exact AbsValue.weakens_of_subset (List.all_eq_true.mp subset.1.1.1 reg (List.mem_finRange reg))
  · exact Stack.weakens_of_subset subset.1.1.2
end AbsState
end Narf.Bpf
