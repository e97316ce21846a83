import Narf.Bpf.Order

/-! What an abstract state describes, and that the lattice operations lose no described
machine state. A word of the machine carries the object it was made to point into, if any;
a null pointer is one whose object has base zero. -/

namespace Narf.Bpf

structure Pointee where
  cls : PtrClass
  key : TypeKey
  domain : ValidityDomain
  base : U64
  bytes : Nat
  writable : Bool
  /-- The site whose reference keeps the object. -/
  site : Option Nat

structure Word where
  bits : U64
  object : Option Pointee
/-- The part of the machine an abstract state speaks of: registers, the current frame by
    eight-byte slots and by bytes, and the sites with an outstanding reference. -/
structure Activation where
  regs : Reg → Word
  slots : Nat → Word
  written : Int → Bool
  outstanding : List Nat
/-- A word that points into `o` is as `p` says. A null pointer bounds no memory. -/
structure PtrVal.Describes (p : PtrVal) (o : Pointee) (bits : U64) : Prop where
  cls : o.cls = p.cls
  key : o.key = p.key
  site : o.site = p.ref_id
  domain : rank p.domain ≤ rank o.domain
  offset : p.off.contains (bits - o.base) = true
  nonNull : p.nullable = false → o.base ≠ 0#64
  size : o.base ≠ 0#64 → ∀ n, p.size = some n → n.toNat ≤ o.bytes
  writable : p.readonly = false → o.writable = true

def AbsValue.Describes : AbsValue → Word → Prop
  | .NotInit,_ => True
  | .Scalar s,w => s.contains w.bits = true
  | .Ptr p,w => ∃ o, w.object = some o ∧ p.Describes o w.bits
structure AbsState.Describes (st : AbsState) (m : Activation) : Prop where
  regs : ∀ reg, (st.regs reg).Describes (m.regs reg)
  spilled : ∀ index, (st.stack.slot index).whole = true → (st.stack.slot index).value.Describes (m.slots index)
  written : ∀ off, (st.stack.slot (Stack.slot_index off)).init.getLsbD (Stack.byte_in_slot off) = true →
    m.written off = true
  refs : ∀ site ∈ m.outstanding, st.holds site = true
lemma PtrVal.Weakens.describes {p q : PtrVal} (weaker : p.Weakens q) {o : Pointee} {bits : U64}
    (described : p.Describes o bits) : q.Describes o bits where
  cls := described.cls.trans weaker.cls.symm
  key := described.key.trans weaker.key.symm
  site := described.site.trans weaker.ref.symm
  domain := le_trans weaker.domain described.domain
  offset := weaker.offset _ described.offset
  nonNull certain := described.nonNull (weaker.nullable certain)
  size somewhere n sized := by
    obtain ⟨m,held,less⟩ := weaker.size n sized
    exact le_trans less (described.size somewhere m held)
  writable free := described.writable (weaker.readonly free)
lemma AbsValue.Weakens.describes {a b : AbsValue} (weaker : a.Weakens b) {w : Word} (described : a.Describes w) : b.Describes w := by
  cases weaker with
  | notInit => trivial
  | anything _ all => exact all w.bits
  | scalar larger => exact larger w.bits described
  | ptr weaker =>
    obtain ⟨o,object,described⟩ := described
    exact ⟨o,object,weaker.describes described⟩
lemma AbsState.Weakens.describes {st st' : AbsState} (weaker : st.Weakens st') {m : Activation}
    (described : st.Describes m) : st'.Describes m where
  regs reg := (weaker.regs reg).describes (described.regs reg)
  spilled index whole := by
    obtain ⟨held,before,less⟩ := weaker.stack.spilled index _ (Stack.spill_eq_some.mpr ⟨whole,rfl⟩)
    obtain ⟨kept,rfl⟩ := Stack.spill_eq_some.mp before
    exact less.describes (described.spilled index kept)
  written off marked := described.written off (weaker.stack.written off marked)
  refs site mem := weaker.holds site (described.refs site mem)
/-- Merging two states keeps whatever either describes, and the subset check only passes
    when the larger state describes all the smaller one does. -/
theorem AbsState.merge_sound (s t : AbsState) (thresholds : List I64) (precise : BitVec 16) (m : Activation) :
    (s.Describes m ∨ t.Describes m → (s.join t).Describes m ∧ (s.widen t thresholds precise).Describes m) ∧
      (s.is_subset_of t = true → s.Describes m → t.Describes m) := by
  obtain ⟨joinLeft,joinRight⟩ := AbsState.join_weakens s t
  obtain ⟨widenLeft,widenRight⟩ := AbsState.widen_weakens s t thresholds precise
  refine ⟨?_,fun subset described => (AbsState.weakens_of_subset subset).describes described⟩
  rintro (described | described)
  · exact ⟨joinLeft.describes described,widenLeft.describes described⟩
  · exact ⟨joinRight.describes described,widenRight.describes described⟩
/-- A pointer into an object that the reference of site 4 keeps, in R1 and spilled. -/
def holding (off : U64) : AbsState :=
  let p := AbsValue.Ptr { PtrVal.region .MapValue 8#64 with off := .constant off, ref_id := some 4 }
  ⟨fun reg => if reg = 1 then p else .NotInit,⟨[(0,⟨255#8,p,true⟩)],8⟩,[⟨4,false,.Static⟩]⟩
def held_word : Word := ⟨0x1000#64,some ⟨.MapValue,.NONE,.Static,0x1000#64,8,true,some 4⟩⟩
/-- The states of two paths, with the pointer at offsets 0 and 8. -/
theorem AbsState.merge_sound_reference :
    ((holding 0#64).join (holding 8#64)).Describes ⟨fun _ => held_word,fun _ => held_word,fun _ => true,[4]⟩ ∧
    (∃ p, ((holding 0#64).join (holding 8#64)).regs 1 = .Ptr p ∧ p.ref_id = some 4) ∧
    (((holding 0#64).join (holding 8#64)).stack.slot 0).whole = true := by
  have points : AbsValue.Describes ((holding 0#64).regs 1) held_word :=
    ⟨_,rfl,rfl,rfl,rfl,le_rfl,by decide,by decide,fun _ _ sized => by cases sized; decide,fun _ => rfl⟩
  refine ⟨((AbsState.merge_sound _ _ [] 0#16 _).1 (.inl ⟨fun reg => ?_,fun index whole => ?_,fun _ _ => rfl,by decide⟩)).1,⟨_,rfl,rfl⟩,rfl⟩
  · by_cases first : reg = 1
    · rw [first]
      exact points
    · simp [holding,first,AbsValue.Describes]
  · by_cases first : index = 0
    · rw [first]
      exact points
    · simp [holding,Stack.slot,Lib.Assoc.get?,first,StackSlot.EMPTY] at whole
end Narf.Bpf
