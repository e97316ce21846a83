import Narf.Bpf.State

/-! Two views of the abstract frame: which bytes are known to be written, and which
slots hold a spilled value. Every operation on the frame is described on both views,
so that results about the frame never look at slots again. -/

namespace Narf.Bpf
/-- The value a slot was spilled with, if it was written whole. -/
def StackSlot.spill (s : StackSlot) : Option AbsValue := if s.whole then some s.value else none

namespace Stack
open Narf.Lib

/-- Whether the byte at a negative offset from the frame pointer is marked written. -/
def written (stack : Stack) (off : Int) : Bool := (stack.slot (slot_index off)).init.getLsbD (byte_in_slot off)
def spilled (stack : Stack) (index : Nat) : Option AbsValue := (stack.slot index).spill

/-! ### Slot maps -/
@[simp] lemma slot_insert (stack : Stack) (index other : Nat) (s : StackSlot) (depth : Nat) :
    slot ⟨stack.slots.insert index s,depth⟩ other = if other = index then s else stack.slot other := by
  simp only [slot,Assoc.get?_insert]
  split <;> rfl
lemma slot_mapValues (stack : Stack) (f : Nat → StackSlot → StackSlot) (index depth : Nat)
    (empty : f index StackSlot.EMPTY = StackSlot.EMPTY) : slot ⟨stack.slots.mapValues f,depth⟩ index = f index (stack.slot index) := by
  simp only [slot,Assoc.get?_mapValues]
  cases stack.slots.get? index with
  | none => exact empty.symm
  | some s => rfl
@[simp] lemma slot_note_depth (stack : Stack) (off : Int) (index : Nat) : (stack.note_depth off).slot index = stack.slot index := by
  unfold note_depth
  split <;> rfl
@[simp] lemma spilled_note_depth (stack : Stack) (off : Int) (index : Nat) :
    (stack.note_depth off).spilled index = stack.spilled index := by
  simp [spilled]

/-! ### Byte writes -/
lemma slot_write_byte (stack : Stack) (off : Int) (index : Nat) : (stack.write_byte off).slot index = if index = slot_index off then
        ⟨(stack.slot (slot_index off)).init ||| (1#8 <<< byte_in_slot off),.NotInit,false⟩ else stack.slot index := by
  simp [write_byte]
lemma spilled_write_byte (stack : Stack) (off : Int) (index : Nat) :
    (stack.write_byte off).spilled index = if index = slot_index off then none else stack.spilled index := by
  simp only [spilled,slot_write_byte]
  split <;> simp [StackSlot.spill]
lemma write_bytes_succ (stack : Stack) (off : Int) (len : Nat) :
    stack.write_bytes off (len + 1) = (stack.write_bytes off len).write_byte (off + len) := by
  simp [write_bytes,List.range_succ]
/-- Slot `index` holds a byte of `[off, off + len)`. -/
def Touches (off : Int) (len index : Nat) : Prop := ∃ k : Nat, k < len ∧ slot_index (off + k) = index
variable {stack : Stack} {off : Int} {len index : Nat} {found : AbsValue}

/-! ### Stores -/
lemma spilled_write_bytes : (stack.write_bytes off len).spilled index = some found ↔
      ¬ Touches off len index ∧ stack.spilled index = some found := by
  induction len with
  | zero => simp [write_bytes,Touches]
  | succ len later =>
    rw [write_bytes_succ,spilled_write_byte]
    split
    · next same =>
      have : Touches off (len + 1) index := ⟨len,Nat.lt_succ_self len,same.symm⟩
      simp [this]
    · next other =>
      rw [later,Touches,Touches,Nat.exists_lt_succ_right]
      simp [Ne.symm other]
lemma spilled_write_unspecified : (stack.write_unspecified off len).spilled index = some found ↔
      ¬ Touches off len index ∧ stack.spilled index = some found := by
  rw [write_unspecified,spilled_write_bytes,spilled_note_depth]

/-! ### Forgetting values -/
lemma slot_clobber (stack : Stack) (index : Nat) : stack.clobber.slot index = (stack.slot index).forget :=
  slot_mapValues stack (fun _ s => s.forget) index stack.depth rfl
@[simp] lemma spilled_clobber (stack : Stack) (index : Nat) : stack.clobber.spilled index = none := by
  rw [spilled,slot_clobber]
  rfl
lemma slot_kill_values (stack : Stack) (test : PtrVal → Bool) (index : Nat) : (stack.kill_values test).slot index =
      if (stack.slot index).value.ptr_is test then (stack.slot index).forget else stack.slot index :=
  slot_mapValues stack (fun _ s => if s.value.ptr_is test then s.forget else s) index stack.depth rfl
lemma spill_eq_some {s : StackSlot} : s.spill = some found ↔ s.whole ∧ s.value = found := by
  unfold StackSlot.spill
  split
  · next whole => simp [whole]
  · next partial_ => simp [partial_]
lemma spilled_kill_values {test : PtrVal → Bool} : (stack.kill_values test).spilled index = some found ↔
      stack.spilled index = some found ∧ found.ptr_is test = false := by
  rw [spilled,spilled,slot_kill_values]
  cases killed : (stack.slot index).value.ptr_is test
  · simp only [Bool.false_eq_true,if_false,spill_eq_some]
    constructor
    · rintro ⟨whole,rfl⟩
      exact ⟨⟨whole,rfl⟩,killed⟩
    · exact fun both => both.1
  · simp only [if_true,spill_eq_some]
    constructor
    · rintro ⟨impossible,_⟩
      cases impossible
    · rintro ⟨⟨_,rfl⟩,kept⟩
      rw [killed] at kept
      cases kept

/-! ### Combining frames -/
lemma slot_combine (f : StackSlot → StackSlot → StackSlot) (empty : ∀ t, f StackSlot.EMPTY t = StackSlot.EMPTY)
    (stack other : Stack) (index : Nat) : (stack.combine f other).slot index = f (stack.slot index) (other.slot index) := by
  have found := Assoc.get?_collect (fun index =>
    let joined := f (stack.slot index) (other.slot index)
    if joined ≠ StackSlot.EMPTY then some joined else none) stack.slots index
  have slotEq : (stack.combine f other).slot index =
      ((stack.slots.collect fun index =>
        let joined := f (stack.slot index) (other.slot index)
        if joined ≠ StackSlot.EMPTY then some joined else none).get? index).getD StackSlot.EMPTY := rfl
  rw [slotEq,found]
  cases present : stack.slots.get? index with
  | none =>
    have absent : stack.slot index = StackSlot.EMPTY := by simp [slot,present]
    simp [absent,empty]
  | some s => by_cases same : f (stack.slot index) (other.slot index) = StackSlot.EMPTY <;> simp [same]
lemma slot_is_subset_of {other : Stack} (subset : stack.is_subset_of other) (index : Nat) :
    (stack.slot index).is_subset_of (other.slot index) := by
  cases present : other.slots.get? index with
  | none =>
    have absent : other.slot index = StackSlot.EMPTY := by simp [slot,present]
    simp [absent,StackSlot.is_subset_of,StackSlot.EMPTY]
  | some s =>
    have held : other.slot index = s := by simp [slot,present]
    rw [held]
    exact List.all_eq_true.mp subset (index,s) (Assoc.mem_of_get? present)
end Stack
end Narf.Bpf
