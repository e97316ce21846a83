import Narf.Bpf.RefineSound
import Narf.Bpf.Transfer

/-! Packet extents. A hook exposes a packet as a `Mem` / `MemEnd` pair under one key; a
comparison of the two publishes a readable prefix to every alias, and a call that may
resize the packet has to take the prefixes back. -/

namespace Narf.Bpf
open BitVec

/-! ### What a comparison publishes -/
lemma Pred.holds_swap_operands (pred : Pred) (a b : U64) : pred.swap_operands.Holds b a ↔ pred.Holds a b := by
  cases pred <;> simp only [Pred.swap_operands,Pred.Holds]
  case Eq => exact eq_comm
  case Ne => exact ne_comm
  case Set => rw [BitVec.and_comm]
  case NotSet => rw [BitVec.and_comm]

namespace AbsState
/-- Every extent recorded for the region `key` fits the window `[data, data_end)`. -/
def ExtentsValid (st : AbsState) (key : TypeKey) (data data_end : U64) : Prop :=
  ∀ reg p n, st.regs reg = .Ptr p → p.cls = .Mem → p.key = key → p.size = some n →
    data.toNat + n.toNat ≤ data_end.toNat
/-- A comparison of a packet pointer with its end, in either operand order. -/
structure PacketTest (st : AbsState) where
  dst : Reg
  src : Reg
  mem : PtrVal
  stop : PtrVal
  off : I64
  /-- Whether the end is the left operand. -/
  flipped : Bool
  dstHolds : st.regs dst = .Ptr (if flipped then stop else mem)
  srcHolds : st.regs src = .Ptr (if flipped then mem else stop)
  memClass : mem.cls = .Mem
  stopClass : stop.cls = .MemEnd
  keyed : mem.key.is_some = true
  paired : mem.key = stop.key
  constOff : mem.off.as_const = some off

namespace PacketTest
variable {st : AbsState} (t : PacketTest st)
/-- The words compared when the packet starts at `data` and ends at `data_end`. -/
def left (data data_end : U64) : U64 := if t.flipped then data_end else data + t.off
def right (data data_end : U64) : U64 := if t.flipped then data + t.off else data_end
/-- The predicate of an edge, read with the data pointer on the left. -/
def relation (op : CondOp) (taken : Bool) : Pred :=
  if t.flipped then (Pred.edge op taken).swap_operands else Pred.edge op taken
/-- The edges that prove a readable prefix, at a constant offset that is not negative. -/
def Publishes (op : CondOp) (taken : Bool) : Prop :=
  (t.relation op taken = .Eq ∨ t.relation op taken = .Le ∨ t.relation op taken = .Lt) ∧ 0 ≤ t.off.toInt
lemma refine_eq (slot : Nat) (op : CondOp) (taken : Bool) : st.refine slot true (Pred.edge op taken) t.dst (.Reg t.src) =
      .ok (some (st.refine_dynamic t.mem t.stop (t.relation op taken))) := by
  have srcRead : st.source slot (.Reg t.src) true = .ok _ := get_eq_ok.mpr ⟨t.srcHolds,by simp⟩
  rw [refine_eq_of_reads (get_eq_ok.mpr ⟨t.dstHolds,by simp⟩) srcRead]
  cases order : t.flipped <;> simp [refine_values,dynamic_pair,relation,order,t.memClass,t.stopClass]
variable {data data_end : U64} {op : CondOp} {taken : Bool}
lemma relation_holds (outcome : Interp.cond op true (t.left data data_end) (t.right data data_end) = taken) :
    (t.relation op taken).Holds (data + t.off) data_end := by
  have holds := Pred.holds_of_compare (show Interp.compare op _ _ = taken from outcome)
  unfold relation left right at *
  cases order : t.flipped <;> simp only [order,Bool.false_eq_true,if_true,if_false] at holds ⊢
  · exact holds
  · exact (Pred.holds_swap_operands _ _ _).mpr holds
lemma off_small (nonneg : 0 ≤ t.off.toInt) : t.off.toNat < 2 ^ 63 := by
  have reading := toInt_cases t.off
  omega
lemma limit_of_publishes (publishes : t.Publishes op taken) :
    ∃ limit, dynamic_limit (t.relation op taken) t.mem.off.as_const = some limit ∧ t.off.toNat ≤ limit.toNat := by
  obtain ⟨kind,nonneg⟩ := publishes
  have small := t.off_small nonneg
  rw [t.constOff]
  rcases kind with kind | kind | kind <;> rw [kind] <;> simp only [dynamic_limit,if_pos nonneg]
  · exact ⟨t.off,rfl,le_rfl⟩
  · exact ⟨t.off,rfl,le_rfl⟩
  · refine ⟨t.off + 1#64,rfl,?_⟩
    rw [toNat_add,toNat_ofNat]
    omega
lemma limit_valid {limit : U64} (published : dynamic_limit (t.relation op taken) t.mem.off.as_const = some limit)
    (outcome : Interp.cond op true (t.left data data_end) (t.right data data_end) = taken)
    (exact_ : t.Publishes op taken → data.toNat + t.off.toNat < 2 ^ 64) : data.toNat + limit.toNat ≤ data_end.toNat := by
  have holds := t.relation_holds outcome
  have sum : data.toNat + t.off.toNat < 2 ^ 64 → (data + t.off).toNat = data.toNat + t.off.toNat := fun bound => by
    rw [toNat_add,Nat.mod_eq_of_lt bound]
  rw [t.constOff] at published
  unfold dynamic_limit at published
  split at published
  case h_4 => cases published
  all_goals
    next kind same =>
    cases same
    split at published
    case isFalse => cases published
    next nonneg =>
    cases published
    have bound := exact_ ⟨by simp [kind],nonneg⟩
    have total := sum bound
    have small := t.off_small nonneg
    rw [kind] at holds
    simp only [Pred.Holds,toNat_eq] at holds
    try rw [toNat_add,toNat_ofNat]
    omega
end PacketTest
/-- The extent of an alias after `limit` is published. -/
def raised (size : Option U64) (limit : U64) : U64 :=
  match size with
  | some n => umax n limit
  | none => limit
lemma limit_le_raised (size : Option U64) (limit : U64) : limit.toNat ≤ (raised size limit).toNat := by
  unfold raised umax
  split
  · split <;> omega
  · omega
variable {st : AbsState} {p : PtrVal}
lemma publish_extent_alias {reg : Reg} (limit : U64) (held : st.regs reg = .Ptr p) (mem : p.cls = .Mem) :
    (st.publish_extent p.key limit).regs reg = .Ptr { p with size := some (raised p.size limit) } := by
  simp only [publish_extent,held]
  rw [if_pos ⟨mem,trivial⟩]
  rfl
lemma regs_publish_extent (st : AbsState) (key : TypeKey) (limit : U64) (reg : Reg)
    (held : (st.publish_extent key limit).regs reg = .Ptr p) (mem : p.cls = .Mem) (keyed : p.key = key) :
    ∃ old, st.regs reg = .Ptr old ∧ old.cls = .Mem ∧ old.key = key ∧ p.size = some (raised old.size limit) := by
  simp only [publish_extent] at held
  cases before : st.regs reg with
  | NotInit | Scalar => simp [before] at held
  | Ptr old =>
    simp only [before] at held
    split at held
    · next alias_ =>
      cases held
      exact ⟨old,rfl,alias_.1,alias_.2,rfl⟩
    · next other =>
      cases held
      exact absurd ⟨mem,keyed⟩ other
lemma extentsValid_publish {key : TypeKey} {data data_end limit : U64}
    (valid : st.ExtentsValid key data data_end) (fits : data.toNat + limit.toNat ≤ data_end.toNat) :
    (st.publish_extent key limit).ExtentsValid key data data_end := by
  intro reg p n held mem keyed sized
  obtain ⟨old,before,oldMem,oldKey,size⟩ := regs_publish_extent st key limit reg held mem keyed
  cases sized.symm.trans size
  cases oldSize : old.size with
  | none => exact fits
  | some m =>
    have earlier := valid reg old m before oldMem oldKey oldSize
    simp only [raised,umax]
    split <;> omega
/-- Extents stay valid across a packet comparison exactly when the compared address did
    not wrap, on the edges that publish one. -/
theorem refine_extents_valid_iff (st : AbsState) (t : PacketTest st) (slot : Nat) (op : CondOp) (taken : Bool)
    (data data_end : U64) (valid : st.ExtentsValid t.mem.key data data_end)
    (outcome : Interp.cond op true (t.left data data_end) (t.right data data_end) = taken) :
    (∀ st', st.refine slot true (if taken then Pred.of op else (Pred.of op).negate) t.dst (.Reg t.src) = .ok (some st') →
      st'.ExtentsValid t.mem.key data data_end) ↔ (t.Publishes op taken → data.toNat + t.off.toNat < 2 ^ 64) := by
  have refined : st.refine slot true (if taken then Pred.of op else (Pred.of op).negate) t.dst (.Reg t.src) =
    .ok (some (st.refine_dynamic t.mem t.stop (t.relation op taken))) := t.refine_eq slot op taken
  have paired : t.mem.key.is_some = true ∧ t.mem.key = t.stop.key := ⟨t.keyed,t.paired⟩
  rw [refined]
  constructor
  · intro preserved publishes
    obtain ⟨limit,published,reaches⟩ := t.limit_of_publishes publishes
    have after := preserved _ rfl
    rw [refine_dynamic,if_pos paired,published] at after
    -- the compared pointer is itself an alias and carries the new extent
    have holder : ∃ reg, st.regs reg = .Ptr t.mem := by
      cases order : t.flipped
      · exact ⟨t.dst,by simpa [order] using t.dstHolds⟩
      · exact ⟨t.src,by simpa [order] using t.srcHolds⟩
    obtain ⟨reg,held⟩ := holder
    have extent := after reg _ _ (publish_extent_alias limit held t.memClass) t.memClass rfl rfl
    have top := data_end.isLt
    have above := limit_le_raised t.mem.size limit
    omega
  · intro unwrapped st' same
    obtain rfl := Option.some.inj (Except.ok.inj same)
    rw [refine_dynamic,if_pos paired]
    cases published : dynamic_limit (t.relation op taken) t.mem.off.as_const with
    | none => exact valid
    | some limit => exact extentsValid_publish valid (t.limit_valid published outcome unwrapped)

def packet_ptr (cls : PtrClass) (off : I64) : PtrVal :=
  { cls, key := 1#32, domain := .Static, off := Scalar.constant off, size := none, nullable := false,
    ref_id := none, readonly := false }
def packet_state (off : I64) : AbsState :=
  ((AbsState.entry 0#64).set_reg 1 (.Ptr (packet_ptr .Mem off))).set_reg 2 (.Ptr (packet_ptr .MemEnd 0#64))
def packet_test (off : I64) (single : (Scalar.constant off).as_const = some off) : PacketTest (packet_state off) where
  dst := 1
  src := 2
  mem := packet_ptr .Mem off
  stop := packet_ptr .MemEnd 0#64
  off := off
  flipped := false
  dstHolds := rfl
  srcHolds := rfl
  memClass := rfl
  stopClass := rfl
  keyed := show TypeKey.is_some 1#32 = true by decide
  paired := rfl
  constOff := single
lemma packet_state_valid (off : I64) (data data_end : U64) : (packet_state off).ExtentsValid 1#32 data data_end := by
  intro reg p n held mem keyed sized
  simp only [packet_state,regs_set_reg] at held
  split at held
  · cases held
    cases sized
  split at held
  · cases held
    cases sized
  -- the registers the entry state types are not packet pointers
  simp only [entry] at held
  split at held
  · cases held
    cases mem
  split at held <;> cases held
  cases mem
/-- A 14-byte header check publishes a valid extent. -/
theorem refine_extents_valid_header : ∃ st', (packet_state 14#64).refine 0 true (Pred.of .Le) 1 (.Reg 2) = .ok (some st') ∧
      st'.ExtentsValid 1#32 0xffff800000001000#64 0xffff800000001040#64 := by
  refine ⟨_,rfl,?_⟩
  exact (refine_extents_valid_iff (packet_state 14#64) (packet_test 14#64 (by decide)) 0 .Le true
    0xffff800000001000#64 0xffff800000001040#64 (packet_state_valid _ _ _) (by decide)).mpr (fun _ => by decide) _ rfl
/-- At the largest offset the compared address wraps below a 64-byte packet's end, and
    the edge publishes an extent of `2^63 - 1` bytes. -/
theorem refine_extents_wrap : let data := 0xffff800000001000#64
    let data_end := 0xffff800000001040#64
    data.toNat ≤ data_end.toNat ∧ (packet_state I64_MAX).ExtentsValid 1#32 data data_end ∧
      Interp.cond .Le true (data + I64_MAX) data_end = true ∧
      ∃ st', (packet_state I64_MAX).refine 0 true (Pred.of .Le) 1 (.Reg 2) = .ok (some st') ∧
        ¬ st'.ExtentsValid 1#32 data data_end := by
  refine ⟨by decide,packet_state_valid _ _ _,by decide,_,rfl,?_⟩
  intro valid
  have extent := valid 1 _ I64_MAX rfl rfl rfl rfl
  revert extent
  decide
end AbsState
end Narf.Bpf
