import Narf.Net.Reassembly
import Narf.Net.Sack

/-! The blocks of the SACK book against the reassembly queue. The queue's decisions do not
look at bytes, so the results about one stream apply to any segments once every byte is
blanked; the book's blocks are then ranges of positions the queue has. -/

namespace Narf.Net
open List Option
open BitVec hiding not_and not_or
open Bool hiding not_and not_or ofNat_toNat

/-! ### The bytes do not matter -/
section Natural
variable (f : Byte → Byte)
def OoSegment.map (seg : OoSegment) : OoSegment := ⟨seg.seq,seg.data.map f⟩
def Merging.map (m : Merging) : Merging := ⟨m.seq,m.stop,m.data.map f,m.survivors.map (·.map f)⟩
def RecvBuf.map (buf : RecvBuf) : RecvBuf := ⟨buf.in_order.map f,buf.out_of_order.map (·.map f),buf.limit⟩
variable (seg : OoSegment)
@[simp] lemma OoSegment.seq_map : (seg.map f).seq = seg.seq := rfl
@[simp] lemma OoSegment.data_map : (seg.map f).data = seg.data.map f := rfl
@[simp] lemma OoSegment.end_seq_map : (seg.map f).end_seq = seg.end_seq := by
  simp [OoSegment.end_seq]
@[simp] lemma slice_from_map (data : List Byte) (start : Nat) :
    slice_from (data.map f) start = (slice_from data start).map (List.map f) := by
  unfold slice_from
  rw [length_map]
  split
  · simp
  · rfl
@[simp] lemma slice_to_map (data : List Byte) (stop : Nat) : slice_to (data.map f) stop = (slice_to data stop).map (List.map f) := by
  unfold slice_to
  rw [length_map]
  split
  · simp
  · rfl
variable (m : Merging)
lemma Merging.prepend_map (seg : OoSegment) : (m.map f).prepend (seg.map f) = (m.prepend seg).map (·.map f) := by
  unfold Merging.prepend
  simp only [Merging.map,OoSegment.seq_map,OoSegment.data_map,length_map,slice_to_map]
  split
  · cases slice_to seg.data (min (m.seq - seg.seq).toNat seg.data.length) <;> simp
  · rfl
lemma Merging.append_map (seg : OoSegment) : (m.map f).append (seg.map f) = (m.append seg).map (·.map f) := by
  unfold Merging.append
  simp only [Merging.map,OoSegment.seq_map,OoSegment.end_seq_map,OoSegment.data_map,length_map,slice_from_map]
  split
  · split
    · cases slice_from seg.data (m.stop - seg.seq).toNat <;> simp
    · rfl
  · rfl
lemma Merging.absorb_map (seg : OoSegment) : (m.map f).absorb (seg.map f) = (m.absorb seg).map (·.map f) := by
  unfold Merging.absorb
  simp only [Merging.prepend_map]
  simp only [Merging.map,OoSegment.seq_map,OoSegment.end_seq_map]
  split
  · cases m.prepend seg with
    | none => rfl
    | some m₁ => exact Merging.append_map f m₁ seg
  · simp
lemma Merging.absorb_all_map (segs : List OoSegment) :
    (segs.map (·.map f)).foldlM Merging.absorb (m.map f) = (segs.foldlM Merging.absorb m).map (·.map f) := by
  induction segs generalizing m with
  | nil => rfl
  | cons seg rest ih =>
    rw [map_cons,foldlM_cons,foldlM_cons,Merging.absorb_map]
    cases m.absorb seg with
    | none => rfl
    | some m₁ => exact ih m₁

namespace RecvBuf
lemma insert_ooo_map (buf : RecvBuf) (seg : OoSegment) : (buf.map f).insert_ooo (seg.map f) = (buf.insert_ooo seg).map (·.map f) := by
  unfold insert_ooo
  have run := Merging.absorb_all_map f ⟨seg.seq,seg.end_seq,seg.data,[]⟩ buf.out_of_order
  simp only [Merging.map,map_nil] at run
  simp only [OoSegment.seq_map,OoSegment.end_seq_map,OoSegment.data_map,map_eq_nil_iff,map,run]
  split
  · rfl
  cases buf.out_of_order.foldlM Merging.absorb ⟨seg.seq,seg.end_seq,seg.data,[]⟩ with
  | none => rfl
  | some m =>
    have sorted := map_mergeSort (f := OoSegment.map f) (l := m.survivors ++ [⟨m.seq,m.data⟩])
      (r := fun a b => decide (a.seq.toNat ≤ b.seq.toNat)) (s := fun a b => decide (a.seq.toNat ≤ b.seq.toNat))
      (fun _ _ _ _ => rfl)
    simp only [map_some,bind_eq_bind,bind_some]
    rw [sorted,map_append]
    rfl
lemma extract_first_map {test : OoSegment → Bool} (blind : ∀ seg, test (OoSegment.map f seg) = test seg) (segs : List OoSegment) :
    extract_first test (segs.map (·.map f)) = (extract_first test segs).map (fun out => (out.1.map f,out.2.map (·.map f))) := by
  induction segs with
  | nil => rfl
  | cons seg rest ih =>
    simp only [map_cons,extract_first,blind,ih]
    split
    · rfl
    · cases extract_first test rest <;> rfl
section
variable (rcv_nxt : SeqNum)
include rcv_nxt
lemma splice_map (in_order : List Byte) (seg : OoSegment) :
    splice (in_order.map f) rcv_nxt (seg.map f) = (splice in_order rcv_nxt seg).map (fun out => (out.1.map f,out.2)) := by
  unfold splice
  simp only [OoSegment.seq_map,OoSegment.end_seq_map,OoSegment.data_map,slice_from_map]
  split
  · rfl
  split
  · rfl
  · cases slice_from seg.data (rcv_nxt - seg.seq).toNat <;> simp
lemma stitch_map (in_order : List Byte) (seg : OoSegment) :
    stitch (in_order.map f) rcv_nxt (seg.map f) = ((stitch in_order rcv_nxt seg).1.map f,(stitch in_order rcv_nxt seg).2) := by
  unfold stitch
  simp only [OoSegment.seq_map,OoSegment.data_map,length_map]
  split
  · simp
  · rfl
lemma drain_map (buf : RecvBuf) : (buf.map f).drain_ooo_into_in_order rcv_nxt =
      (buf.drain_ooo_into_in_order rcv_nxt).map (fun out => (out.1.map f,out.2)) := by
  have blind (nxt : SeqNum) (seg : OoSegment) : selects nxt (seg.map f) = selects nxt seg := by simp [selects]
  -- induction on the number of waiting segments: every round takes one off
  generalize size : buf.out_of_order.length = k
  induction k using Nat.strongRecOn generalizing buf rcv_nxt with
  | _ k ih =>
    rw [drain_ooo_into_in_order.eq_def,drain_ooo_into_in_order.eq_def buf]
    have first := extract_first_map f (blind rcv_nxt) buf.out_of_order
    cases found : extract_first (selects rcv_nxt) buf.out_of_order with
    | none =>
      rw [found] at first
      split
      · rfl
      · next taken =>
        rw [show (buf.map f).out_of_order = buf.out_of_order.map (·.map f) from rfl,first] at taken
        cases taken
    | some out =>
      obtain ⟨seg,rest⟩ := out
      rw [found] at first
      have shorter := (extract_first_spec found).2.length_eq
      rw [length_cons] at shorter
      split
      · next nothing =>
        rw [show (buf.map f).out_of_order = buf.out_of_order.map (·.map f) from rfl,first] at nothing
        cases nothing
      · next taken =>
        rw [show (buf.map f).out_of_order = buf.out_of_order.map (·.map f) from rfl,first] at taken
        cases taken
        simp only [map,splice_map]
        cases splice buf.in_order rcv_nxt seg with
        | none => rfl
        | some spliced =>
          simp only [map_some,stitch_map]
          exact ih rest.length (by omega) _ ⟨_,rest,buf.limit⟩ rfl
lemma trim_map (seq : SeqNum) (data : List Byte) :
    trim seq (data.map f) rcv_nxt = (trim seq data rcv_nxt).map (Option.map (fun out => (out.1,out.2.map f))) := by
  unfold trim
  simp only [length_map,slice_from_map]
  split
  · cases slice_from data (rcv_nxt - seq).toNat <;> simp
  split <;> rfl
lemma accept_trimmed_map (buf : RecvBuf) (seq : SeqNum) (data : List Byte) : (buf.map f).accept_trimmed seq (data.map f) rcv_nxt =
      (buf.accept_trimmed seq data rcv_nxt).map (fun out => (out.1.map f,out.2)) := by
  have window : (buf.map f).window = buf.window := by simp [RecvBuf.window,map]
  unfold accept_trimmed
  simp only [window,length_map,slice_to_map]
  split
  · rfl
  cases slice_to data (min data.length (buf.window.toNat - (seq - rcv_nxt).toNat)) with
  | none => rfl
  | some clamped =>
    simp only [map_some,bind_eq_bind,bind_some,length_map]
    split
    · rw [← drain_map]
      simp [map]
    · have inserted := insert_ooo_map f buf ⟨seq,clamped⟩
      rw [OoSegment.map] at inserted
      rw [inserted]
      cases buf.insert_ooo ⟨seq,clamped⟩ <;> rfl
lemma accept_map (buf : RecvBuf) (seq : SeqNum) (data : List Byte) :
    (buf.map f).accept seq (data.map f) rcv_nxt = (buf.accept seq data rcv_nxt).map (fun out => (out.1.map f,out.2)) := by
  unfold accept
  rw [trim_map]
  simp only [map_eq_nil_iff]
  split
  · rfl
  cases trim seq data rcv_nxt with
  | none => rfl
  | some kept =>
    cases kept with
    | none => rfl
    | some rest => exact accept_trimmed_map f rcv_nxt buf rest.1 rest.2
end
end RecvBuf
end Natural

/-! ### Blocks the queue backs -/
/-- The block is the positions from `a` up to `e`, all ahead of `next`, inside the window and in the queue. -/
structure Backed (isn : SeqNum) (edge next : Nat) (buf : RecvBuf) (b : SackBlock) (a e : Nat) : Prop where
  left : b.left = number isn a
  right : b.right = number isn e
  nonempty : a < e
  ahead : next < a
  inside : e ≤ edge
  queued : ∀ pos, a ≤ pos → pos < e → buf.HasAt isn pos
def BookBacked (isn : SeqNum) (edge next : Nat) (buf : RecvBuf) (book : SackBook) : Prop :=
  ∀ b ∈ book.blocks, ∃ a e, Backed isn edge next buf b a e

section Blocks
variable {isn : SeqNum} {edge next : Nat} {buf : RecvBuf} {b : SackBlock} {a e : Nat}
lemma Backed.contained (backed : Backed isn edge next buf b a e) (near : edge < next + 2 ^ 31) {x : SeqNum}
    (within : b.contains x) : ∃ pos, x = number isn pos ∧ a ≤ pos ∧ pos < e := by
  have ordered := backed.nonempty
  have ahead := backed.ahead
  have inside := backed.inside
  simp only [SackBlock.contains,and_eq_true,decide_eq_true_eq] at within
  obtain ⟨low,high⟩ := within
  -- the offset of `x` from the left edge is below 2^31, so the right edge is compared exactly
  have small : (x - b.left).toNat < 2 ^ 31 := by
    rw [toInt_eq_toNat_cond] at low
    split at low <;> omega
  have there : x = number isn (a + (x - b.left).toNat) := by
    rw [← number_add,← backed.left,ofNat_toNat,setWidth_eq,add_comm,sub_add_cancel]
  refine ⟨_,there,by omega,?_⟩
  rw [backed.right,there,toInt_number_sub (by omega) (by omega)] at high
  omega
variable {buf' : RecvBuf} {book : SackBook}
lemma Backed.mono {edge' next' : Nat} (backed : Backed isn edge next buf b a e) (later : edge ≤ edge')
    (ahead : next' < a) (kept : ∀ pos, a ≤ pos → pos < e → buf.HasAt isn pos → buf'.HasAt isn pos) : Backed isn edge' next' buf' b a e :=
  ⟨backed.left,backed.right,backed.nonempty,ahead,le_trans backed.inside later,
    fun pos low high => kept pos low high (backed.queued pos low high)⟩
lemma seq_min_number {x y : Nat} (low : (y : Int) - x ≤ 2 ^ 31) (high : (x : Int) - y < 2 ^ 31) :
    seq_min (number isn x) (number isn y) = number isn (min x y) := by
  rw [seq_min,toInt_number_sub low high]
  split
  · rw [min_eq_left (by omega)]
  · rw [min_eq_right (by omega)]
lemma seq_max_number {x y : Nat} (low : (y : Int) - x ≤ 2 ^ 31) (high : (x : Int) - y < 2 ^ 31) :
    seq_max (number isn x) (number isn y) = number isn (max x y) := by
  rw [seq_max,toInt_number_sub low high]
  split
  · rw [max_eq_left (by omega)]
  · rw [max_eq_right (by omega)]
lemma Backed.join {b' : SackBlock} {a' e' : Nat} (backed : Backed isn edge next buf b a e)
    (backed' : Backed isn edge next buf b' a' e') (near : edge < next + 2 ^ 31)
    (touch : seq_overlaps_or_adjacent b'.left b'.right b.left b.right) :
    Backed isn edge next buf ⟨seq_min b'.left b.left,seq_max b'.right b.right⟩ (min a' a) (max e' e) := by
  have ordered := backed.nonempty
  have ahead := backed.ahead
  have inside := backed.inside
  have ordered' := backed'.nonempty
  have ahead' := backed'.ahead
  have inside' := backed'.inside
  simp only [seq_overlaps_or_adjacent,or_eq_true,and_eq_true,decide_eq_true_eq,beq_iff_eq,backed.left,backed.right,
    backed'.left,backed'.right] at touch
  rw [toInt_number_sub (by omega) (by omega),toInt_number_sub (by omega) (by omega),number_inj (by omega) (by omega),
    number_inj (by omega) (by omega)] at touch
  refine ⟨?_,?_,by omega,by omega,by omega,fun pos low high => ?_⟩
  · rw [backed.left,backed'.left,seq_min_number (by omega) (by omega)]
  · rw [backed.right,backed'.right,seq_max_number (by omega) (by omega)]
  · by_cases here : a ≤ pos ∧ pos < e
    · exact backed.queued pos here.1 here.2
    · exact backed'.queued pos (by omega) (by omega)
lemma backed_sweep {blocks : List SackBlock} {out : SackBlock × List SackBlock} (near : edge < next + 2 ^ 31)
    (backed : ∃ a e, Backed isn edge next buf out.1 a e) (kept : ∀ b ∈ out.2, ∃ a e, Backed isn edge next buf b a e)
    (old : ∀ b ∈ blocks, ∃ a e, Backed isn edge next buf b a e) :
    (∃ a e, Backed isn edge next buf (blocks.foldl SackBook.sweep out).1 a e) ∧
      ∀ b ∈ (blocks.foldl SackBook.sweep out).2, ∃ a e, Backed isn edge next buf b a e := by
  induction blocks generalizing out with
  | nil => exact ⟨backed,kept⟩
  | cons first rest ih =>
    have later : ∀ b ∈ rest, ∃ a e, Backed isn edge next buf b a e := fun b mem => old b (mem_cons_of_mem _ mem)
    rw [foldl_cons,SackBook.sweep]
    split
    · next touch =>
      obtain ⟨a,e,this⟩ := backed
      obtain ⟨a',e',that⟩ := old first mem_cons_self
      exact ih ⟨_,_,this.join that near touch⟩ kept later
    · refine ih backed (fun b mem => ?_) later
      rcases mem_append.mp mem with before | now
      · exact kept b before
      · rw [mem_singleton.mp now]
        exact old first mem_cons_self
lemma backed_add_range (near : edge < next + 2 ^ 31) (old : BookBacked isn edge next buf book)
    (backed : Backed isn edge next buf b a e) : BookBacked isn edge next buf (book.add_range b.left b.right) := by
  unfold SackBook.add_range
  split
  · exact old
  · obtain ⟨first,rest⟩ := @backed_sweep isn edge next buf book.blocks (b,[]) near ⟨a,e,backed⟩ nofun old
    intro other mem
    rcases mem_cons.mp mem with rfl | survivor
    · exact first
    · exact rest other (mem_of_mem_take survivor)
/-- When `next` moves, the blocks that are kept start after it: the queue does not have the byte at `next`. -/
lemma backed_prune_to {next' : Nat} (near : edge < next + 2 ^ 31)
    (old : BookBacked isn edge next buf book) (more : next ≤ next') (bounded : next' ≤ edge)
    (kept : ∀ pos, next' ≤ pos → pos < edge → buf.HasAt isn pos → buf'.HasAt isn pos)
    (lacks : ¬ buf'.HasAt isn next') : BookBacked isn edge next' buf' (book.prune_to (number isn next')) := by
  intro b mem
  obtain ⟨was,remains⟩ := mem_filter.mp mem
  obtain ⟨a,e,backed⟩ := old b was
  have ahead := backed.ahead
  have ordered := backed.nonempty
  have inside := backed.inside
  simp only [and_eq_true,decide_eq_true_eq,backed.left,backed.right] at remains
  rw [toInt_number_sub (by omega) (by omega),toInt_number_sub (by omega) (by omega)] at remains
  have differs : a ≠ next' := by
    rintro rfl
    exact lacks (kept a le_rfl (by omega) (backed.queued a le_rfl ordered))
  exact ⟨a,e,backed.mono le_rfl (by omega) (fun pos low high => kept pos (by omega) (by omega))⟩
end Blocks

/-! ### The receiver over a run -/
section Accept
variable {stream : Nat → Byte} {isn : SeqNum} {limit next pos len : Nat} {c : Conn}
lemma trim_ahead (positive : 0 < len) (short : len < 2 ^ 16) (after : next ≤ pos) (near : pos < next + 2 ^ 31) :
    RecvBuf.trim (number isn pos) (part stream pos len) (number isn next) = some (some (number isn pos,part stream pos len)) := by
  have signed : (number isn next - number isn pos).toInt = (next : Int) - pos := toInt_number_sub (by omega) (by omega)
  have size : (BitVec.ofNat 32 len).toInt = len := by
    rw [toInt_eq_toNat_cond,toNat_ofNat]
    split <;> omega
  simp only [RecvBuf.trim,signed,length_part,size]
  rw [if_neg (by omega),if_neg (by omega)]
lemma accept_spec (intact : c.Intact stream isn limit next) (positive : 0 < len) (short : len < 2 ^ 16)
    (fresh : next < pos + len) (near : pos + len ≤ next + 2 ^ 31) :
    ∃ buf' next', c.buf.accept (number isn pos) (part stream pos len) (number isn next) = some (buf',number isn next') ∧
      ({ c with buf := buf', rcv_nxt := number isn next' } : Conn).Intact stream isn limit next' ∧
      Conn.Keeps isn next (max pos next) (pos + len - max pos next) c.buf buf' next' := by
  have nonempty : ¬ part stream pos len = [] := by
    rw [part_eq_nil_iff]
    omega
  rw [RecvBuf.accept,if_neg nonempty]
  by_cases before : pos < next
  · rw [Conn.trim_partly before fresh (by omega),max_eq_right (by omega)]
    exact Conn.intact_trimmed intact (by omega) le_rfl (by omega)
  · have whole : pos + len - pos = len := by omega
    rw [trim_ahead positive short (by omega) (by omega),max_eq_left (by omega),whole]
    exact Conn.intact_trimmed intact positive (by omega) near
end Accept

namespace Receiver
def blank : Byte → Byte := fun _ => 0
def zeros : Nat → Byte := fun _ => 0
lemma map_blank (payload : List Byte) (pos : Nat) : payload.map blank = part zeros pos payload.length := by
  unfold blank zeros part
  simp [map_const']
/-- With its bytes blanked the queue is intact after `next` bytes, and it backs the book. Positions start
    high enough for a segment from before the first byte to have one. -/
structure Tracks (limit : Nat) (isn : SeqNum) (next : Nat) (taken : List Byte) (t : Receiver) : Prop where
  intact : Conn.Intact zeros isn limit next ⟨t.recv_buf.map blank,t.rcv_nxt,taken⟩
  started : 2 ^ 31 ≤ next
  backed : BookBacked isn (taken.length + limit) next (t.recv_buf.map blank) t.sack_book

variable {limit next : Nat} {isn : SeqNum} {taken : List Byte} {t : Receiver}
lemma tracks_new (limit base : Nat) (high : 2 ^ 31 ≤ base) (isn : SeqNum) :
    (new limit isn).Tracks limit (isn - BitVec.ofNat 32 base) base (part zeros 0 base) where
  intact := {
    delivered := append_nil _
    expects := by rw [number,BitVec.sub_add_cancel]; rfl
    bounded := rfl
    fits := Nat.zero_le _
    held := nofun }
  started := high
  backed := nofun
variable {buf : RecvBuf} {seq rcv_nxt nxt : SeqNum} {payload : List Byte} {pos : Nat} {event : Event}
/-- What the blanked queue accepts, the queue accepts the same way. -/
lemma accept_of_blank {buf' : RecvBuf} (accepted : (buf.map blank).accept seq (payload.map blank) rcv_nxt = some (buf',nxt)) :
    ∃ out, buf.accept seq payload rcv_nxt = some (out,nxt) ∧ out.map blank = buf' := by
  rw [RecvBuf.accept_map] at accepted
  obtain ⟨⟨out,nxt'⟩,done,same⟩ := map_eq_some_iff.mp accepted
  cases same
  exact ⟨out,done,rfl⟩
lemma window_map (buf : RecvBuf) : (buf.map blank).window = buf.window := by simp [RecvBuf.window,RecvBuf.map]
/-- Every sequence number has a position at or after `next`. -/
lemma number_ahead (isn seq : SeqNum) (next : Nat) : seq = number isn (next + (seq - number isn next).toNat) := by
  rw [← number_add,ofNat_toNat,setWidth_eq,add_comm,sub_add_cancel]
lemma number_behind {isn : SeqNum} {next : Nat} (enough : (number isn next - seq).toNat ≤ next) :
    seq = number isn (next - (number isn next - seq).toNat) := by
  have back : next - (number isn next - seq).toNat + (number isn next - seq).toNat = next := by omega
  have sum := number_add isn (next - (number isn next - seq).toNat) (number isn next - seq).toNat
  rw [back,ofNat_toNat,setWidth_eq] at sum
  generalize number isn (next - (number isn next - seq).toNat) = there at sum ⊢
  bv_omega
section
variable (tracks : t.Tracks limit isn next taken)
include tracks
lemma Tracks.received : taken.length + t.recv_buf.in_order.length = next := by
  have received := tracks.intact.received_eq
  simpa [Conn.received,RecvBuf.map] using received
lemma tracks_read (n : Nat) : ∃ taken', ({ t with recv_buf := (t.recv_buf.read n).2 } : Receiver).Tracks limit isn next taken' := by
  obtain ⟨c',stepped,intact'⟩ := Conn.intact_read tracks.intact n
  have same : (t.recv_buf.map blank).read n = ((t.recv_buf.read n).1.map blank,(t.recv_buf.read n).2.map blank) := by
    simp [RecvBuf.read,RecvBuf.map]
  simp only [Conn.step,same] at stepped
  cases stepped
  refine ⟨_,intact',tracks.started,fun b mem => ?_⟩
  obtain ⟨a,e,backed⟩ := tracks.backed b mem
  refine ⟨a,e,backed.mono ?_ backed.ahead (fun _ _ _ has => has)⟩
  rw [length_append]
  omega
lemma accepts (nonempty : payload ≠ [])
    (short : payload.length < 2 ^ 16) (fresh : next < pos + payload.length) (near : pos + payload.length ≤ next + 2 ^ 31) :
    ∃ buf' next', t.recv_buf.accept (number isn pos) payload t.rcv_nxt = some (buf',number isn next') ∧
      Conn.Intact zeros isn limit next' ⟨buf'.map blank,number isn next',taken⟩ ∧
      Conn.Keeps isn next (max pos next) (pos + payload.length - max pos next) (t.recv_buf.map blank) (buf'.map blank) next' := by
  have positive : 0 < payload.length := length_pos_iff.mpr nonempty
  have expects : t.rcv_nxt = number isn next := tracks.intact.expects
  obtain ⟨blanked,next',accepted,intact,keeps⟩ := accept_spec tracks.intact positive short fresh near
  rw [← map_blank] at accepted
  obtain ⟨buf',done,rfl⟩ := accept_of_blank accepted
  rw [← expects] at done
  exact ⟨buf',next',done,intact,keeps⟩
variable (bounded : limit < 2 ^ 31)
include bounded
lemma Tracks.near : taken.length + limit < next + 2 ^ 31 := by
  have received := tracks.received
  omega
/-- The window reaches exactly to the edge the held bytes keep to. -/
lemma Tracks.window : next + t.recv_buf.window.toNat = taken.length + limit := by
  have received := tracks.received
  have fits : t.recv_buf.in_order.length ≤ limit := by simpa [RecvBuf.map] using tracks.intact.fits
  have same : t.recv_buf.limit = limit := tracks.intact.bounded
  rw [RecvBuf.window,toNat_ofNat,same]
  omega
lemma Tracks.truthful : t.Truthful := by
  intro b mem x within
  have near := tracks.near bounded
  obtain ⟨a,e,backed⟩ := tracks.backed b mem
  obtain ⟨pos,rfl,low,high⟩ := backed.contained near within
  have ahead := backed.ahead
  have inside := backed.inside
  have expects : t.rcv_nxt = number isn next := tracks.intact.expects
  constructor
  · rw [expects,seq_gt_number (by omega) (by omega)]
    omega
  · obtain ⟨seg,queued,has⟩ := backed.queued pos low high
    obtain ⟨original,there,rfl⟩ := mem_map.mp queued
    rw [Has,OoSegment.data_map,length_map] at has
    exact any_eq_true.mpr ⟨original,there,by simpa using has⟩
/-- The byte waited for arrives and there is room: the blocks it overtakes go. -/
lemma tracks_advance (short : payload.length < 2 ^ 16) (before : pos ≤ next) (fresh : next < pos + payload.length)
    (room : 0 < t.recv_buf.window.toNat) :
    ∃ t' next', t.step (.segment (number isn pos) payload) = some t' ∧ t'.Tracks limit isn next' taken := by
  have nonempty : payload ≠ [] := by
    rintro rfl
    rw [length_nil] at fresh
    omega
  obtain ⟨buf',next',accepted,intact,keeps⟩ := accepts tracks nonempty short fresh (by omega)
  have near := tracks.near bounded
  have started := tracks.started
  rw [Nat.max_eq_right before] at keeps
  have moved : next < next' := keeps.moves rfl (by rwa [window_map])
  have edge : next' ≤ taken.length + limit := by
    have received := intact.received_eq
    have fits := intact.fits
    rw [Conn.received] at received
    dsimp only at received fits
    omega
  have expects : t.rcv_nxt = number isn next := tracks.intact.expects
  have differs : number isn next' ≠ t.rcv_nxt := by
    rw [expects,Ne,number_inj (by omega) (by omega)]
    omega
  refine ⟨⟨buf',number isn next',t.sack_book.prune_to (number isn next')⟩,next',?_,intact,by omega,?_⟩
  · simp only [step,enqueue_recv,accepted,bind_eq_bind,bind_some,if_pos differs,map_some]
  · refine backed_prune_to near tracks.backed keeps.more edge ?_ ?_
    · exact fun pos low high has => keeps.old pos (by omega) low (by omega) has
    · rintro ⟨seg,mem,has⟩
      have lacks := (intact.held seg mem).lacks_next
      exact absurd has (Nat.not_lt.mpr lacks)
/-- A segment ahead of the byte waited for and inside the window: the whole of it is in the queue. -/
lemma tracks_wait (nonempty : payload ≠ []) (short : payload.length < 2 ^ 16) (ahead : next < pos)
    (inside : pos + payload.length ≤ next + t.recv_buf.window.toNat) :
    ∃ t', t.step (.segment (number isn pos) payload) = some t' ∧ t'.Tracks limit isn next taken := by
  have positive : 0 < payload.length := length_pos_iff.mpr nonempty
  have near := tracks.near bounded
  have window := tracks.window bounded
  obtain ⟨buf',next',accepted,intact,keeps⟩ := @accepts _ _ _ _ t payload pos tracks nonempty short (by omega) (by omega)
  rw [max_eq_left (by omega)] at keeps
  obtain ⟨rfl,queued⟩ := keeps.waits ahead
  rw [window_map] at queued
  have expects : t.rcv_nxt = number isn next' := tracks.intact.expects
  refine ⟨⟨buf',number isn next',t.sack_book.add_range (number isn pos) (number isn pos + BitVec.ofNat 32 payload.length)⟩,
    ?_,intact,tracks.started,?_⟩
  · rw [expects] at accepted
    simp [step,enqueue_recv,accepted,expects,nonempty]
  · have old : BookBacked isn (taken.length + limit) next' (buf'.map blank) t.sack_book := by
      intro b mem
      obtain ⟨a,e,backed⟩ := tracks.backed b mem
      have begins := backed.ahead
      have ends := backed.inside
      exact ⟨a,e,backed.mono le_rfl begins (fun pos low high => keeps.old pos (by omega) (by omega) (by omega))⟩
    have new : Backed isn (taken.length + limit) next' (buf'.map blank)
        ⟨number isn pos,number isn pos + BitVec.ofNat 32 payload.length⟩ pos (pos + payload.length) :=
      ⟨rfl,number_add .., by omega,ahead,by omega,fun p low high => queued p low (by omega) (by omega)⟩
    exact backed_add_range near old new
lemma tracks_step (arrives : Arrives event) (inside : t.Inside event) :
    ∃ t' next' taken', t.step event = some t' ∧ t'.Tracks limit isn next' taken' := by
  have expects : t.rcv_nxt = number isn next := tracks.intact.expects
  have started := tracks.started
  cases event with
  | read n =>
    obtain ⟨taken',tracks'⟩ := tracks_read tracks n
    exact ⟨_,next,taken',rfl,tracks'⟩
  | segment seq payload =>
    have short : payload.length < 2 ^ 16 := arrives
    by_cases empty : payload = []
    · have nothing : t.step (.segment seq payload) = some t := by simp [step,enqueue_recv,RecvBuf.accept,empty]
      exact ⟨t,next,taken,nothing,tracks⟩
    simp only [Inside,expects] at inside
    rcases inside with none | ⟨covers,room⟩ | ⟨differs,fits⟩
    · exact absurd none empty
    · -- the segment starts at most its own length behind
      have here := number_behind (by omega : (number isn next - seq).toNat ≤ next)
      generalize same : next - (number isn next - seq).toNat = pos at here
      rw [here]
      obtain ⟨t',next',stepped,tracks'⟩ := @tracks_advance _ _ _ _ t payload pos tracks bounded short (by omega) (by omega) room
      exact ⟨t',next',taken,stepped,tracks'⟩
    · have here := number_ahead isn seq next
      generalize same : next + (seq - number isn next).toNat = pos at here
      have later : next < pos := by
        refine Nat.lt_of_le_of_ne (by omega) fun equal => differs ?_
        rw [here,equal]
      rw [here]
      obtain ⟨t',stepped,tracks'⟩ := tracks_wait tracks bounded empty short later (by omega)
      exact ⟨t',next,taken,stepped,tracks'⟩
end
lemma tracks_reaches (bounded : limit < 2 ^ 31) {t' : Receiver} (run : Reaches t t') (tracks : t.Tracks limit isn next taken) :
    ∃ next' taken', t'.Tracks limit isn next' taken' := by
  induction run with
  | refl => exact ⟨next,taken,tracks⟩
  | tail _ last before =>
    obtain ⟨next₁,taken₁,tracks₁⟩ := before
    obtain ⟨event,arrives,inside,stepped⟩ := last
    obtain ⟨t₂,next₂,taken₂,done,tracks₂⟩ := tracks_step tracks₁ bounded arrives inside
    rw [stepped] at done
    cases done
    exact ⟨next₂,taken₂,tracks₂⟩

/-! ### Any other segment makes the book untrue -/
section Outside
variable {edge p len x y : Nat} {buf : RecvBuf} {blocks : List SackBlock} {out : SackBlock × List SackBlock}
/-- Differences are read modulo 2^32: far enough ahead is behind. -/
lemma sub_neg_of_le (order : y ≤ x) (near : x - y < 2 ^ 32) : (number isn x - number isn y).toInt < 0 ↔ 2 ^ 31 ≤ x - y := by
  have nats := @toNat_number_sub isn x y order near
  rw [toInt_eq_toNat_cond]
  split <;> omega
lemma sub_neg_of_lt (order : x < y) (near : y - x < 2 ^ 32) : (number isn x - number isn y).toInt < 0 ↔ y - x ≤ 2 ^ 31 := by
  have nats := @toNat_number_sub isn y x (by omega) near
  have opposite : (number isn x - number isn y).toNat = (2 ^ 32 - (number isn y - number isn x).toNat) % 2 ^ 32 := by
    bv_omega
  rw [toInt_eq_toNat_cond]
  split <;> omega
lemma sweep_apart (apart : ∀ b ∈ blocks, seq_overlaps_or_adjacent b.left b.right out.1.left out.1.right = false) :
    (blocks.foldl SackBook.sweep out).1 = out.1 := by
  induction blocks generalizing out with
  | nil => rfl
  | cons first rest ih =>
    rw [foldl_cons,SackBook.sweep,apart first mem_cons_self]
    exact ih fun b mem => apart b (mem_cons_of_mem _ mem)
lemma sweep_grows {a e : Nat} (near : edge < next + 2 ^ 31)
    (backed : ∀ b ∈ blocks, ∃ a e, Backed isn edge next buf b a e) (left : out.1.left = number isn a)
    (right : out.1.right = number isn e) (ahead : next < a) (close : e < next + 2 ^ 31) (low : a ≤ x) (high : x < e) :
    (blocks.foldl SackBook.sweep out).1.contains (number isn x) := by
  induction blocks generalizing out a e with
  | nil =>
    rw [foldl_nil,SackBlock.contains,left,right,toInt_number_sub (by omega) (by omega),toInt_number_sub (by omega) (by omega)]
    simp only [and_eq_true,decide_eq_true_eq]
    omega
  | cons first rest ih =>
    have later : ∀ b ∈ rest, ∃ a e, Backed isn edge next buf b a e := fun b mem => backed b (mem_cons_of_mem _ mem)
    rw [foldl_cons,SackBook.sweep]
    split
    · obtain ⟨a',e',that⟩ := backed first mem_cons_self
      have ahead' := that.ahead
      have inside' := that.inside
      have ordered' := that.nonempty
      have least : seq_min first.left out.1.left = number isn (min a' a) := by
        rw [that.left,left,seq_min_number (by omega) (by omega)]
      have most : seq_max first.right out.1.right = number isn (max e' e) := by
        rw [that.right,right,seq_max_number (by omega) (by omega)]
      exact ih later least most (by omega) (by omega) (by omega) (by omega)
    · exact ih later left right ahead close low high
/-- The new block contains what the header says, wherever the segment lies. -/
lemma add_range_contains {book : SackBook} (near : edge + 2 ^ 16 < next + 2 ^ 31) (backed : BookBacked isn edge next buf book)
    (short : len < 2 ^ 16) (low : p ≤ x) (high : x < p + len) (behind : next ≤ p + 2 ^ 31) (ahead : p < next + 2 ^ 31)
    (place : p + len ≤ next ∨ edge ≤ next ∨ next < p) :
    ∃ b ∈ (book.add_range (number isn p) (number isn (p + len))).blocks, b.contains (number isn x) := by
  have differs : ¬ number isn p = number isn (p + len) := by
    rw [number_inj (by omega) (by omega)]
    omega
  have alone : (⟨number isn p,number isn (p + len)⟩ : SackBlock).contains (number isn x) := by
    rw [SackBlock.contains]
    dsimp only
    rw [toInt_number_sub (by omega) (by omega),toInt_number_sub (by omega) (by omega)]
    simp only [and_eq_true,decide_eq_true_eq]
    omega
  rw [SackBook.add_range,if_neg differs]
  refine ⟨_,mem_cons_self,?_⟩
  by_cases merges : next < p ∧ p ≤ edge
  · exact sweep_grows (by omega) backed rfl rfl merges.1 (by omega) low high
  · -- behind `next` and beyond the edge no block is met, not even by wrapping
    rw [sweep_apart]
    · exact alone
    intro b mem
    obtain ⟨a,e,this⟩ := backed b mem
    have starts := this.ahead
    have ordered := this.nonempty
    have ends := this.inside
    rw [seq_overlaps_or_adjacent,this.left,this.right,eq_false_iff]
    intro touch
    simp only [or_eq_true,and_eq_true,decide_eq_true_eq,beq_iff_eq] at touch
    rw [number_inj (by omega) (by omega),number_inj (by omega) (by omega)] at touch
    by_cases back : p + len ≤ next
    · rw [sub_neg_of_le (by omega) (by omega),sub_neg_of_lt (by omega) (by omega)] at touch
      omega
    · rw [sub_neg_of_lt (by omega) (by omega),sub_neg_of_le (by omega) (by omega)] at touch
      omega
end Outside
/-- A segment that ends behind, starts beyond the window, or meets a closed one leaves the queue as it was. -/
lemma accept_ignored (short : payload.length < 2 ^ 16)
    (ignored : (buf.window.toNat ≤ (seq - rcv_nxt).toNat ∧ (seq - rcv_nxt).toNat ≤ 2 ^ 31) ∨
      (payload.length ≤ (rcv_nxt - seq).toNat ∧ (rcv_nxt - seq).toNat < 2 ^ 31) ∨ buf.window.toNat = 0) :
    buf.accept seq payload rcv_nxt = some (buf,rcv_nxt) := by
  have closed {start : SeqNum} {data : List Byte} (beyond : buf.window.toNat ≤ (start - rcv_nxt).toNat) :
      buf.accept_trimmed start data rcv_nxt = some (buf,rcv_nxt) := by
    rw [RecvBuf.accept_trimmed,if_pos beyond]
  have size : (BitVec.ofNat 32 payload.length).toInt = payload.length := by
    rw [toInt_eq_toNat_cond,toNat_ofNat]
    split <;> omega
  have opposite : (seq - rcv_nxt).toNat = (2 ^ 32 - (rcv_nxt - seq).toNat) % 2 ^ 32 := by bv_omega
  have signed := toInt_eq_toNat_cond (rcv_nxt - seq)
  rw [RecvBuf.accept]
  split
  · rfl
  simp only [RecvBuf.trim,size]
  by_cases partly : 0 < (rcv_nxt - seq).toInt ∧ (rcv_nxt - seq).toNat < payload.length
  · have none : buf.window.toNat = 0 := by split at signed <;> omega
    rw [if_pos partly,slice_from,if_pos (by omega)]
    exact closed (by omega)
  · rw [if_neg partly]
    by_cases whole : (payload.length : Int) ≤ (rcv_nxt - seq).toInt
    · rw [if_pos whole]
    · rw [if_neg whole]
      exact closed (by split at signed <;> omega)
lemma step_ignored (nonempty : payload ≠ [])
    (ignored : t.recv_buf.accept seq payload t.rcv_nxt = some (t.recv_buf,t.rcv_nxt)) : t.step (.segment seq payload) =
      some { t with sack_book := t.sack_book.add_range seq (seq + BitVec.ofNat 32 payload.length) } := by
  simp [step,enqueue_recv,ignored,nonempty]
lemma lacks_beyond (intact : Conn.Intact zeros isn limit next ⟨buf.map blank,nxt,taken⟩) (beyond : taken.length + limit ≤ pos)
    (low : next ≤ pos) (high : pos < next + 2 ^ 31) : ∀ seg ∈ buf.out_of_order, ¬ (number isn pos - seg.seq).toNat < seg.data.length := by
  intro seg mem has
  have held := intact.held (seg.map blank) (mem_map_of_mem mem)
  obtain ⟨a,n,_,_,_,inside,_,short⟩ := held.has low high (by rwa [Has,OoSegment.data_map,length_map])
  change a + n ≤ taken.length + limit at inside
  omega
/-- Outside the condition the header is recorded without what it stands for. -/
lemma untruthful_outside (tracks : t.Tracks limit isn next taken) (bounded : limit + 2 ^ 16 < 2 ^ 31)
    (arrives : Arrives event) (outside : ¬ t.Inside event) : ∃ t', t.step event = some t' ∧ ¬ t'.Truthful := by
  cases event with
  | read n => exact absurd trivial outside
  | segment seq payload =>
  have short : payload.length < 2 ^ 16 := arrives
  have expects : t.rcv_nxt = number isn next := tracks.intact.expects
  have started := tracks.started
  have received := tracks.received
  have window := tracks.window (by omega)
  simp only [Inside,not_or,not_and,expects] at outside
  obtain ⟨nonempty,closed,beyond⟩ := outside
  have positive : 0 < payload.length := length_pos_iff.mpr nonempty
  -- a position for the segment, on the side of `next` the signed comparisons give
  obtain ⟨p,rfl,behind,ahead⟩ : ∃ p, seq = number isn p ∧ next ≤ p + 2 ^ 31 ∧ p < next + 2 ^ 31 := by
    by_cases forward : (seq - number isn next).toNat < 2 ^ 31
    · exact ⟨_,number_ahead isn seq next,by omega,by omega⟩
    · have opposite : (number isn next - seq).toNat = (2 ^ 32 - (seq - number isn next).toNat) % 2 ^ 32 := by bv_omega
      exact ⟨_,@number_behind seq isn next (by omega),by omega,by omega⟩
  have recorded {x : Nat} (low : p ≤ x) (high : x < p + payload.length)
      (place : p + payload.length ≤ next ∨ taken.length + limit ≤ next ∨ next < p) :=
    @add_range_contains next isn (taken.length + limit) p payload.length x _ t.sack_book (by omega) tracks.backed short low high
      behind ahead place
  rw [← number_add] at recorded
  by_cases fresh : next < p ∧ p < next + t.recv_buf.window.toNat
  · -- what the window cuts off is recorded all the same
    obtain ⟨after,within⟩ := fresh
    have offset : (number isn p - number isn next).toNat = p - next := toNat_number_sub (by omega) (by omega)
    have differs : number isn p ≠ number isn next := by
      rw [Ne,number_inj (by omega) (by omega)]
      omega
    have cut := beyond differs
    obtain ⟨buf',next',accepted,intact,keeps⟩ := @accepts _ _ _ _ t payload p tracks nonempty short (by omega) (by omega)
    rw [max_eq_left (by omega)] at keeps
    obtain ⟨rfl,_⟩ := keeps.waits after
    have stepped : t.step (.segment (number isn p) payload) =
        some ⟨buf',number isn next',t.sack_book.add_range (number isn p) (number isn p + BitVec.ofNat 32 payload.length)⟩ := by
      rw [expects] at accepted
      simp [step,enqueue_recv,accepted,expects,nonempty]
    refine ⟨_,stepped,fun truthful => ?_⟩
    obtain ⟨b,mem,within'⟩ := @recorded (taken.length + limit) (by omega) (by omega) (.inr (.inr after))
    obtain ⟨_,holds⟩ := truthful b mem _ within'
    obtain ⟨seg,queued,has⟩ := any_eq_true.mp holds
    exact lacks_beyond intact le_rfl (by omega) (by omega) seg queued (by simpa using has)
  · -- the queue ignores the segment
    have shut : p ≤ next → next < p + payload.length → t.recv_buf.window.toNat = 0 := by
      intro before covers
      have distance : (number isn next - number isn p).toNat = next - p := toNat_number_sub before (by omega)
      omega
    have ignored : t.recv_buf.accept (number isn p) payload t.rcv_nxt = some (t.recv_buf,t.rcv_nxt) := by
      refine accept_ignored short ?_
      rw [expects]
      by_cases before : p ≤ next
      · have distance : (number isn next - number isn p).toNat = next - p := toNat_number_sub before (by omega)
        have opposite : (number isn p - number isn next).toNat =
            (2 ^ 32 - (number isn next - number isn p).toNat) % 2 ^ 32 := by bv_omega
        by_cases covers : next < p + payload.length
        · exact .inr (.inr (shut before covers))
        · omega
      · have offset : (number isn p - number isn next).toNat = p - next := toNat_number_sub (by omega) (by omega)
        omega
    refine ⟨_,step_ignored nonempty ignored,fun truthful => ?_⟩
    obtain ⟨b,mem,within⟩ := @recorded p le_rfl (by omega) (by omega)
    obtain ⟨above,holds⟩ := truthful b mem _ within
    rw [expects,seq_gt_number (by omega) (by omega)] at above
    obtain ⟨seg,queued,has⟩ := any_eq_true.mp holds
    exact lacks_beyond tracks.intact (by omega) (by omega) ahead seg queued (by simpa using has)
/-- In every run whose segments keep `Inside`, every sequence number a block contains is ahead of `rcv_nxt` and
    its byte is in the out-of-order queue; no slice is out of range. With a buffer that is not within 2^16 of 2^31,
    any other segment that arrives makes some block untrue. -/
theorem sack_truthful (limit : Nat) (bounded : limit < 2 ^ 31) (isn : SeqNum) (t : Receiver) (run : Reaches (new limit isn) t) :
    t.Truthful ∧ (∀ event, Arrives event → t.Inside event → (t.step event).isSome = true) ∧ (limit + 2 ^ 16 < 2 ^ 31 →
        ∀ event, Arrives event → ¬ t.Inside event → ∃ t', t.step event = some t' ∧ ¬ t'.Truthful) := by
  obtain ⟨next,taken,tracks⟩ := tracks_reaches bounded run (tracks_new limit (2 ^ 31) (Nat.le_refl _) isn)
  refine ⟨tracks.truthful bounded,fun event arrives inside => ?_,fun small event arrives outside => ?_⟩
  · obtain ⟨t',_,_,stepped,_⟩ := tracks_step tracks bounded arrives inside
    rw [stepped]
    rfl
  · exact untruthful_outside tracks small arrives outside
/-- A segment that leaves a hole. -/
theorem sack_truthful_hole : ∃ t, (new 8 100#32).step (.segment 102#32 [7#8]) = some t ∧ t.Truthful := by
  have inside : (new 8 100#32).Inside (.segment 102#32 [7#8]) := by decide
  have arrives : Arrives (.segment 102#32 [7#8]) := (by decide : 1 < 2 ^ 16)
  obtain ⟨t,_,_,stepped,_⟩ := tracks_step (tracks_new 8 (2 ^ 31) (Nat.le_refl _) 100#32) (by decide) arrives inside
  exact ⟨t,stepped,(sack_truthful 8 (by decide) 100#32 t (.single ⟨_,arrives,inside,stepped⟩)).1⟩
/-- A segment that is received and comes again is recorded although it is behind `rcv_nxt`, and one beyond the
    window although nothing of it is kept. -/
theorem sack_untruthful : (∃ t₁ t₂, (new 8 100#32).step (.segment 100#32 [7#8]) = some t₁ ∧ t₁.step (.segment 100#32 [7#8]) = some t₂ ∧
      ¬ t₂.Truthful) ∧ ∃ t, (new 8 100#32).step (.segment 120#32 [7#8]) = some t ∧ ¬ t.Truthful := by
  have drained : RecvBuf.drain_ooo_into_in_order ⟨[7#8],[],8⟩ 101#32 = some (⟨[7#8],[],8⟩,101#32) := by
    rw [RecvBuf.drain_ooo_into_in_order.eq_def]
    rfl
  have first : (new 8 100#32).step (.segment 100#32 [7#8]) = some ⟨⟨[7#8],[],8⟩,101#32,⟨[]⟩⟩ := by
    have accepted : RecvBuf.accept (RecvBuf.new 8) 100#32 [7#8] 100#32 =
        RecvBuf.drain_ooo_into_in_order ⟨[7#8],[],8⟩ 101#32 := rfl
    simp only [step,enqueue_recv,new,accepted,drained]
    rfl
  have again : (⟨⟨[7#8],[],8⟩,101#32,⟨[]⟩⟩ : Receiver).step (.segment 100#32 [7#8]) =
      some ⟨⟨[7#8],[],8⟩,101#32,⟨[⟨100#32,101#32⟩]⟩⟩ := by decide
  have far : (new 8 100#32).step (.segment 120#32 [7#8]) = some ⟨⟨[],[],8⟩,100#32,⟨[⟨120#32,121#32⟩]⟩⟩ := by decide
  refine ⟨⟨_,_,first,again,fun truthful => ?_⟩,⟨_,far,fun truthful => ?_⟩⟩
  · exact absurd (truthful _ mem_cons_self 100#32 (by decide)).1 (by decide)
  · exact absurd (truthful _ mem_cons_self 120#32 (by decide)).2 (by decide)
end Receiver
end Narf.Net
