import Narf.Net.SeqSpace
import Narf.Net.Tcp.Run

namespace Narf.Net.Tcp
open List BitVec

/-! Where the sender stands. Positions count from the initial sequence number: the SYN is at 0, byte `k` of
    the stream at `k + 1`, the FIN behind the last byte. -/

/-! ## Comparisons -/
section Numbers
variable {isn : SeqNum} {x y : Nat}
lemma seq_leq_number (low : (y : Int) - x ≤ 2 ^ 31) (high : (x : Int) - y < 2 ^ 31) : seq_leq (number isn x) (number isn y) ↔ x ≤ y := by
  rw [seq_leq,toInt_number_sub low high,decide_eq_true_eq]
  omega
lemma seq_geq_number (low : (y : Int) - x ≤ 2 ^ 31) (high : (x : Int) - y < 2 ^ 31) : seq_geq (number isn x) (number isn y) ↔ y ≤ x := by
  rw [seq_geq,toInt_number_sub low high,decide_eq_true_eq]
  omega
/-- Every sequence number is that of one position in any 2^32 that follow each other. -/
lemma exists_number (isn seq : SeqNum) (u : Nat) : ∃ a, seq = number isn a ∧ u ≤ a ∧ a < u + 2 ^ 32 := by
  refine ⟨u + (seq - number isn u).toNat,?_,by omega,by have := (seq - number isn u).isLt; omega⟩
  rw [← number_add,ofNat_toNat,setWidth_eq,number]
  bv_omega
lemma number_zero (isn : SeqNum) : number isn 0 = isn := by
  rw [number]
  exact BitVec.add_zero isn
end Numbers

/-! ## The invariant -/
/-- How far behind `snd_una` the record ends. -/
def ahead (x : SendSpace) (r : OutSeg) : Nat := (r.end_seq - x.snd_una).toNat
/-- `snd_una`, `snd_nxt` and `snd_high` are at `u`, `n` and `h`, and the send buffer has what `written`
    has from `snd_una` on. -/
structure Stands (x : SendSpace) (written : List Byte) (u n h : Nat) : Prop where
  una : x.snd_una = number x.iss u
  nxt : x.snd_nxt = number x.iss n
  high : x.snd_high = number x.iss h
  order : u ≤ n ∧ n ≤ h
  span : h ≤ u + 2 ^ 30
  wnd : x.snd_wnd < 2 ^ 30
  last : h ≤ written.length + if x.fin_sent then 2 else 1
  bytes : x.send_buf.bytes = written.drop (u - 1)
  head : x.fin_sent = false ∨ x.send_buf.bytes ≠ [] → x.send_buf.unacked_head_seq = number x.iss (max u 1)
  sent : x.send_buf.sent_offset = min (n - 1) written.length - (u - 1)
  fin : x.fin_sent = true → x.fin_seq = number x.iss (written.length + 1)
  size : x.send_buf.bytes.length < 2 ^ 31 - 1 ∧ x.send_buf.limit < 2 ^ 31 - 1
  early : u = 0 → written = [] ∧ (x.fin_sent = false → ∀ r ∈ x.retx_queue, r.flags.syn = true)
  reach : ∀ r ∈ x.retx_queue, ahead x r ≤ h - u
  syns : ∀ r ∈ x.retx_queue, r.flags.syn = true → u ≤ 1 ∧ r.end_seq = number x.iss 1
  pair : x.retx_queue.Pairwise (fun a b => ahead x a + b.len ≤ ahead x b + 2 ^ 30 + 1)

section Basics
variable {x : SendSpace} {written : List Byte} {u n h : Nat}

section
variable (st : Stands x written u n h)
include st
lemma Stands.unwritten : u = 0 → written.length = 0 := fun zero => by rw [(st.early zero).1,length_nil]
lemma Stands.length_bytes : x.send_buf.bytes.length = written.length - (u - 1) := by rw [st.bytes,length_drop]
lemma Stands.unsent : x.send_buf.unsent_len = written.length - (n - 1) := by
  have order := st.order
  rw [SendBuf.unsent_len,st.length_bytes,st.sent]
  omega
lemma Stands.shaken (some_byte : written ≠ []) : 1 ≤ u := by
  by_contra none
  exact some_byte (st.early (by omega)).1
lemma Stands.in_flight : (x.snd_nxt - x.snd_una).toNat = n - u := by
  have order := st.order
  have span := st.span
  rw [st.nxt,st.una,toNat_number_sub order.1 (by omega)]
lemma Stands.una_eq_iss (small : u < 2 ^ 32) : x.snd_una = x.iss ↔ u = 0 := by
  rw [st.una]
  constructor
  · intro same
    have start : number x.iss u = number x.iss 0 := same.trans (number_zero x.iss).symm
    rwa [number_inj (by omega) (by omega)] at start
  · rintro rfl
    exact number_zero x.iss
lemma Stands.next_seq (more : 0 < x.send_buf.unsent_len) : x.send_buf.seq_at_sent_offset = number x.iss n ∧ 1 ≤ u ∧ n ≤ written.length := by
  have order := st.order
  rw [st.unsent] at more
  have shaken := st.shaken (by rintro rfl; simp at more)
  have some_byte : x.send_buf.bytes ≠ [] := by
    intro none
    have length := st.length_bytes
    rw [none,length_nil] at length
    omega
  refine ⟨?_,shaken,by omega⟩
  rw [SendBuf.seq_at_sent_offset,st.head (.inr some_byte),st.sent,number_add]
  congr 1
  omega
end
end Basics

/-! ## Records -/
section Records
variable {x : SendSpace} {written : List Byte} {u n h : Nat}

variable {queue : List OutSeg}
lemma Stands.fewer (st : Stands x written u n h) (sub : queue.Sublist x.retx_queue) : Stands { x with retx_queue := queue } written u n h :=
  { st with
    early := fun zero => ⟨(st.early zero).1,fun open_ r mem => (st.early zero).2 open_ r (sub.subset mem)⟩
    reach := fun r mem => st.reach r (sub.subset mem), syns := fun r mem => st.syns r (sub.subset mem)
    pair := st.pair.sublist sub }
lemma Stands.marked (st : Stands x written u n h) {f : OutSeg → OutSeg}
    (same : ∀ r, (f r).seq = r.seq ∧ (f r).len = r.len ∧ (f r).flags = r.flags) :
    Stands { x with retx_queue := x.retx_queue.map f } written u n h := by
  have ends (r : OutSeg) : (f r).end_seq = r.end_seq := by rw [OutSeg.end_seq,(same r).1,(same r).2.1,OutSeg.end_seq]
  have far (r : OutSeg) : ahead { x with retx_queue := x.retx_queue.map f } (f r) = ahead x r := by rw [ahead,ends,ahead]
  refine { st with early := ?_, reach := ?_, syns := ?_, pair := ?_ }
  · intro zero
    refine ⟨(st.early zero).1,fun open_ r mem => ?_⟩
    obtain ⟨r,old,rfl⟩ := mem_map.mp mem
    rw [(same r).2.2]
    exact (st.early zero).2 open_ r old
  · intro r mem
    obtain ⟨r,old,rfl⟩ := mem_map.mp mem
    rw [far]
    exact st.reach r old
  · intro r mem
    obtain ⟨r,old,rfl⟩ := mem_map.mp mem
    rw [(same r).2.2,ends]
    exact st.syns r old
  · rw [pairwise_map]
    refine st.pair.imp fun near => ?_
    rw [far,far,(same _).2.1]
    exact near
/-- What a new record has to be. -/
structure Fits (x : SendSpace) (u h : Nat) (r : OutSeg) : Prop where
  near : ahead x r ≤ h - u
  short : r.len ≤ ahead x r + 1
  syn : r.flags.syn = true → u ≤ 1 ∧ r.end_seq = number x.iss 1
  early : u = 0 → x.fin_sent = false → r.flags.syn = true
lemma Stands.requeue (st : Stands x written u n h) (sub : queue.Sublist x.retx_queue) {r : OutSeg}
    (near : ahead x r ≤ h - u) (syn : r.flags.syn → u ≤ 1 ∧ r.end_seq = number x.iss 1)
    (early : u = 0 → x.fin_sent = false → r.flags.syn) (pair : ∀ a ∈ queue, ahead x a + r.len ≤ ahead x r + 2 ^ 30 + 1) :
    Stands { x with retx_queue := queue ++ [r] } written u n h := by
  have each {P : OutSeg → Prop} (old : ∀ r' ∈ x.retx_queue, P r') (new : P r) : ∀ r' ∈ queue ++ [r], P r' := by
    intro r' mem
    rcases mem_append.mp mem with mem | mem
    · exact old r' (sub.subset mem)
    · exact mem_singleton.mp mem ▸ new
  refine { st with
    early := fun zero => ⟨(st.early zero).1,fun open_ => each ((st.early zero).2 open_) (early zero open_)⟩
    reach := each st.reach near, syns := each st.syns syn
    pair := pairwise_append.mpr ⟨st.pair.sublist sub,pairwise_singleton _ _,fun a old b new => ?_⟩ }
  exact mem_singleton.mp new ▸ pair a old
lemma Stands.push (st : Stands x written u n h) (sub : queue.Sublist x.retx_queue) {r : OutSeg}
    (fits : Fits x u h r) : Stands { x with retx_queue := queue ++ [r] } written u n h := by
  refine st.requeue sub fits.near fits.syn fits.early fun a old => ?_
  have span := st.span
  have near := st.reach a (sub.subset old)
  have short := fits.short
  omega
lemma Stands.grow (st : Stands x written u n h) {back r : OutSeg}
    (last : x.retx_queue = queue ++ [back]) (behind : back.end_seq = r.seq) (fits : Fits x u h r) (older : queue ≠ [])
    {back' : OutSeg} (seq : back'.seq = back.seq) (len : back'.len = add32 back.len r.len)
    (flags : back'.flags.syn = r.flags.syn) : Stands { x with retx_queue := queue ++ [back'] } written u n h := by
  have span := st.span
  have sub : queue.Sublist x.retx_queue := by
    rw [last]
    exact sublist_append_left queue [back]
  have mem : back ∈ x.retx_queue := by
    rw [last]
    exact mem_append_right queue (mem_singleton_self back)
  have reach := st.reach back mem
  have short := fits.short
  have near := fits.near
  have pair := st.pair
  rw [last,pairwise_append] at pair
  obtain ⟨a,rest,rfl⟩ := exists_cons_of_ne_nil older
  have bound := pair.2.2 a mem_cons_self back (mem_singleton_self back)
  have exact_len : add32 back.len r.len = back.len + r.len := by
    rw [add32]
    omega
  have ends : back'.end_seq = r.end_seq := by
    rw [OutSeg.end_seq,seq,len,exact_len,OutSeg.end_seq,← behind,OutSeg.end_seq,BitVec.ofNat_add,BitVec.add_assoc]
  have far : ahead x r = ahead x back + r.len := by
    have whole : (r.end_seq - x.snd_una) = (back.end_seq - x.snd_una) + BitVec.ofNat 32 r.len := by
      rw [OutSeg.end_seq,← behind]
      bv_omega
    have limit := (back.end_seq - x.snd_una).isLt
    rw [ahead] at near reach
    rw [ahead] at short
    rw [ahead,ahead,whole,toNat_add,toNat_ofNat]
    omega
  refine st.requeue sub ?_ ?_ ?_ fun a' old => ?_
  · rw [ahead,ends]
    exact near
  · rw [flags,ends]
    exact fits.syn
  · rw [flags]
    exact fits.early
  · have near' := pair.2.2 a' old back (mem_singleton_self back)
    rw [ahead] at far
    show ahead x a' + back'.len ≤ (back'.end_seq - x.snd_una).toNat + 2 ^ 30 + 1
    rw [ends,len,exact_len]
    omega
end Records
lemma queue_stands {env : Env} {t : Tcb} {written : List Byte} {u n h : Nat} (st : Stands t.toSendSpace written u n h)
    {seq : SeqNum} {seq_len : Nat} {flags : Flags} (fits : Fits t.toSendSpace u h ⟨seq,seq_len,env.now,false,flags⟩) :
    Stands (queue_retransmit env t seq seq_len flags).toSendSpace written u n h := by
  unfold queue_retransmit
  dsimp only
  split
  · next full =>
    have long : 256 ≤ t.retx_queue.length := full
    split
    · next back last =>
      have split_ := dropLast_append_getLast? back last
      split
      · next behind =>
        refine st.grow split_.symm behind.1 fits ?_ rfl rfl ?_
        · intro none
          have length := congrArg List.length none
          rw [length_dropLast] at length
          simp at length
          omega
        · simp [Flags.union,behind.2,Bool.false_or]
      · exact st.push (tail_sublist _) fits
    · exact st.push (Sublist.refl _) fits
  · exact st.push (Sublist.refl _) fits

/-! ## Moving -/
section Moves
variable {x : SendSpace} {written : List Byte} {u n h : Nat}

variable {m : Nat} {t : Tcb}
/-- `snd_nxt` moves to `m`, with the send buffer; `snd_high` follows. -/
lemma Stands.move (st : Stands x written u n h) (low : u ≤ m) (span : m ≤ u + 2 ^ 30)
    (last : m ≤ written.length + if x.fin_sent then 2 else 1) {buf : SendBuf}
    (same : buf = { x.send_buf with sent_offset := min (m - 1) written.length - (u - 1) }) :
    Stands { x with snd_nxt := number x.iss m, snd_high := number x.iss (max m h), send_buf := buf } written u m (max m h) := by
  subst same
  have order := st.order
  have span' := st.span
  have last' := st.last
  exact { st with
    nxt := rfl, high := rfl, order := ⟨low,le_max_left m h⟩, span := Nat.max_le.mpr ⟨span,span'⟩
    last := Nat.max_le.mpr ⟨last,last'⟩, sent := rfl, reach := fun r mem => le_trans (st.reach r mem) (by omega) }
lemma note_sent_eq {h : Nat} (nxt : t.snd_nxt = number t.iss m) (high : t.snd_high = number t.iss h)
    (near : m < h + 2 ^ 31) (near' : h ≤ m + 2 ^ 31) : note_sent t = { t with snd_high := number t.iss (max m h) } := by
  have later : seq_gt t.snd_nxt t.snd_high ↔ h < m := by
    rw [nxt,high]
    exact seq_gt_number (by omega) (by omega)
  unfold note_sent
  by_cases above : h < m
  · rw [if_pos (later.mpr above),max_eq_left (by omega),nxt]
  · rw [if_neg (fun gt => above (later.mp gt)),max_eq_right (by omega),← high]
lemma note_sent_stands (st : Stands x written u n h) (low : u ≤ m) (span : m ≤ u + 2 ^ 30)
    (last : m ≤ written.length + if x.fin_sent then 2 else 1) (space : t.toSendSpace = { x with
      snd_nxt := number x.iss m, send_buf := { x.send_buf with sent_offset := min (m - 1) written.length - (u - 1) } }) :
    Stands (note_sent t).toSendSpace written u m (max m h) := by
  have order := st.order
  have span' := st.span
  have iss : t.iss = x.iss := by rw [space]
  have nxt : t.snd_nxt = number t.iss m := by rw [space]
  have high : t.snd_high = number t.iss h := by
    rw [space]
    exact st.high
  rw [note_sent_eq nxt high (by omega) (by omega)]
  show Stands { t.toSendSpace with snd_high := number t.iss (max m h) } written u m (max m h)
  rw [space]
  exact st.move low span last rfl
lemma note_sent_same (t : Tcb) : ∃ high, note_sent t = { t with snd_high := high } := by
  unfold note_sent
  split <;> exact ⟨_,rfl⟩
end Moves
end Narf.Net.Tcp
