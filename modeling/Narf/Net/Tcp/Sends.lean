import Narf.Net.Tcp.Stands

namespace Narf.Net.Tcp
open List

/-! What the sender puts on the wire is what the application wrote, at its place in the stream. -/
structure Genuine (iss : SeqNum) (written : List Byte) (seg : Segment) : Prop where
  data : seg.payload ≠ [] → ∃ k, seg.seq = number iss (k + 1) ∧ k + seg.payload.length ≤ written.length ∧
    seg.payload = (written.drop k).take seg.payload.length
  fin : seg.flags.fin = true → seg.seq + BitVec.ofNat 32 seg.payload.length = number iss (written.length + 1)
/-- The sender stands there, and all it has sent is genuine. -/
structure Sends (s : Sock) (written : List Byte) (u n h : Nat) : Prop where
  stands : Stands s.tcb.toSendSpace written u n h
  wire : ∀ seg ∈ s.wire, Genuine s.tcb.iss written seg ∧ (seg.flags.fin = true → s.tcb.fin_sent = true)

section Frame
variable {s : Sock} {written : List Byte} {u n h : Nat}

section
variable (sends : Sends s written u n h)
include sends
lemma Sends.same {t : Tcb} (space : t.toSendSpace = s.tcb.toSendSpace) : Sends { s with tcb := t } written u n h := by
  have iss : t.iss = s.tcb.iss := congrArg SendSpace.iss space
  have fin : t.fin_sent = s.tcb.fin_sent := congrArg SendSpace.fin_sent space
  constructor
  · rw [space]
    exact sends.stands
  · intro seg mem
    rw [iss,fin]
    exact sends.wire seg mem
lemma Sends.emit {seg : Segment} (genuine : Genuine s.tcb.iss written seg)
    (fin : seg.flags.fin → s.tcb.fin_sent) : Sends (s.emit seg) written u n h := by
  refine ⟨sends.stands,fun seg' mem => ?_⟩
  rcases mem_append.mp mem with old | new
  · exact sends.wire seg' old
  · cases mem_singleton.mp new
    exact ⟨genuine,fin⟩
lemma Sends.emit_plain {seg : Segment} (empty : seg.payload = []) (plain : seg.flags.fin = false) : Sends (s.emit seg) written u n h := by
  refine sends.emit ⟨fun some_byte => absurd empty some_byte,fun fin => ?_⟩ fun fin => ?_
  · rw [plain] at fin
    cases fin
  · rw [plain] at fin
    cases fin
lemma Sends.moved {t : Tcb} {u' n' h' : Nat} (stands : Stands t.toSendSpace written u' n' h')
    (iss : t.iss = s.tcb.iss) (fin : t.fin_sent = s.tcb.fin_sent) : Sends { s with tcb := t } written u' n' h' := by
  refine ⟨stands,fun seg mem => ?_⟩
  rw [iss,fin]
  exact sends.wire seg mem
end
end Frame

/-! ## Acknowledgements -/
/-- The second is the first, perhaps after one acknowledgement. -/
structure Acks (s s' : Sock) : Prop where
  sender : s'.tcb.toSender = s.tcb.toSender
  state : s'.tcb.state = s.tcb.state
  rcv : s'.tcb.rcv = s.tcb.rcv
  opts : s'.tcb.opts = s.tcb.opts
  egress : s'.tcb.egress = s.tcb.egress
  orphan : s'.tcb.orphan = s.tcb.orphan
  wire : s'.wire = s.wire ∨ ∃ seg, s'.wire = s.wire ++ [seg] ∧ seg.payload = [] ∧ seg.flags = { Flags.none with ack := true }
lemma Acks.refl (s : Sock) : Acks s s := ⟨rfl,rfl,rfl,rfl,rfl,rfl,.inl rfl⟩
lemma send_ack_acks (env : Env) (s : Sock) : Acks s (send_ack env s) := by
  unfold send_ack
  split
  · exact Acks.refl s
  · exact ⟨rfl,rfl,rfl,rfl,rfl,rfl,.inr ⟨_,rfl,rfl,rfl⟩⟩
lemma reack_acks (env : Env) (s : Sock) (seg : Segment) : Acks s (reack_retransmitted_fin env s seg) := by
  unfold reack_retransmitted_fin
  split
  · exact send_ack_acks env s
  · exact Acks.refl s
lemma schedule_ack_acks (env : Env) (s : Sock) (need : AckNeed) : Acks s (schedule_ack env s need) := by
  unfold schedule_ack
  cases need with
  | None => exact Acks.refl s
  | Now => exact send_ack_acks env s
  | Data =>
    dsimp only
    split
    · exact send_ack_acks env s
    split
    · obtain ⟨sender,state,rcv,opts,egress,orphan,wire⟩ :=
        send_ack_acks env (s.update (fun t => { t with quickack_left := t.quickack_left - 1 }))
      exact ⟨sender,state,rcv,opts,egress,orphan,wire⟩
    · refine ⟨?_,?_,?_,?_,?_,?_,.inl rfl⟩ <;>
      · simp only [Sock.update]
        split <;> rfl
lemma Sends.acks {s s' : Sock} {written : List Byte} {u n h : Nat} (sends : Sends s written u n h) (acks : Acks s s') :
    Sends s' written u n h := by
  have same := sends.same (congrArg Sender.toSendSpace acks.sender)
  refine ⟨same.stands,fun seg mem => ?_⟩
  rcases acks.wire with none | ⟨seg',one,empty,flags⟩
  · rw [none] at mem
    exact same.wire seg mem
  · rw [one] at mem
    refine (same.emit_plain empty ?_).wire seg mem
    rw [flags]
    rfl

/-! ## Data -/
/-- A step of the sender that leaves the rest of the connection alone. -/
structure Pumps (t t' : Tcb) : Prop where
  state : t'.state = t.state
  rcv : t'.rcv = t.rcv
  opts : t'.opts = t.opts
  una : t'.snd_una = t.snd_una
  iss : t'.iss = t.iss
  fin_sent : t'.fin_sent = t.fin_sent
  fin_seq : t'.fin_seq = t.fin_seq
  wnd : t'.snd_wnd = t.snd_wnd
  cong : t'.cong = t.cong

lemma Pumps.refl (t : Tcb) : Pumps t t := ⟨rfl,rfl,rfl,rfl,rfl,rfl,rfl,rfl,rfl⟩
lemma Pumps.trans {t t' t'' : Tcb} (first : Pumps t t') (second : Pumps t' t'') : Pumps t t'' :=
  ⟨second.state.trans first.state,second.rcv.trans first.rcv,second.opts.trans first.opts,second.una.trans first.una,
    second.iss.trans first.iss,second.fin_sent.trans first.fin_sent,second.fin_seq.trans first.fin_seq,
    second.wnd.trans first.wnd,second.cong.trans first.cong⟩
lemma queue_retransmit_same (env : Env) (t : Tcb) (seq : SeqNum) (len : Nat) (flags : Flags) :
    ∃ flight queue, queue_retransmit env t seq len flags = { t with flightsize := flight, retx_queue := queue } := by
  unfold queue_retransmit
  dsimp only
  split
  · split
    · split
      · exact ⟨_,_,rfl⟩
      · exact ⟨_,_,rfl⟩
    · exact ⟨_,_,rfl⟩
  · exact ⟨_,_,rfl⟩
lemma arm_same (env : Env) (t : Tcb) : ∃ deadline, arm_retransmit_timer env t = { t with retx_deadline_cycles := deadline } := by
  unfold arm_retransmit_timer
  split <;> exact ⟨_,rfl⟩
lemma note_sent_pumps {t t' : Tcb} (pumps : Pumps t t') : Pumps t (note_sent t') := by
  obtain ⟨high,noted⟩ := note_sent_same t'
  rw [noted]
  exact pumps.trans ⟨rfl,rfl,rfl,rfl,rfl,rfl,rfl,rfl,rfl⟩
lemma cached_egress_same {env : Env} {t t' : Tcb} {dev : Nat} (found : cached_egress_for_tcb env t = some (dev,t')) :
    t' = { t with egress := some dev } := by
  unfold cached_egress_for_tcb at found
  split at found
  · next dev' known =>
    cases found
    rw [← known]
  · obtain ⟨dev',_,same⟩ := Option.map_eq_some_iff.mp found
    cases same
    rfl
lemma record_pumps (env : Env) (s : Sock) (seq : SeqNum) (len : Nat) (flags : Flags) :
    Pumps s.tcb (s.update (fun t => arm_retransmit_timer env (queue_retransmit env t seq len flags))).tcb := by
  obtain ⟨flight,queue,queued⟩ := queue_retransmit_same env s.tcb seq len flags
  obtain ⟨deadline,armed⟩ := arm_same env { s.tcb with flightsize := flight, retx_queue := queue }
  simp only [Sock.update,queued,armed]
  exact ⟨rfl,rfl,rfl,rfl,rfl,rfl,rfl,rfl,rfl⟩
section Data
variable {env : Env} {s : Sock} {written : List Byte} {u n h : Nat}
lemma record_sends (sends : Sends s written u n h) {seq : SeqNum} {len : Nat} {flags : Flags}
    (fits : Fits s.tcb.toSendSpace u h ⟨seq,len,env.now,false,flags⟩) :
    Sends (s.update (fun t => arm_retransmit_timer env (queue_retransmit env t seq len flags))) written u n h := by
  have queued := queue_stands sends.stands fits
  have pumps := record_pumps env s seq len flags
  refine sends.moved ?_ pumps.iss pumps.fin_sent
  obtain ⟨deadline,armed⟩ := arm_same env (queue_retransmit env s.tcb seq len flags)
  show Stands (arm_retransmit_timer env (queue_retransmit env s.tcb seq len flags)).toSendSpace written u n h
  rw [armed]
  exact queued
lemma send_data_pumps (env : Env) (s : Sock) (seq : SeqNum) (payload : List Byte) (fin psh : Bool) :
    Pumps s.tcb (send_data env s seq payload fin psh).tcb := by
  unfold send_data
  split
  · exact Pumps.refl s.tcb
  · next dev t found =>
    cases cached_egress_same found
    refine Pumps.trans ?_ (record_pumps env _ seq _ _)
    exact ⟨rfl,rfl,rfl,rfl,rfl,rfl,rfl,rfl,rfl⟩
/-- The payload is the stream's from position `p` on. -/
structure Chunk (written : List Byte) (p : Nat) (payload : List Byte) : Prop where
  low : 1 ≤ p
  top : p + payload.length ≤ written.length + 1
  bytes : payload = (written.drop (p - 1)).take payload.length
lemma Chunk.genuine {p : Nat} {payload : List Byte} (chunk : Chunk written p payload) {seg : Segment} {iss : SeqNum}
    (seq : seg.seq = number iss p) (same : seg.payload = payload)
    (fin : seg.flags.fin → p + payload.length = written.length + 1) : Genuine iss written seg := by
  have low := chunk.low
  have top := chunk.top
  refine ⟨fun _ => ⟨p - 1,?_,?_,?_⟩,fun flag => ?_⟩
  · rw [seq,Nat.sub_add_cancel low]
  · rw [same]
    omega
  · rw [same]
    exact chunk.bytes
  · rw [seq,same,number_add,fin flag]
lemma send_data_sends (sends : Sends s written u n h) {p : Nat} {payload : List Byte} {fin : Bool} (psh : Bool)
    (chunk : Chunk written p payload) (low : u ≤ p) (top : p + payload.length + (if fin then 1 else 0) ≤ n)
    (last : fin → p + payload.length = written.length + 1 ∧ s.tcb.fin_sent) (live : 1 ≤ u ∨ s.tcb.fin_sent) :
    Sends (send_data env s (number s.tcb.iss p) payload fin psh) written u n h := by
  have order := sends.stands.order
  have span := sends.stands.span
  unfold send_data
  split
  · exact sends
  · next dev t found =>
    cases cached_egress_same found
    rcases advertised : effective_advertised_window { s.tcb with egress := some dev } with ⟨window,t⟩
    have space : t.toSendSpace = s.tcb.toSendSpace := by
      cases advertised
      rfl
    have quiet : Sends { s with tcb := { t with delayed_ack_deadline_cycles := 0 } } written u n h := sends.same space
    have iss : t.iss = s.tcb.iss := congrArg SendSpace.iss space
    have closed : t.fin_sent = s.tcb.fin_sent := congrArg SendSpace.fin_sent space
    have genuine := @Chunk.genuine written p payload chunk
      ⟨number s.tcb.iss p,t.rcv.rcv_nxt,{ Flags.none with ack := true, fin := fin, psh := psh },window,payload⟩ t.iss
      (by rw [iss]) rfl (fun flag => (last flag).1)
    refine record_sends (quiet.emit genuine (fun flag => closed.trans (last flag).2)) ?_
    have ends : (number s.tcb.iss p + BitVec.ofNat 32 (payload.length + if fin then 1 else 0) - t.snd_una).toNat =
        p + (payload.length + if fin then 1 else 0) - u := by
      rw [congrArg SendSpace.snd_una space,sends.stands.una,number_add,toNat_number_sub (by omega) (by omega)]
    refine ⟨?_,?_,fun syn => absurd syn Bool.false_ne_true,fun zero open_ => ?_⟩
    · show (number s.tcb.iss p + BitVec.ofNat 32 (payload.length + if fin then 1 else 0) - t.snd_una).toNat ≤ h - u
      omega
    · show payload.length + (if fin then 1 else 0) ≤
        (number s.tcb.iss p + BitVec.ofNat 32 (payload.length + if fin then 1 else 0) - t.snd_una).toNat + 1
      omega
    · rcases live with later | closed'
      · omega
      · exact absurd ((closed.trans closed').symm.trans open_) (by decide)

/-! ## The sender loop -/
lemma take_chunks_spec {cap : Nat} (positive : 0 < cap) {fuel remaining : Nat} {buf : SendBuf} (enough : remaining ≤ fuel)
    (there : buf.sent_offset + remaining ≤ buf.bytes.length) :
    (take_chunks cap fuel remaining buf).1.flatten = (buf.bytes.drop buf.sent_offset).take remaining ∧
      (∀ c ∈ (take_chunks cap fuel remaining buf).1, c ≠ []) ∧
      (take_chunks cap fuel remaining buf).2 = { buf with sent_offset := buf.sent_offset + remaining } := by
  induction fuel generalizing remaining buf with
  | zero =>
    have none : remaining = 0 := by omega
    subst none
    exact ⟨by simp [take_chunks],by simp [take_chunks],rfl⟩
  | succ fuel ih =>
    unfold take_chunks
    by_cases none : remaining = 0
    · subst none
      rw [if_pos rfl]
      exact ⟨by simp,by simp,rfl⟩
    rw [if_neg none]
    have slice : buf.unsent_slices (min remaining cap) = (buf.bytes.drop buf.sent_offset).take (min remaining cap) := by
      rw [SendBuf.unsent_slices,SendBuf.unsent_len]
      congr 1
      omega
    have length : (buf.unsent_slices (min remaining cap)).length = min remaining cap := by
      rw [slice,length_take,length_drop]
      omega
    have some_byte : ¬ buf.unsent_slices (min remaining cap) = [] := by
      intro empty
      rw [empty,length_nil] at length
      omega
    rw [if_neg some_byte,length]
    have marked : buf.mark_sent (min remaining cap) = { buf with sent_offset := buf.sent_offset + min remaining cap } := by
      rw [SendBuf.mark_sent,min_eq_left (by omega)]
    rw [marked]
    obtain ⟨flat,full,rest⟩ := @ih (remaining - min remaining cap) { buf with sent_offset := buf.sent_offset + min remaining cap }
      (by omega) (by simp only; omega)
    refine ⟨?_,?_,?_⟩
    · rw [flatten_cons,flat,slice]
      simp only
      rw [← drop_drop,← take_add]
      congr 1
      omega
    · intro c mem
      rcases mem_cons.mp mem with rfl | later
      · exact some_byte
      · exact full c later
    · rw [rest]
      simp only [SendBuf.mk.injEq,true_and,and_true]
      omega
lemma send_chunks_sends {chunks : List (List Byte)} {fin : Bool} {p : Nat} (sends : Sends s written u n h)
    (chunk : Chunk written p chunks.flatten) (low : u ≤ p) (top : p + chunks.flatten.length + (if fin then 1 else 0) ≤ n)
    (last : fin → p + chunks.flatten.length = written.length + 1 ∧ s.tcb.fin_sent) (live : 1 ≤ u) :
    Sends (send_chunks env fin (number s.tcb.iss p) chunks s) written u n h ∧
      Pumps s.tcb (send_chunks env fin (number s.tcb.iss p) chunks s).tcb := by
  induction chunks generalizing p s with
  | nil => exact ⟨sends,Pumps.refl s.tcb⟩
  | cons c rest ih =>
    rw [flatten_cons,length_append] at top last
    have top' := chunk.top
    have bytes := chunk.bytes
    rw [flatten_cons,length_append] at top' bytes
    have low' := chunk.low
    rw [take_add] at bytes
    obtain ⟨first,second⟩ := append_inj bytes (by
      rw [length_take,length_drop]
      omega)
    have one : Chunk written p c := ⟨low',by omega,first⟩
    have more : Chunk written (p + c.length) rest.flatten := by
      refine ⟨by omega,by omega,?_⟩
      rw [drop_drop] at second
      rw [show p + c.length - 1 = p - 1 + c.length by omega]
      exact second
    unfold send_chunks
    have sent := @send_data_sends env s written u n h sends p c (fin && rest.isEmpty) true one low
      (by
        by_cases flag : fin
        · rw [if_pos flag] at top
          split <;> omega
        · rw [Bool.not_eq_true] at flag
          subst flag
          simp only [Bool.false_and,Bool.false_eq_true,if_false]
          omega)
      (fun flag => by
        rw [Bool.and_eq_true,List.isEmpty_iff] at flag
        have end_ := last flag.1
        rw [flag.2] at end_
        exact end_)
      (.inl live)
    have pumps := send_data_pumps env s (number s.tcb.iss p) c (fin && rest.isEmpty) true
    obtain ⟨sends',pumps'⟩ := @ih (send_data env s (number s.tcb.iss p) c (fin && rest.isEmpty) true) (p + c.length) sent
      more (by omega) (by omega) (fun flag => by
        obtain ⟨place,closed⟩ := last flag
        exact ⟨by omega,pumps.fin_sent.trans closed⟩)
    rw [pumps.iss] at sends' pumps'
    rw [number_add]
    exact ⟨sends',pumps.trans pumps'⟩
/-- One round: nothing is sent, the FIN is, or bytes from `snd_nxt` on. -/
inductive RoundSends (t : Tcb) (written : List Byte) (u n h : Nat) : Round → Prop
  | stop {t' : Tcb} (space : t'.toSendSpace = t.toSendSpace) (pumps : Pumps t t') : RoundSends t written u n h (.stop t')
  | fin {t' : Tcb} (closed : t.fin_sent = true) (here : n = written.length + 1)
      (stands : Stands t'.toSendSpace written u (n + 1) (max (n + 1) h)) (pumps : Pumps t t') :
      RoundSends t written u n h (.fin t')
  | data {t' : Tcb} {chunks : List (List Byte)} {seq : SeqNum} {fin : Bool} {m : Nat} (seq_eq : seq = number t.iss n) (live : 1 ≤ u)
      (some_chunk : chunks ≠ []) (chunk : Chunk written n chunks.flatten) (m_eq : m = n + chunks.flatten.length + if fin then 1 else 0)
      (last : fin = true → n + chunks.flatten.length = written.length + 1 ∧ t.fin_sent = true)
      (stands : Stands t'.toSendSpace written u m (max m h)) (pumps : Pumps t t') :
      RoundSends t written u n h (.data t' chunks seq fin)

lemma send_mss_pos (t : Tcb) : 0 < send_mss t := by
  unfold send_mss
  omega
lemma seg_cap_pos (t : Tcb) : 0 < seg_cap t := by
  have positive := send_mss_pos t
  unfold seg_cap
  dsimp only
  split <;> omega
lemma pump_round_sends (env : Env) {t : Tcb} (st : Stands t.toSendSpace written u n h) : RoundSends t written u n h (pump_round env t) := by
  have order := st.order
  have span := st.span
  have wnd := st.wnd
  have high := st.last
  unfold pump_round
  dsimp only
  by_cases closed : usable_send_window t = 0
  · rw [if_pos closed]
    split
    · exact .stop rfl ⟨rfl,rfl,rfl,rfl,rfl,rfl,rfl,rfl,rfl⟩
    · exact .stop rfl (Pumps.refl _)
  rw [if_neg closed]
  have flight := st.in_flight
  have usable : usable_send_window t + (n - u) < 2 ^ 30 := by
    unfold usable_send_window at closed ⊢
    rw [flight] at closed ⊢
    omega
  split
  · exact .stop rfl (Pumps.refl _)
  by_cases drained : t.send_buf.unsent_len = 0
  · rw [if_pos drained]
    split
    · next ready =>
      -- the FIN alone
      have place : n = written.length + 1 := by
        have same := ready.2
        rw [st.nxt,st.fin ready.1] at same
        rw [ready.1,if_pos rfl] at high
        rw [st.unsent] at drained
        rwa [number_inj (by omega) (by omega)] at same
      have next : t.snd_nxt + 1 = number t.iss (n + 1) := by
        rw [st.nxt,← number_add]
        rfl
      have offset : min (n + 1 - 1) written.length - (u - 1) = t.send_buf.sent_offset := by
        rw [st.sent]
        omega
      refine .fin ready.1 place (note_sent_stands st (by omega) (by omega) (by rw [ready.1,if_pos rfl]; omega) ?_)
        (note_sent_pumps ?_)
      · rw [offset,← next]
      · exact ⟨rfl,rfl,rfl,rfl,rfl,rfl,rfl,rfl,rfl⟩
    · exact .stop rfl (Pumps.refl _)
  rw [if_neg drained]
  obtain ⟨seq,live,inside⟩ := st.next_seq (Nat.pos_of_ne_zero drained)
  have unsent := st.unsent
  have length := st.length_bytes
  have sent := st.sent
  have some_unsent : 0 < min t.send_buf.unsent_len (usable_send_window t) := by omega
  have there : t.send_buf.sent_offset + min t.send_buf.unsent_len (usable_send_window t) ≤ t.send_buf.bytes.length := by omega
  have within : min t.send_buf.unsent_len (usable_send_window t) ≤ usable_send_window t := min_le_right _ _
  generalize min t.send_buf.unsent_len (usable_send_window t) = remaining at some_unsent there within ⊢
  obtain ⟨flat,full,marked⟩ := take_chunks_spec (seg_cap_pos t) (le_refl remaining) there
  rcases taken : take_chunks (seg_cap t) remaining remaining t.send_buf with ⟨chunks,buf⟩
  rw [taken] at flat marked
  simp only at flat marked
  subst marked
  have count : chunks.flatten.length = remaining := by
    rw [flat,length_take,length_drop]
    omega
  have total : (chunks.map List.length).sum = remaining := by rw [← length_flatten,count]
  have next : t.snd_nxt + BitVec.ofNat 32 remaining = number t.iss (n + remaining) := by rw [st.nxt,number_add]
  have chunk : Chunk written n chunks.flatten := by
    refine ⟨by omega,by omega,?_⟩
    rw [count,flat,st.bytes,drop_drop]
    congr 2
    omega
  have some_chunk : chunks ≠ [] := by
    rintro rfl
    simp at count
    omega
  dsimp only
  rw [total,next]
  by_cases attach : (decide (SendBuf.unsent_len { t.send_buf with sent_offset := t.send_buf.sent_offset + remaining } = 0) &&
      t.fin_sent && decide (number t.iss (n + remaining) = t.fin_seq)) = true
  · rw [attach,if_pos rfl]
    simp only [Bool.and_eq_true,decide_eq_true_eq] at attach
    obtain ⟨⟨drained',closed'⟩,place⟩ := attach
    have here : n + remaining = written.length + 1 := by
      rw [SendBuf.unsent_len] at drained'
      simp only at drained'
      omega
    refine .data (m := n + remaining + 1) seq live some_chunk chunk (by rw [count,if_pos rfl]) (fun _ => ⟨by omega,closed'⟩)
      (note_sent_stands st (by omega) (by omega) (by rw [closed',if_pos rfl]; omega) ?_) (note_sent_pumps ?_)
    · have offset : min (n + remaining + 1 - 1) written.length - (u - 1) = t.send_buf.sent_offset + remaining := by omega
      have beyond : number t.iss (n + remaining) + 1 = number t.iss (n + remaining + 1) := number_add _ _ 1
      rw [offset,← beyond]
    · exact ⟨rfl,rfl,rfl,rfl,rfl,rfl,rfl,rfl,rfl⟩
  · rw [Bool.not_eq_true] at attach
    rw [attach]
    refine .data (m := n + remaining) seq live some_chunk chunk (by rw [count]; rfl) (absurd · Bool.false_ne_true)
      (note_sent_stands st (by omega) (by omega) (by split <;> omega) ?_) (note_sent_pumps ?_)
    · have offset : min (n + remaining - 1) written.length - (u - 1) = t.send_buf.sent_offset + remaining := by omega
      rw [offset]
      rfl
    · exact ⟨rfl,rfl,rfl,rfl,rfl,rfl,rfl,rfl,rfl⟩
lemma pump_loop_sends (fuel : Nat) (sends : Sends s written u n h) :
    ∃ n' h', n ≤ n' ∧ h ≤ h' ∧ Sends (pump_loop env fuel s) written u n' h' ∧ Pumps s.tcb (pump_loop env fuel s).tcb := by
  induction fuel generalizing s n h with
  | zero => exact ⟨n,h,le_refl n,le_refl h,sends,Pumps.refl s.tcb⟩
  | succ fuel ih =>
    have round := pump_round_sends env sends.stands
    unfold pump_loop
    cases taken : pump_round env s.tcb with
    | stop t =>
      rw [taken] at round
      obtain ⟨space,pumps⟩ := round
      exact ⟨n,h,le_refl n,le_refl h,sends.same space,pumps⟩
    | fin t =>
      rw [taken] at round
      obtain _ | ⟨closed,here,stands,pumps⟩ := round
      have moved := sends.moved stands pumps.iss pumps.fin_sent
      have fin_seq : t.fin_seq = number t.iss n := by
        rw [here]
        exact stands.fin (pumps.fin_sent.trans closed)
      have sent := @send_data_sends env { s with tcb := t } written u (n + 1) (max (n + 1) h) moved n [] true false
        ⟨by omega,by simp only [length_nil]; omega,rfl⟩ sends.stands.order.1 (by simp)
        (fun _ => ⟨by simp only [length_nil]; omega,pumps.fin_sent.trans closed⟩) (.inr (pumps.fin_sent.trans closed))
      refine ⟨n + 1,max (n + 1) h,by omega,by omega,?_,?_⟩
      · dsimp only
        rw [fin_seq]
        exact sent
      · exact pumps.trans (send_data_pumps env { s with tcb := t } t.fin_seq [] true false)
    | data t chunks seq fin =>
      rw [taken] at round
      obtain _ | _ | ⟨seq_eq,live,some_chunk,chunk,m_eq,last,stands,pumps⟩ := round
      next m =>
      have moved := sends.moved stands pumps.iss pumps.fin_sent
      obtain ⟨sent,pumps'⟩ := @send_chunks_sends env { s with tcb := t } written u m (max m h) chunks fin n moved chunk
        sends.stands.order.1 (le_of_eq m_eq.symm) (fun flag => ⟨(last flag).1,pumps.fin_sent.trans (last flag).2⟩) live
      have same : seq = number t.iss n := seq_eq.trans (by rw [pumps.iss])
      dsimp only
      rw [if_neg some_chunk,same]
      split
      · exact ⟨m,max m h,by omega,by omega,sent,pumps.trans pumps'⟩
      · obtain ⟨n',h',later,higher,sends',pumps''⟩ := ih sent
        exact ⟨n',h',by omega,by omega,sends',(pumps.trans pumps').trans pumps''⟩
lemma pump_send_sends (env : Env) (sends : Sends s written u n h) :
    ∃ n' h', n ≤ n' ∧ h ≤ h' ∧ Sends (pump_send env s) written u n' h' ∧ Pumps s.tcb (pump_send env s).tcb := by
  unfold pump_send
  split
  · exact ⟨n,h,le_refl n,le_refl h,sends,Pumps.refl s.tcb⟩
  · next dev t found =>
    cases cached_egress_same found
    obtain ⟨n',h',later,higher,sends',pumps⟩ := @pump_loop_sends env { s with tcb := { s.tcb with egress := some dev } } written
      u n h (s.tcb.send_buf.unsent_len + 1) (sends.same rfl)
    have resolved : Pumps s.tcb { s.tcb with egress := some dev } := ⟨rfl,rfl,rfl,rfl,rfl,rfl,rfl,rfl,rfl⟩
    exact ⟨n',h',later,higher,sends',resolved.trans pumps⟩
end Data
end Narf.Net.Tcp
