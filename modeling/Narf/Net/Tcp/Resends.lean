import Narf.Net.Tcp.Sends

namespace Narf.Net.Tcp
open List

/-! What is sent again: the SYN, and the head of what is not acknowledged. -/
structure Keeps (t t' : Tcb) : Prop where
  state : t'.state = t.state
  iss : t'.iss = t.iss
  fin_sent : t'.fin_sent = t.fin_sent
lemma Keeps.refl (t : Tcb) : Keeps t t := ⟨rfl,rfl,rfl⟩
lemma Keeps.trans {t t' t'' : Tcb} (first : Keeps t t') (second : Keeps t' t'') : Keeps t t'' :=
  ⟨second.state.trans first.state,second.iss.trans first.iss,second.fin_sent.trans first.fin_sent⟩
lemma Pumps.keeps {t t' : Tcb} (pumps : Pumps t t') : Keeps t t' := ⟨pumps.state,pumps.iss,pumps.fin_sent⟩

/-! ## The head of the stream -/
/-- What `retransmit_head` gives is the stream's, from `snd_una` on. -/
structure Head (x : SendSpace) (written : List Byte) (u : Nat) (seq : SeqNum) (payload : List Byte) (fin : Bool) : Prop where
  seq_eq : seq = number x.iss u
  small : payload.length ≤ 65535
  chunk : payload ≠ [] ∨ fin = true → Chunk written u payload
  last : fin = true → u + payload.length = written.length + 1 ∧ x.fin_sent = true
lemma send_mss_le (t : Tcb) : send_mss t ≤ 65535 := by
  have least : MIN_MSS = 536 := rfl
  unfold send_mss
  omega
section Resend
variable {env : Env} {s : Sock} {t : Tcb} {written : List Byte} {u n h : Nat}
lemma retransmit_head_spec (st : Stands t.toSendSpace written u n h) :
    Head t.toSendSpace written u (retransmit_head t).1 (retransmit_head t).2.1 (retransmit_head t).2.2 := by
  have order := st.order
  have last := st.last
  have size := st.size.1
  have length := st.length_bytes
  have mss := send_mss_le t
  by_cases empty : t.send_buf.bytes = []
  · have none : (retransmit_head t).2.1 = [] := by
      unfold retransmit_head
      rw [empty]
      simp
    have place : (retransmit_head t).2.2 → u = written.length + 1 ∧ t.fin_sent := by
      intro fin
      unfold retransmit_head at fin
      rw [Bool.and_eq_true,Bool.and_eq_true,beq_iff_eq,empty] at fin
      obtain ⟨⟨closed,_⟩,here⟩ := fin
      rw [length_nil,Nat.zero_sub,Nat.zero_min,st.una,number_add,st.fin closed] at here
      rw [closed,if_pos rfl] at last
      rw [number_inj (by omega) (by omega)] at here
      exact ⟨here,closed⟩
    refine ⟨st.una,by rw [none]; simp,?_,?_⟩
    · rintro (some_byte | fin)
      · exact absurd none some_byte
      · obtain ⟨here,_⟩ := place fin
        rw [none]
        exact ⟨by omega,by simp only [length_nil]; omega,rfl⟩
    · intro fin
      rw [none]
      exact place fin
  · have some_byte : written ≠ [] := by
      rintro rfl
      rw [st.bytes] at empty
      simp at empty
    have live := st.shaken some_byte
    have head : t.send_buf.unacked_head_seq = number t.iss u := by rw [st.head (.inr empty),max_eq_left live]
    have off : (t.snd_una - t.send_buf.unacked_head_seq).toNat = 0 := by
      rw [st.una,head]
      simp
    have payload : (retransmit_head t).2.1 = t.send_buf.bytes.take (min t.send_buf.bytes.length (send_mss t)) := by
      unfold retransmit_head
      dsimp only
      rw [off,drop_zero,Nat.sub_zero]
    have count : (retransmit_head t).2.1.length = min t.send_buf.bytes.length (send_mss t) := by
      rw [payload,length_take]
      omega
    have positive : t.send_buf.bytes.length ≠ 0 := fun zero => empty (length_eq_zero_iff.mp zero)
    refine ⟨st.una,by omega,?_,?_⟩
    · intro _
      refine ⟨live,by omega,?_⟩
      rw [count,payload,st.bytes]
    · intro fin
      unfold retransmit_head at fin
      dsimp only at fin
      rw [off,Nat.sub_zero,Bool.and_eq_true,Bool.and_eq_true,beq_iff_eq] at fin
      obtain ⟨⟨closed,_⟩,here⟩ := fin
      rw [st.una,number_add,st.fin closed] at here
      rw [number_inj (by omega) (by omega)] at here
      exact ⟨by omega,closed⟩
variable {payload : List Byte} {fin : Bool} {seq : SeqNum} {t' : Tcb}
lemma some_of (some_part : ¬ (payload = [] ∧ fin = false)) : payload ≠ [] ∨ fin := by
  by_cases empty : payload = []
  · exact .inr (by simpa [empty] using some_part)
  · exact .inl empty
lemma Sends.emit_head (sends : Sends s written u n h) (space : t.toSendSpace = s.tcb.toSendSpace)
    (head : Head s.tcb.toSendSpace written u seq payload fin)
    (some_part : ¬ (payload = [] ∧ fin = false)) (ack : SeqNum) (window : BitVec 16) :
    Sends (Sock.emit { s with tcb := t } ⟨seq,ack,{ Flags.none with ack := true, psh := true, fin := fin },window,payload⟩)
      written u n h := by
  have iss : t.iss = s.tcb.iss := congrArg SendSpace.iss space
  have closed : t.fin_sent = s.tcb.fin_sent := congrArg SendSpace.fin_sent space
  have seq_eq : seq = number t.iss u := by
    rw [iss]
    exact head.seq_eq
  have genuine := @Chunk.genuine written u payload (head.chunk (some_of some_part))
    ⟨seq,ack,{ Flags.none with ack := true, psh := true, fin := fin },window,payload⟩ t.iss seq_eq rfl
    (fun flag => (head.last flag).1)
  exact (sends.same space).emit genuine fun flag => closed.trans (head.last flag).2
lemma advertised_same {window : BitVec 16} (advertised : effective_advertised_window t = (window,t')) :
    t'.toSender = t.toSender ∧ t'.state = t.state := by
  cases advertised
  exact ⟨rfl,rfl⟩
lemma keeps_of_sender (sender : t'.toSender = t.toSender) (state : t'.state = t.state) : Keeps t t' :=
  ⟨state,congrArg (·.iss) sender,congrArg (·.fin_sent) sender⟩
lemma note_sent_keeps (t : Tcb) : Keeps t (note_sent t) := by
  obtain ⟨high,noted⟩ := note_sent_same t
  rw [noted]
  exact ⟨rfl,rfl,rfl⟩
lemma fast_retransmit_sends (sends : Sends s written u n h) :
    Sends (fast_retransmit env s) written u n h ∧ Keeps s.tcb (fast_retransmit env s).tcb := by
  have head := retransmit_head_spec sends.stands
  unfold fast_retransmit
  split
  · exact ⟨sends,Keeps.refl s.tcb⟩
  rcases again : retransmit_head s.tcb with ⟨seq,payload,fin⟩
  rw [again] at head
  simp only at head
  rcases advertised : effective_advertised_window s.tcb with ⟨window,t⟩
  obtain ⟨sender,state⟩ := advertised_same advertised
  have space := congrArg Sender.toSendSpace sender
  have keeps := keeps_of_sender sender state
  dsimp only
  split
  · exact ⟨sends.same space,keeps⟩
  · next some_part =>
    split
    · exact ⟨sends.same space,keeps⟩
    · have emitted := sends.emit_head space head some_part t.rcv.rcv_nxt window
      obtain ⟨deadline,armed⟩ := arm_same env { t with
        total_retrans := add32 t.total_retrans 1, retx_queue := t.retx_queue.map (fun r =>
          if seq_lt r.seq (seq + BitVec.ofNat 32 payload.length) && seq_gt r.end_seq seq then { r with retransmitted := true }
          else r) }
      have marked := emitted.stands.marked (f := fun r =>
        if seq_lt r.seq (seq + BitVec.ofNat 32 payload.length) && seq_gt r.end_seq seq then { r with retransmitted := true }
        else r) (by intro r; split <;> exact ⟨rfl,rfl,rfl⟩)
      simp only [Sock.update,Sock.emit]
      rw [armed]
      exact ⟨emitted.moved marked rfl rfl,⟨keeps.state,keeps.iss,keeps.fin_sent⟩⟩

/-! ## The timeout -/
lemma rewind_cases (env : Env) (t : Tcb) : ∃ rtt, rewind env t = ({ t with rtt := rtt },false) ∨ rewind env t = ({ t with
      rtt := rtt, rto_count := add32 t.rto_count 1, cong := env.cc.on_rto t.cong t.flightsize env.now env.cycles_per_ms
      retx_queue := t.retx_queue.map (fun r => { r with retransmitted := true })
      send_buf := t.send_buf.rewind_for_retransmit, snd_nxt := t.snd_una },true) := by
  unfold rewind
  dsimp only
  generalize t.rtt.back_off_with_limit (if t.state = .SynSent ∨ t.state = .SynReceived then t.syn_retries else MAX_RETRANSMITS)
    (t.thin_linear_timeouts && decide (t.flightsize ≤ min (t.cong.mss * 4) 4294967295)) = next
  obtain ⟨ok,rtt⟩ := next
  refine ⟨rtt,?_⟩
  cases ok with
  | false => exact .inl rfl
  | true => exact .inr rfl
lemma rewind_keeps (env : Env) (t : Tcb) : Keeps t (rewind env t).1 := by
  obtain ⟨rtt,failed | back⟩ := rewind_cases env t
  · rw [failed]
    exact ⟨rfl,rfl,rfl⟩
  · rw [back]
    exact ⟨rfl,rfl,rfl⟩
lemma rewind_failed (failed : (rewind env t).2 = false) : (rewind env t).1.toSendSpace = t.toSendSpace := by
  obtain ⟨rtt,same | back⟩ := rewind_cases env t
  · rw [same]
  · rw [back] at failed
    cases failed
lemma rewind_stands (st : Stands t.toSendSpace written u n h) (ok : (rewind env t).2) :
    Stands (rewind env t).1.toSendSpace written u u h := by
  have order := st.order
  have last := st.last
  have back := st.move (m := u) (le_refl u) (by omega) (by omega) rfl
  rw [max_eq_right (by omega : u ≤ h)] at back
  have marked := back.marked (f := fun r => { r with retransmitted := true }) fun r => ⟨rfl,rfl,rfl⟩
  have offset : min (u - 1) written.length - (u - 1) = 0 := by omega
  rw [offset,← st.una,← st.high] at marked
  obtain ⟨rtt,same | back⟩ := rewind_cases env t
  · rw [same] at ok
    cases ok
  · rw [back]
    exact marked
lemma resent_stands {x : SendSpace} (st : Stands x written u u h) (space : t.toSendSpace = x)
    (head : Head x written u seq payload fin) (chunk : Chunk written u payload) (count : Nat) : Stands (note_sent { t with
      send_buf := t.send_buf.mark_sent payload.length, snd_nxt := seq + BitVec.ofNat 32 payload.length + if fin then 1 else 0
      total_retrans := count }).toSendSpace written u (u + payload.length + if fin then 1 else 0)
      (max (u + payload.length + if fin then 1 else 0) h) := by
  have low := chunk.low
  have top := chunk.top
  have small := head.small
  have length := st.length_bytes
  have sent := st.sent
  have room : u + payload.length + (if fin then 1 else 0) ≤ written.length + if x.fin_sent then 2 else 1 := by
    by_cases flag : fin
    · rw [if_pos flag,(head.last flag).2,if_pos rfl]
      omega
    · rw [if_neg flag]
      split <;> omega
  refine note_sent_stands st (by omega) (by split <;> omega) room ?_
  have offset : min (t.send_buf.sent_offset + payload.length) t.send_buf.bytes.length =
      min (u + payload.length + (if fin then 1 else 0) - 1) written.length - (u - 1) := by
    rw [space]
    by_cases flag : fin
    · have here := (head.last flag).1
      rw [if_pos flag]
      omega
    · rw [if_neg flag]
      omega
  have next : seq + BitVec.ofNat 32 payload.length + (if fin then 1 else 0) =
      number x.iss (u + payload.length + if fin then 1 else 0) := by
    rw [head.seq_eq,number_add]
    by_cases flag : fin
    · rw [if_pos flag,if_pos flag]
      exact number_add _ _ 1
    · rw [if_neg flag,if_neg flag]
      exact BitVec.add_zero _
  rw [next,SendBuf.mark_sent,offset]
  subst space
  rfl
lemma resend_head_sends (sends : Sends s written u u h) :
    ∃ n' h', Sends (resend_head env s) written u n' h' ∧ Keeps s.tcb (resend_head env s).tcb := by
  have head := retransmit_head_spec sends.stands
  unfold resend_head
  rcases again : retransmit_head s.tcb with ⟨seq,payload,fin⟩
  rw [again] at head
  simp only at head
  rcases advertised : effective_advertised_window s.tcb with ⟨window,t⟩
  obtain ⟨sender,state⟩ := advertised_same advertised
  have space := congrArg Sender.toSendSpace sender
  have keeps := keeps_of_sender sender state
  dsimp only
  split
  · exact ⟨u,h,sends.same space,keeps⟩
  · next some_part =>
    split
    · exact ⟨u,h,sends.same space,keeps⟩
    · have emitted := sends.emit_head space head some_part t.rcv.rcv_nxt window
      have stands := resent_stands sends.stands space head (head.chunk (some_of some_part)) (add32 t.total_retrans 1)
      have kept := note_sent_keeps { t with
        send_buf := t.send_buf.mark_sent payload.length
        snd_nxt := seq + BitVec.ofNat 32 payload.length + if fin then 1 else 0, total_retrans := add32 t.total_retrans 1 }
      simp only [Sock.update,Sock.emit]
      generalize note_sent { t with
        send_buf := t.send_buf.mark_sent payload.length
        snd_nxt := seq + BitVec.ofNat 32 payload.length + if fin then 1 else 0
        total_retrans := add32 t.total_retrans 1 } = t' at stands kept ⊢
      obtain ⟨deadline,armed⟩ := arm_same env t'
      rw [armed]
      exact ⟨_,_,emitted.moved stands kept.iss kept.fin_sent,keeps.trans ⟨kept.state,kept.iss,kept.fin_sent⟩⟩
lemma send_syn_sends (sends : Sends s written u n h) (handshake : u ≤ 1) (fresh : n ≤ 1) {dev : Nat}
    (found : env.egress = some dev) (ack_too : Bool) :
    Sends (send_syn env s ack_too) written u 1 (max 1 h) ∧ Keeps s.tcb (send_syn env s ack_too).tcb := by
  have order := sends.stands.order
  have sent := sends.stands.sent
  have next : s.tcb.iss + 1 = number s.tcb.iss 1 := rfl
  have noted := @note_sent_stands s.tcb.toSendSpace written u n h 1 { s.tcb with snd_nxt := s.tcb.iss + 1 } sends.stands handshake
    (by omega) (by split <;> omega) (by
      have offset : min (1 - 1) written.length - (u - 1) = s.tcb.send_buf.sent_offset := by omega
      rw [offset,next])
  have kept := note_sent_keeps { s.tcb with snd_nxt := s.tcb.iss + 1 }
  have una : (note_sent { s.tcb with snd_nxt := s.tcb.iss + 1 }).snd_una = s.tcb.snd_una := by
    obtain ⟨high,same⟩ := note_sent_same { s.tcb with snd_nxt := s.tcb.iss + 1 }
    rw [same]
  unfold send_syn
  rw [found]
  simp only [Sock.emit,Sock.update]
  generalize note_sent { s.tcb with snd_nxt := s.tcb.iss + 1 } = t at noted kept una ⊢
  have iss : t.iss = s.tcb.iss := kept.iss
  have moved := sends.moved noted kept.iss kept.fin_sent
  have plain := @Sends.emit_plain _ written u 1 (max 1 h) moved
    ⟨s.tcb.iss,if ack_too = true then s.tcb.rcv.rcv_nxt else 0,{ Flags.none with syn := true, ack := ack_too },65535,[]⟩ rfl rfl
  have ends : (s.tcb.iss + 1 - t.snd_una).toNat = 1 - u := by
    rw [una,sends.stands.una,next,toNat_number_sub handshake (by omega)]
  refine ⟨record_sends plain ⟨?_,?_,fun _ => ⟨handshake,?_⟩,fun _ _ => rfl⟩,?_⟩
  · show (s.tcb.iss + 1 - t.snd_una).toNat ≤ max 1 h - u
    omega
  · show 1 ≤ (s.tcb.iss + 1 - t.snd_una).toNat + 1
    omega
  · show s.tcb.iss + 1 = number t.iss 1
    rw [iss,next]
  · exact Keeps.trans ⟨kept.state,kept.iss,kept.fin_sent⟩ (record_pumps env ⟨t,[]⟩ _ _ _).keeps
/-- The connection has ended, or goes on as before. -/
def Ticks (t t' : Tcb) : Prop := (t'.state = .Closed ∧ t'.iss = t.iss) ∨ Keeps t t'
lemma Ticks.iss (ticks : Ticks t t') : t'.iss = t.iss := by
  rcases ticks with ⟨_,same⟩ | keeps
  · exact same
  · exact keeps.iss
lemma Ticks.trans {t'' : Tcb} (first : Ticks t t') (second : Ticks t' t'') : Ticks t t'' := by
  rcases second with ⟨closed,same⟩ | keeps
  · exact .inl ⟨closed,same.trans first.iss⟩
  · rcases first with ⟨closed,same⟩ | keeps'
    · exact .inl ⟨keeps.state.trans closed,keeps.iss.trans same⟩
    · exact .inr (keeps'.trans keeps)
/-- Where the first record is a SYN's and the SYN is acknowledged, sending it again needs an interface. -/
def syn_sendable (env : Env) (t : Tcb) : Prop :=
  ∀ seg ∈ t.retx_queue.head?, seg.flags.syn = true → (rewind env t).2 = true → t.snd_una ≠ t.iss → env.egress ≠ none
instance (env : Env) (t : Tcb) : Decidable (syn_sendable env t) := by
  unfold syn_sendable
  infer_instance
lemma fire_retransmit_sends (sends : Sends s written u n h) (sendable : syn_sendable env s.tcb) :
    ∃ n' h', Sends (fire_retransmit env s) written u n' h' ∧ Ticks s.tcb (fire_retransmit env s).tcb := by
  unfold fire_retransmit
  split
  · exact ⟨n,h,sends,.inr (Keeps.refl s.tcb)⟩
  next seg rest queue =>
  have keeps := rewind_keeps env s.tcb
  have failed := @rewind_failed env s.tcb
  have stands := @rewind_stands env s.tcb written u n h sends.stands
  rcases rewound : rewind env s.tcb with ⟨t,ok⟩
  rw [rewound] at keeps failed stands
  dsimp only
  cases ok with
  | false =>
    rw [if_pos rfl]
    have same := sends.same (failed rfl)
    refine ⟨n,h,?_,.inl ⟨rfl,keeps.iss⟩⟩
    exact same.same rfl
  | true =>
    rw [if_neg (by decide)]
    have back := sends.moved (stands rfl) keeps.iss keeps.fin_sent
    by_cases syn : seg.flags.syn
    · rw [if_pos syn]
      have mem : seg ∈ s.tcb.retx_queue := by
        rw [queue]
        exact mem_cons_self
      have handshake := (sends.stands.syns seg mem syn).1
      have fewer := back.stands.fewer (tail_sublist t.retx_queue)
      cases found : env.egress with
      | none =>
        have una : s.tcb.snd_una = s.tcb.iss := by
          by_contra later
          exact sendable seg (by rw [queue]; rfl) syn (by rw [rewound]) later found
        have zero : u = 0 := (sends.stands.una_eq_iss (by omega)).mp una
        subst zero
        have nxt : t.snd_nxt = t.iss := back.stands.nxt.trans (number_zero t.iss)
        have quiet : ∀ s' ack_too, send_syn env s' ack_too = s' := by
          intro s' ack_too
          unfold send_syn
          rw [found]
        dsimp only at fewer
        rw [nxt] at fewer
        rw [quiet]
        exact ⟨0,h,back.moved fewer rfl rfl,.inr ⟨keeps.state,keeps.iss,keeps.fin_sent⟩⟩
      | some dev =>
        have same : ∀ ack_too, send_syn env { s with tcb := { t with
            retx_queue := t.retx_queue.tail, flightsize := t.flightsize - seg.len, snd_nxt := t.iss
            total_retrans := add32 t.total_retrans 1 } } ack_too =
          send_syn env { s with tcb := { t with
            retx_queue := t.retx_queue.tail, flightsize := t.flightsize - seg.len
            total_retrans := add32 t.total_retrans 1 } } ack_too := by
          intro ack_too
          unfold send_syn
          rw [found]
          rfl
        simp only [Sock.update]
        rw [same]
        obtain ⟨sends',keeps'⟩ := @send_syn_sends env { s with tcb := { t with
            retx_queue := t.retx_queue.tail, flightsize := t.flightsize - seg.len
            total_retrans := add32 t.total_retrans 1 } } written u u h (back.moved fewer rfl rfl) handshake handshake dev found
            (decide (t.state = .SynReceived))
        exact ⟨1,max 1 h,sends',.inr (keeps.trans ⟨keeps'.state,keeps'.iss,keeps'.fin_sent⟩)⟩
    · rw [if_neg syn]
      obtain ⟨n',h',sends',keeps'⟩ := @resend_head_sends env { s with tcb := t } written u h back
      exact ⟨n',h',sends',.inr (keeps.trans keeps')⟩

/-! ## The other timers -/
lemma send_probe_sends {f : Tcb → Tcb} (same : ∀ t, (f t).toSendSpace = t.toSendSpace ∧ (f t).state = t.state)
    (sends : Sends s written u n h) : Sends (send_probe env s f) written u n h ∧ Keeps s.tcb (send_probe env s f).tcb := by
  unfold send_probe
  split
  · exact ⟨sends,Keeps.refl s.tcb⟩
  · rcases advertised : effective_advertised_window s.tcb with ⟨window,t⟩
    obtain ⟨sender,state⟩ := advertised_same advertised
    obtain ⟨space,state'⟩ := same t
    have whole := space.trans (congrArg Sender.toSendSpace sender)
    refine ⟨(sends.same whole).emit_plain rfl rfl,?_⟩
    exact ⟨state'.trans state,congrArg SendSpace.iss whole,congrArg SendSpace.fin_sent whole⟩
section
variable (sends : Sends s written u n h)
include sends
lemma tick_delayed_ack_sends : Sends (tick_delayed_ack env s) written u n h ∧ Ticks s.tcb (tick_delayed_ack env s).tcb := by
  unfold tick_delayed_ack
  split
  · have acks := send_ack_acks env s
    exact ⟨sends.acks acks,.inr (keeps_of_sender acks.sender acks.state)⟩
  · exact ⟨sends,.inr (Keeps.refl s.tcb)⟩
lemma tick_persist_sends : Sends (tick_persist env s) written u n h ∧ Ticks s.tcb (tick_persist env s).tcb := by
  unfold tick_persist
  split
  · obtain ⟨sends',keeps⟩ := @send_probe_sends env s written u n h (fun t =>
      let backoff := min (t.persist_backoff_ns * 2) PERSIST_MAX_NS
      { t with persist_backoff_ns := backoff, persist_deadline_cycles := env.after backoff }) (fun t => ⟨rfl,rfl⟩) sends
    exact ⟨sends',.inr keeps⟩
  · exact ⟨sends,.inr (Keeps.refl s.tcb)⟩
lemma tick_keepalive_sends : Sends (tick_keepalive env s) written u n h ∧ Ticks s.tcb (tick_keepalive env s).tcb := by
  unfold tick_keepalive
  dsimp only
  split
  · exact ⟨sends,.inr (Keeps.refl s.tcb)⟩
  split
  · exact ⟨sends,.inr (Keeps.refl s.tcb)⟩
  split
  · exact ⟨sends.same rfl,.inl ⟨rfl,rfl⟩⟩
  · obtain ⟨sends',keeps⟩ := @send_probe_sends env s written u n h
      (fun t => { t with keepalive_probes_sent := min (t.keepalive_probes_sent + 1) 255 }) (fun t => ⟨rfl,rfl⟩) sends
    exact ⟨sends',.inr keeps⟩
lemma tick_time_wait_sends : Sends (tick_time_wait env s) written u n h ∧ Ticks s.tcb (tick_time_wait env s).tcb := by
  unfold tick_time_wait
  dsimp only
  split
  · exact ⟨sends.same rfl,.inl ⟨rfl,rfl⟩⟩
  · exact ⟨sends,.inr (Keeps.refl s.tcb)⟩
lemma tick_retransmit_sends (sendable : due env s.tcb → syn_sendable env s.tcb) :
    ∃ n' h', Sends (tick_retransmit env s) written u n' h' ∧ Ticks s.tcb (tick_retransmit env s).tcb := by
  have fired : ∃ n' h', Sends (if due env s.tcb then fire_retransmit env s else s) written u n' h' ∧
      Ticks s.tcb (if due env s.tcb then fire_retransmit env s else s).tcb := by
    split
    · next now => exact fire_retransmit_sends sends (sendable now)
    · exact ⟨n,h,sends,.inr (Keeps.refl s.tcb)⟩
  obtain ⟨n',h',sends',ticks⟩ := fired
  unfold tick_retransmit
  dsimp only
  generalize (if due env s.tcb then fire_retransmit env s else s) = s' at sends' ticks ⊢
  obtain ⟨acked,first⟩ := @tick_delayed_ack_sends env s' written u n' h' sends'
  obtain ⟨probed,second⟩ := @tick_persist_sends env _ written u n' h' acked
  obtain ⟨kept,third⟩ := @tick_keepalive_sends env _ written u n' h' probed
  obtain ⟨waited,fourth⟩ := @tick_time_wait_sends env _ written u n' h' kept
  exact ⟨n',h',waited,(((ticks.trans first).trans second).trans third).trans fourth⟩
end
end Resend
end Narf.Net.Tcp
