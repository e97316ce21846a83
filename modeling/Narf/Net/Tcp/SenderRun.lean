import Narf.Net.Tcp.Phases

namespace Narf.Net.Tcp
open List Option

/-! The sender over whole runs: every handler, every call and every timer keeps it where its state says. -/
section Handlers
variable {iss : SeqNum} {env : Env} {s : Sock} {written : List Byte} {u n h : Nat} {seg : Segment}
  {parsed : ParsedOptions} {s' : Sock}

/-- One segment has moved the sender, and what it has moved it to. -/
def Handled (iss : SeqNum) (s' : Sock) (written : List Byte) (seg : Segment) (u h : Nat) : Prop :=
  ∃ u' n' h', AckedBy iss seg u h u' ∧ InPhase iss s' written u' n' h'
lemma orphan_same (env : Env) (t : Tcb) :
    (arm_orphan_fin_wait2 env t).toSendSpace = t.toSendSpace ∧ (arm_orphan_fin_wait2 env t).state = t.state := by
  unfold arm_orphan_fin_wait2
  split <;> exact ⟨rfl,rfl⟩
section
variable (good : InPhase iss s written u n h)
include good

section
variable (near : seg.flags.ack → ¬ half_way s.tcb seg.ack)
include near
lemma InPhase.established (state : s.tcb.state = .Established)
    (handled : handle_in_established env s seg parsed = some s') : Handled iss s' written seg u h := by
  unfold handle_in_established at handled
  obtain ⟨u',n',acked,good₁,keeps⟩ := good.ack_handled (by rw [state]; rfl) near env parsed seg.payload.length
  rw [bind_eq_bind,bind_eq_some_iff] at handled
  obtain ⟨⟨s₂,advanced,fin⟩,received,rest⟩ := handled
  obtain ⟨good₂,_⟩ := good₁.receives (by rw [keeps.state,state]; decide) received
  cases rest
  obtain ⟨n'',h'',good₃⟩ := (good₂.acks (schedule_ack_acks env s₂ _)).pump env
  exact ⟨u',n'',h'',acked,good₃⟩
lemma InPhase.fin_wait1 (state : s.tcb.state = .FinWait1)
    (handled : handle_in_fin_wait1 env s seg parsed = some s') : Handled iss s' written seg u h := by
  unfold handle_in_fin_wait1 at handled
  obtain ⟨u',n',acked,good₁,keeps⟩ := good.ack_handled (by rw [state]; rfl) near env parsed seg.payload.length
  have closed := good.closed (.inl state)
  rw [bind_eq_bind,bind_eq_some_iff] at handled
  obtain ⟨⟨s₂,advanced,their_fin⟩,received,rest⟩ := handled
  have closed₁ := keeps.fin_sent.trans closed
  have state₁ := keeps.state.trans state
  have all : ((handle_ack env s seg parsed seg.payload.length).tcb.fin_sent &&
      our_fin_acked (handle_ack env s seg parsed seg.payload.length).tcb) → u' = written.length + 2 := by
    intro ours
    rw [Bool.and_eq_true] at ours
    exact (our_fin_acked_iff good₁.stands closed₁).mp ours.2
  obtain ⟨good₂,fin_sent,state₂⟩ := good₁.receives (by rw [state₁]; decide) received
  have closed₂ := fin_sent.trans closed₁
  generalize ((handle_ack env s seg parsed seg.payload.length).tcb.fin_sent &&
      our_fin_acked (handle_ack env s seg parsed seg.payload.length).tcb) = ours at all rest
  have good₃ : InPhase iss (s₂.update (fun t =>
      if ours && their_fin then enter_time_wait env t
      else if ours then arm_orphan_fin_wait2 env { t with state := .FinWait2 }
      else if their_fin then { t with state := .Closing }
      else t)) written u' n' h := by
    cases ours with
    | false =>
      cases their_fin with
      | false => exact good₂
      | true => exact ⟨good₂.toSends.same rfl,good₂.same_iss,closed₂⟩
    | true =>
      cases their_fin with
      | false =>
        obtain ⟨space,fin_wait⟩ := orphan_same env { s₂.tcb with state := .FinWait2 }
        refine ⟨good₂.toSends.same space,(congrArg SendSpace.iss space).trans good₂.same_iss,Phase.keeps (t := { s₂.tcb with state := .FinWait2 }) ⟨closed₂,all rfl⟩ ?_⟩
        exact ⟨fin_wait,congrArg SendSpace.iss space,congrArg SendSpace.fin_sent space⟩
      | true => exact good₂.time_wait closed₂ (all rfl) env
  cases rest
  obtain ⟨n'',h'',good₄⟩ := (good₃.acks (schedule_ack_acks env _ _)).pump env
  exact ⟨u',n'',h'',acked,good₄⟩
lemma InPhase.fin_wait2 (state : s.tcb.state = .FinWait2)
    (handled : handle_in_fin_wait2 env s seg parsed = some s') : Handled iss s' written seg u h := by
  unfold handle_in_fin_wait2 at handled
  obtain ⟨u',n',acked,good₁,keeps⟩ := good.ack_handled (by rw [state]; rfl) near env parsed seg.payload.length
  rw [bind_eq_bind,bind_eq_some_iff] at handled
  obtain ⟨⟨s₂,advanced,their_fin⟩,received,rest⟩ := handled
  have closed₁ := keeps.fin_sent.trans (good.closed (.inr (.inr (.inr state))))
  have state₁ := keeps.state.trans state
  have all : u' = written.length + 2 := by
    have phase := good₁.phase
    unfold Phase at phase
    rw [state₁] at phase
    exact phase.2
  obtain ⟨good₂,fin_sent,_⟩ := good₁.receives (by rw [state₁]; decide) received
  have good₃ : InPhase iss (s₂.update (fun t => if their_fin then enter_time_wait env t else t)) written u' n' h := by
    cases their_fin with
    | false => exact good₂
    | true => exact good₂.time_wait (fin_sent.trans closed₁) all env
  cases rest
  exact ⟨u',n',h,acked,good₃.acks (schedule_ack_acks env _ _)⟩
lemma InPhase.close_wait (state : s.tcb.state = .CloseWait) (parsed : ParsedOptions) :
    Handled iss (handle_in_close_wait env s seg parsed) written seg u h := by
  obtain ⟨u',n',acked,good₁,_⟩ := good.ack_handled (by rw [state]; rfl) near env parsed 0
  obtain ⟨n'',h'',good₂⟩ := (good₁.acks (reack_acks env _ seg)).pump env
  exact ⟨u',n'',h'',acked,good₂⟩
lemma InPhase.closing (state : s.tcb.state = .Closing) (parsed : ParsedOptions) :
    Handled iss (handle_in_closing env s seg parsed) written seg u h := by
  obtain ⟨u',n',acked,good₁,keeps⟩ := good.ack_handled (by rw [state]; rfl) near env parsed 0
  have acks := reack_acks env (handle_ack env s seg parsed 0) seg
  have good₂ := good₁.acks acks
  have closed : (reack_retransmitted_fin env (handle_ack env s seg parsed 0) seg).tcb.fin_sent :=
    ((keeps_of_sender acks.sender acks.state).fin_sent.trans keeps.fin_sent).trans (good.closed (.inr (.inl state)))
  refine ⟨u',n',h,acked,?_⟩
  unfold handle_in_closing
  by_cases ours : our_fin_acked (reack_retransmitted_fin env (handle_ack env s seg parsed 0) seg).tcb
  · have waiting := good₂.time_wait closed ((our_fin_acked_iff good₂.stands closed).mp ours) env
    simp only [Sock.update] at waiting ⊢
    rw [if_pos ours]
    exact waiting
  · simp only [Sock.update]
    rw [if_neg ours]
    exact good₂
lemma InPhase.last_ack (state : s.tcb.state = .LastAck) (parsed : ParsedOptions) :
    Handled iss (handle_in_last_ack env s seg parsed) written seg u h := by
  obtain ⟨u',n',acked,good₁,_⟩ := good.ack_handled (by rw [state]; rfl) near env parsed 0
  have good₂ := good₁.acks (reack_acks env (handle_ack env s seg parsed 0) seg)
  unfold handle_in_last_ack
  dsimp only
  split
  · exact ⟨u',n',h,acked,good₂.gone rfl rfl⟩
  · obtain ⟨n'',h'',good₃⟩ := good₂.pump env
    exact ⟨u',n'',h'',acked,good₃⟩
end
lemma InPhase.in_time_wait (env : Env) (seg : Segment) : InPhase iss (handle_in_time_wait env s seg) written u n h := by
  have later : InPhase iss (s.update (fun t => { t with time_wait_deadline_cycles := env.after TIME_WAIT_NS })) written u n h :=
    good.quiet rfl rfl
  exact later.acks (reack_acks env _ seg)
lemma InPhase.rst (env : Env) (seg : Segment) : InPhase iss (handle_rst env s seg) written u n h := by
  unfold handle_rst
  dsimp only
  split
  · exact good
  split
  · split
    · exact good.acks (send_ack_acks env s)
    · exact good
  split
  · exact good
  · exact good.gone rfl rfl
end

/-! ## Any segment -/
/-- What the segment must not be. In the handshake it acknowledges exactly the SYN, which has been sent; later
    its acknowledgement is not half the sequence space away. -/
def Expected (t : Tcb) (seg : Segment) : Prop :=
  match t.state with
  | .SynSent => seg.flags.syn = true → seg.flags.ack = true → seg.ack = t.iss + 1 ∧ t.snd_nxt = t.iss + 1
  | .SynReceived => seg.flags.ack = true → seq_geq seg.ack (t.iss + 1) = true → seg.ack = t.iss + 1 ∧ t.snd_nxt = t.iss + 1
  | .Established | .FinWait1 | .FinWait2 | .CloseWait | .Closing | .LastAck => seg.flags.ack = true → ¬ half_way t seg.ack
  | .Closed | .Listen | .TimeWait => True
lemma update_timestamp_same (env : Env) (t : Tcb) (seg : Segment) (parsed : ParsedOptions) :
    (update_timestamp env t seg parsed).toSender = t.toSender ∧ (update_timestamp env t seg parsed).state = t.state ∧
      (update_timestamp env t seg parsed).rcv = t.rcv := by
  unfold update_timestamp
  split
  · split <;> exact ⟨rfl,rfl,rfl⟩
  · exact ⟨rfl,rfl,rfl⟩
lemma Expected.same {t t' : Tcb} (expected : Expected t seg) (sender : t'.toSender = t.toSender) (state : t'.state = t.state) :
    Expected t' seg := by
  unfold Expected half_way at expected ⊢
  rw [sender,state]
  exact expected
lemma InPhase.segment (good : InPhase iss s written u n h)
    (expected : seg.flags.rst = false → paws_rejects env s.tcb parsed = false → Expected s.tcb seg)
    (handled : process_in_state env s seg parsed = some s') : Handled iss s' written seg u h := by
  unfold process_in_state at handled
  by_cases rst : seg.flags.rst
  · rw [if_pos rst] at handled
    cases handled
    exact ⟨u,n,h,.inl rfl,good.rst env seg⟩
  rw [if_neg rst] at handled
  rw [Bool.not_eq_true] at rst
  by_cases old : paws_rejects env s.tcb parsed
  · rw [if_pos old] at handled
    cases handled
    exact ⟨u,n,h,.inl rfl,good.acks (send_ack_acks env s)⟩
  rw [if_neg old] at handled
  rw [Bool.not_eq_true] at old
  obtain ⟨sender,state,_⟩ := update_timestamp_same env s.tcb seg parsed
  have expected' := (expected rst old).same sender state
  have good' : InPhase iss (s.update (update_timestamp env · seg parsed)) written u n h :=
    good.quiet (congrArg Sender.toSendSpace sender) state
  have expected'' : Expected (s.update (update_timestamp env · seg parsed)).tcb seg := expected'
  generalize s.update (update_timestamp env · seg parsed) = s₁ at good' expected'' handled
  unfold Expected at expected''
  dsimp only at handled
  cases state₁ : s₁.tcb.state <;> rw [state₁] at expected'' handled <;> simp only at expected'' handled
  case SynSent =>
    cases handled
    exact good'.syn_sent state₁ parsed expected''
  case SynReceived => exact good'.syn_received state₁ expected'' handled
  case Established => exact good'.established expected'' state₁ handled
  case FinWait1 => exact good'.fin_wait1 expected'' state₁ handled
  case FinWait2 => exact good'.fin_wait2 expected'' state₁ handled
  case CloseWait =>
    cases handled
    exact good'.close_wait expected'' state₁ parsed
  case Closing =>
    cases handled
    exact good'.closing expected'' state₁ parsed
  case LastAck =>
    cases handled
    exact good'.last_ack expected'' state₁ parsed
  case TimeWait =>
    cases handled
    exact ⟨u,n,h,.inl rfl,good'.in_time_wait env seg⟩
  case Closed | Listen =>
    cases handled
    exact ⟨u,n,h,.inl rfl,good'⟩
end Handlers

/-! ## The application's calls -/
section Calls
variable {iss : SeqNum} {env : Env} {s : Sock} {written : List Byte} {u n h : Nat} {x : SendSpace}
lemma Stands.fin_queued (st : Stands x written u n h) (unclosed : x.fin_sent = false) (sent : 1 ≤ n) :
    Stands { x with fin_sent := true, fin_seq := x.snd_nxt + BitVec.ofNat 32 x.send_buf.unsent_len } written u n h := by
  have order := st.order
  have last := st.last
  rw [unclosed,if_neg Bool.false_ne_true] at last
  exact { st with
    last := by
      show h ≤ written.length + 2
      omega
    head := fun _ => st.head (.inl unclosed)
    fin := fun _ => by
      show x.snd_nxt + BitVec.ofNat 32 x.send_buf.unsent_len = number x.iss (written.length + 1)
      rw [st.nxt,number_add,st.unsent]
      congr 1
      omega
    early := fun zero => ⟨(st.early zero).1,fun closed => absurd closed.symm Bool.false_ne_true⟩ }
lemma Genuine.append {iss : SeqNum} {seg : Segment} (genuine : Genuine iss written seg) (open_ : seg.flags.fin = false)
    (more : List Byte) : Genuine iss (written ++ more) seg := by
  refine ⟨fun some_byte => ?_,fun fin => ?_⟩
  · obtain ⟨k,seq,inside,payload⟩ := genuine.data some_byte
    refine ⟨k,seq,?_,?_⟩
    · rw [length_append]
      omega
    · rw [drop_append_of_le_length (by omega),take_append_of_le_length (by rw [length_drop]; omega)]
      exact payload
  · rw [open_] at fin
    cases fin
lemma Stands.append (st : Stands x written u n h) (unclosed : x.fin_sent = false) (live : 1 ≤ u) (more : List Byte)
    (room : more = [] ∨ x.send_buf.bytes.length + more.length ≤ x.send_buf.limit) :
    Stands { x with send_buf := { x.send_buf with bytes := x.send_buf.bytes ++ more } } (written ++ more) u n h := by
  have order := st.order
  have last := st.last
  have size := st.size
  have sent := st.sent
  have length := st.length_bytes
  rw [unclosed,if_neg Bool.false_ne_true] at last
  exact { st with
    last := by
      rw [length_append]
      show h ≤ written.length + more.length + if x.fin_sent then 2 else 1
      rw [unclosed,if_neg Bool.false_ne_true]
      omega
    bytes := by
      show x.send_buf.bytes ++ more = (written ++ more).drop (u - 1)
      rw [drop_append_of_le_length (by omega),st.bytes]
    head := fun _ => st.head (.inl unclosed)
    sent := by
      show x.send_buf.sent_offset = min (n - 1) (written ++ more).length - (u - 1)
      rw [length_append]
      omega
    fin := fun closed => absurd (unclosed.symm.trans closed) Bool.false_ne_true
    size := by
      refine ⟨?_,size.2⟩
      show (x.send_buf.bytes ++ more).length < 2 ^ 31 - 1
      rw [length_append]
      rcases room with rfl | room
      · simpa using size.1
      · omega
    early := fun zero => by omega }
lemma Phase.of_open {t : Tcb} {len : Nat} (state : t.state = .Established ∨ t.state = .CloseWait) :
    Phase t u len ↔ 1 ≤ u ∧ t.fin_sent = false := by
  unfold Phase
  rcases state with established | waiting
  · rw [established]
  · rw [waiting]
variable (good : InPhase iss s written u n h)
include good

section
variable (sent : s.tcb.state = .SynReceived → s.tcb.snd_nxt = s.tcb.iss + 1)
include sent
lemma InPhase.fin_queued : InPhase iss (s.update queue_fin) written u n h := by
  have phase := good.phase
  simp only [Sock.update]
  unfold queue_fin
  split
  · next ready =>
    obtain ⟨unclosed,state⟩ := ready
    have shaken : 1 ≤ n := by
      have order := good.stands.order
      unfold Phase at phase
      rcases state with established | received | waiting
      · rw [established] at phase
        omega
      · obtain ⟨zero,few,_,_⟩ := good.handshake (.inr received)
        subst zero
        have one := good.stands.syn_sent few (sent received)
        omega
      · rw [waiting] at phase
        omega
    have stands := good.stands.fin_queued unclosed shaken
    refine ⟨⟨stands,fun seg mem => ⟨(good.wire seg mem).1,fun _ => rfl⟩⟩,good.same_iss,?_⟩
    unfold Phase
    by_cases waiting : s.tcb.state = .CloseWait
    · simp [if_pos waiting]
    · simp [if_neg waiting]
  · exact good
lemma InPhase.shut_down (how : Shutdown) : InPhase iss (s.update (do_shutdown · how)) written u n h := by
  have queued := good.fin_queued sent
  cases how with
  | Read => exact good.quiet rfl rfl
  | Write => exact queued
  | Both => exact queued.quiet rfl rfl
lemma InPhase.close_call (env : Env) (zero_linger : Bool) : ∃ n' h', InPhase iss (close_linger env s zero_linger) written u n' h' := by
  unfold close_linger
  dsimp only
  split
  · split
    · have reset : InPhase iss (send_rst env s s.tcb.snd_nxt s.tcb.rcv.rcv_nxt) written u n h := by
        unfold send_rst
        split
        · exact good
        · exact ⟨good.toSends.emit_plain rfl rfl,good.same_iss,good.phase⟩
      exact ⟨n,h,reset.gone rfl rfl⟩
    · exact ⟨n,h,good.gone rfl rfl⟩
  · have orphaned : InPhase iss (s.update (fun t => { t with orphan := true })) written u n h :=
      good.quiet rfl rfl
    have queued := orphaned.shut_down sent .Both
    obtain ⟨space,state⟩ := orphan_same env (do_shutdown { s.tcb with orphan := true } .Both)
    have armed : InPhase iss (s.update (fun t => arm_orphan_fin_wait2 env (do_shutdown { t with orphan := true } .Both))) written u n h :=
      queued.quiet space state
    exact armed.pump env
end
lemma InPhase.shutdown_call {how : Shutdown} (sent : how ≠ .Read → s.tcb.state = .SynReceived → s.tcb.snd_nxt = s.tcb.iss + 1) (env : Env) :
    ∃ n' h', InPhase iss (shutdown_errno env s how) written u n' h' := by
  unfold shutdown_errno
  split
  · exact ⟨n,h,good⟩
  obtain ⟨s₁,shut,marked,same⟩ : ∃ s₁, s.update (fun t => if how = .Write then t else { t with rcv_shutdown := true }) = s₁ ∧
      InPhase iss s₁ written u n h ∧ s₁.tcb.toSender = s.tcb.toSender ∧ s₁.tcb.state = s.tcb.state := by
    refine ⟨_,rfl,?_⟩
    simp only [Sock.update]
    split
    · exact ⟨good,rfl,rfl⟩
    · exact ⟨good.quiet rfl rfl,rfl,rfl⟩
  rw [shut]
  have queued : InPhase iss (s₁.update (fun t => if how = .Read then t else do_shutdown t .Write)) written u n h := by
    by_cases read : how = .Read
    · simp only [read,if_true]
      exact marked
    · simp only [read,if_false]
      refine marked.shut_down ?_ .Write
      rw [same.1,same.2]
      exact sent read
  dsimp only
  generalize s₁.update (fun t => if how = .Read then t else do_shutdown t .Write) = s₂ at queued ⊢
  split
  · exact queued.pump env
  · exact ⟨n,h,queued⟩
lemma InPhase.write_call (env : Env) (buf : List Byte) :
    ∃ n' h', InPhase iss (send_errno env s buf).1 (written ++ buf.take (send_errno env s buf).2) u n' h' := by
  have same : InPhase iss s (written ++ buf.take 0) u n h := by
    rw [take_zero,append_nil]
    exact good
  have failed : InPhase iss (s.update (fun t => { t with sk_err := 0 })) (written ++ buf.take 0) u n h :=
    same.quiet rfl rfl
  unfold send_errno
  dsimp only
  split
  · exact ⟨n,h,failed⟩
  next state =>
  split
  · exact ⟨n,h,failed⟩
  next fine =>
  split
  · exact ⟨n,h,same⟩
  split
  · exact ⟨n,h,same⟩
  have open_ : s.tcb.state = .Established ∨ s.tcb.state = .CloseWait := by
    by_cases established : s.tcb.state = .Established
    · exact .inl established
    · refine .inr ?_
      by_contra other
      exact state ⟨established,other⟩
  obtain ⟨live,unclosed⟩ := (Phase.of_open open_).mp good.phase
  generalize min buf.length (s.tcb.notsent_lowat - min s.tcb.send_buf.unsent_len 4294967295) = cut
  rcases taken : s.tcb.send_buf.write (buf.take cut) with ⟨send_buf,k⟩
  have count : k = min (buf.take cut).length (s.tcb.send_buf.limit - s.tcb.send_buf.bytes.length) := by
    cases taken
    rfl
  have bytes : send_buf = { s.tcb.send_buf with bytes := s.tcb.send_buf.bytes ++ buf.take k } := by
    have within : k ≤ cut := by
      rw [length_take] at count
      omega
    cases taken
    simp only [SendBuf.mk.injEq,and_true,append_cancel_left_eq,take_take]
    congr 1
    omega
  have stands := good.stands.append unclosed live (buf.take k) (by
    by_cases none : k = 0
    · exact .inl (by rw [none,take_zero])
    · refine .inr ?_
      rw [length_take] at count ⊢
      omega)
  rw [← bytes] at stands
  have grown : InPhase iss (s.update (fun t => { t with send_buf := send_buf })) (written ++ buf.take k) u n h := by
    refine ⟨⟨stands,fun seg mem => ?_⟩,good.same_iss,?_⟩
    · obtain ⟨genuine,fin⟩ := good.wire seg mem
      have plain : seg.flags.fin = false := by
        by_contra flag
        rw [Bool.not_eq_false] at flag
        exact absurd (unclosed.symm.trans (fin flag)) Bool.false_ne_true
      exact ⟨genuine.append plain (buf.take k),fin⟩
    · exact (Phase.of_open open_).mpr ⟨live,unclosed⟩
  dsimp only
  split
  · next none =>
    rw [none] at grown
    exact ⟨n,h,grown⟩
  · exact grown.pump env
lemma InPhase.read_call (env : Env) (count : Nat) : InPhase iss (recv_errno env s count) written u n h := by
  have quiet : ∀ t : Tcb, t.toSender = s.tcb.toSender → t.state = s.tcb.state → InPhase iss { s with tcb := t } written u n h :=
    fun t sender state => good.quiet (congrArg Sender.toSendSpace sender) state
  unfold recv_errno
  split
  · exact good
  split
  · split
    · exact good
    · exact quiet _ rfl rfl
  · dsimp only
    split
    · exact (quiet { s.tcb with rcv := { s.tcb.rcv with recv_buf := (s.tcb.rcv.recv_buf.read count).2 } } rfl rfl).acks
        (send_ack_acks env _)
    · exact quiet _ rfl rfl
lemma InPhase.option_call (opt : SockOpt) : InPhase iss (s.update (setsockopt · opt)) written u n h := by
  cases opt with
  | SO_SNDBUF half =>
    have limit : max (min half 1073741823 * 2) SOCK_MIN_SNDBUF < 2 ^ 31 - 1 := by
      have least : SOCK_MIN_SNDBUF = 4608 := rfl
      omega
    exact ⟨good.toSends.moved { good.stands with size := ⟨good.stands.size.1,limit⟩ } rfl rfl,good.same_iss,
      good.phase.keeps ⟨rfl,rfl,rfl⟩⟩
  | _ => exact good.quiet rfl rfl
end Calls

/-! ## Runs -/
/-- What a step must not be, from the state before it. -/
def Meets (env : Env) (t : Tcb) : Event → Prop
  | .segment seg parsed => seg.flags.rst = false → paws_rejects env t parsed = false → Expected t seg
  | .tick => t.state ≠ .Closed → due env t → syn_sendable env t
  | .shutdown how => how ≠ .Read → t.state = .SynReceived → t.snd_nxt = t.iss + 1
  | .close _ => t.state = .SynReceived → t.snd_nxt = t.iss + 1
  | .write _ | .read _ | .setsockopt _ => True
def Session.run (s : Session) : List (Env × Event) → Option Session
  | [] => some s
  | (env,e) :: rest => (s.step env e).bind (fun s => s.run rest)
def Session.Meets (s : Session) : List (Env × Event) → Prop
  | [] => True
  | (env,e) :: rest => Tcp.Meets env s.sock.tcb e ∧ ∀ s' ∈ s.step env e, s'.Meets rest
instance (t : Tcb) (seg : Segment) : Decidable (Expected t seg) := by
  unfold Expected
  split <;> infer_instance
instance (env : Env) (t : Tcb) (e : Event) : Decidable (Meets env t e) := by
  cases e <;> unfold Meets <;> infer_instance
instance Session.decidable_meets (s : Session) : (events : List (Env × Event)) → Decidable (s.Meets events)
  | [] => inferInstanceAs (Decidable True)
  | (env,e) :: rest =>
    have : ∀ s' : Session, Decidable (s'.Meets rest) := fun s' => s'.decidable_meets rest
    inferInstanceAs (Decidable (Tcp.Meets env s.sock.tcb e ∧ ∀ s' ∈ s.step env e, s'.Meets rest))
/-- The event is a segment that acknowledges everything before `ack`. -/
def Event.Acknowledges (e : Event) (ack : SeqNum) : Prop :=
  ∃ seg parsed, e = .segment seg parsed ∧ seg.flags.ack = true ∧ seg.ack = ack
lemma new_active_stands (iss : SeqNum) : Stands (Tcb.new_active iss).toSendSpace [] 0 0 0 where
  una := (number_zero iss).symm
  nxt := (number_zero iss).symm
  high := (number_zero iss).symm
  order := ⟨le_refl 0,le_refl 0⟩
  span := by omega
  wnd := by
    show 0 < 2 ^ 30
    omega
  last := by omega
  bytes := rfl
  head := fun _ => rfl
  sent := rfl
  fin := fun closed => absurd closed Bool.false_ne_true
  size := by
    show 0 < 2 ^ 31 - 1 ∧ 262144 < 2 ^ 31 - 1
    omega
  early := fun _ => ⟨rfl,fun _ r mem => absurd mem not_mem_nil⟩
  reach := nofun
  syns := nofun
  pair := Pairwise.nil
lemma first_syn_in_phase (env : Env) {t : Tcb} (st : Stands t.toSendSpace [] 0 0 0) (unclosed : t.fin_sent = false)
    (state : t.state = .SynSent ∨ t.state = .SynReceived) (ack_too : Bool) :
    ∃ n h, InPhase t.iss (send_syn env ⟨t,[]⟩ ack_too) [] 0 n h := by
  have phase : Phase t 0 0 := by
    unfold Phase
    rcases state with sent | received
    · rw [sent]
      exact ⟨rfl,unclosed⟩
    · rw [received]
      exact ⟨rfl,unclosed⟩
  have start : Sends ⟨t,[]⟩ [] 0 0 0 := ⟨st,nofun⟩
  cases found : env.egress with
  | none =>
    have quiet : send_syn env ⟨t,[]⟩ ack_too = ⟨t,[]⟩ := by
      unfold send_syn
      rw [found]
    rw [quiet]
    exact ⟨0,0,start,rfl,phase⟩
  | some dev =>
    obtain ⟨sends,keeps⟩ := send_syn_sends start (by omega) (by omega) found ack_too
    exact ⟨1,max 1 0,sends,keeps.iss,phase.keeps keeps⟩
lemma Opened.in_phase {s : Session} (opened : Opened s) : ∃ n h, InPhase s.sock.tcb.iss s.sock s.written 0 n h := by
  have first : ∃ iss n h, InPhase iss s.sock s.written 0 n h := by
    cases opened with
    | active env iss syn_retries =>
      refine ⟨_,first_syn_in_phase env ?_ ?_ ?_ false⟩
      · exact new_active_stands iss
      · rfl
      · exact .inl rfl
    | passive env iss seg parsed =>
      refine ⟨_,first_syn_in_phase env ?_ ?_ ?_ true⟩
      · exact take_syn_stands (new_active_stands iss) env seg parsed
      · rfl
      · exact .inr rfl
  obtain ⟨iss,n,h,good⟩ := first
  refine ⟨n,h,?_⟩
  rw [good.same_iss]
  exact good
variable {iss : SeqNum} {events : List (Env × Event)}
lemma Session.step_in_phase {env : Env} {s s' : Session} {e : Event} {u n h : Nat}
    (good : InPhase iss s.sock s.written u n h) (meets : Tcp.Meets env s.sock.tcb e) (stepped : s.step env e = some s') :
    ∃ u' n' h', InPhase iss s'.sock s'.written u' n' h' ∧ (u' = u ∨ e.Acknowledges (number iss u') ∧ u < u' ∧ u' ≤ h) := by
  unfold Session.step at stepped
  split at stepped
  · cases stepped
    exact ⟨u,n,h,good,.inl rfl⟩
  next open_ =>
  cases e with
  | segment seg parsed =>
    obtain ⟨sock,handled,same⟩ := map_eq_some_iff.mp stepped
    cases same
    obtain ⟨u',n',h',acked,good'⟩ := good.segment meets handled
    exact ⟨u',n',h',good',acked.imp id (fun more => ⟨⟨seg,parsed,rfl,more.1,more.2.1⟩,more.2.2⟩)⟩
  | tick =>
    cases stepped
    obtain ⟨n',h',sends,ticks⟩ := tick_retransmit_sends good.toSends (meets open_)
    exact ⟨u,n',h',⟨sends,ticks.iss.trans good.same_iss,good.phase.ticks ticks⟩,.inl rfl⟩
  | write buf =>
    cases stepped
    obtain ⟨n',h',good'⟩ := good.write_call env buf
    exact ⟨u,n',h',good',.inl rfl⟩
  | shutdown how =>
    cases stepped
    obtain ⟨n',h',good'⟩ := good.shutdown_call meets env
    exact ⟨u,n',h',good',.inl rfl⟩
  | close zero_linger =>
    cases stepped
    obtain ⟨n',h',good'⟩ := good.close_call meets env zero_linger
    exact ⟨u,n',h',good',.inl rfl⟩
  | read count =>
    cases stepped
    exact ⟨u,n,h,good.read_call env count,.inl rfl⟩
  | setsockopt opt =>
    cases stepped
    exact ⟨u,n,h,good.option_call opt,.inl rfl⟩
lemma Session.run_in_phase {s s' : Session} {u n h : Nat}
    (good : InPhase iss s.sock s.written u n h) (meets : s.Meets events) (ran : s.run events = some s') :
    ∃ u' n' h', InPhase iss s'.sock s'.written u' n' h' ∧ (u' = u ∨ ∃ p ∈ events, p.2.Acknowledges (number iss u')) := by
  induction events generalizing s u n h with
  | nil =>
    cases ran
    exact ⟨u,n,h,good,.inl rfl⟩
  | cons p rest ih =>
    obtain ⟨env,e⟩ := p
    obtain ⟨s₁,stepped,ran'⟩ := bind_eq_some_iff.mp ran
    obtain ⟨first,later⟩ := meets
    obtain ⟨u₁,n₁,h₁,good₁,acked₁⟩ := Session.step_in_phase good first stepped
    obtain ⟨u₂,n₂,h₂,good₂,acked₂⟩ := ih good₁ (later s₁ stepped) ran'
    refine ⟨u₂,n₂,h₂,good₂,?_⟩
    rcases acked₂ with same | ⟨p,mem,acked⟩
    · rcases acked₁ with same' | ⟨acked,_⟩
      · exact .inl (same.trans same')
      · rw [same]
        exact .inr ⟨(env,e),mem_cons_self,acked⟩
    · exact .inr ⟨p,mem_cons_of_mem _ mem,acked⟩
/-- A segment that arrives, or the clock. -/
def Event.Arrives : Event → Prop
  | .segment _ _ | .tick => True
  | _ => False
lemma Session.run_arrives {s s' : Session} (arrives : ∀ p ∈ events, p.2.Arrives)
    (ran : s.run events = some s') : s'.written = s.written := by
  induction events generalizing s with
  | nil =>
    cases ran
    rfl
  | cons p rest ih =>
    obtain ⟨env,e⟩ := p
    obtain ⟨s₁,stepped,ran'⟩ := bind_eq_some_iff.mp ran
    have same : s₁.written = s.written := by
      have here := arrives (env,e) mem_cons_self
      unfold Session.step at stepped
      split at stepped
      · cases stepped
        rfl
      · cases e with
        | segment seg parsed =>
          obtain ⟨sock,_,rfl⟩ := map_eq_some_iff.mp stepped
          rfl
        | tick =>
          cases stepped
          rfl
        | _ => exact absurd here id
    exact (ih (fun p mem => arrives p (mem_cons_of_mem _ mem)) ran').trans same
end Narf.Net.Tcp
