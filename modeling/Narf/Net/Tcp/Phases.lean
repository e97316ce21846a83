import Narf.Net.Tcp.Acked

namespace Narf.Net.Tcp
open List Option

/-! What each state of the connection says about the sender. -/
/-- How far the handshake and the FIN are, in each state. -/
def Phase (t : Tcb) (u len : Nat) : Prop :=
  match t.state with
  | .Listen => False
  | .SynSent | .SynReceived => u = 0 ∧ t.fin_sent = false
  | .Established | .CloseWait => 1 ≤ u ∧ t.fin_sent = false
  | .FinWait1 | .Closing | .LastAck => t.fin_sent = true
  | .FinWait2 | .TimeWait => t.fin_sent = true ∧ u = len + 2
  | .Closed => True
/-- The sender stands there, all it has sent is genuine, and the state agrees. -/
structure InPhase (iss : SeqNum) (s : Sock) (written : List Byte) (u n h : Nat) : Prop extends Sends s written u n h where
  same_iss : s.tcb.iss = iss
  phase : Phase s.tcb u written.length

section Phases
variable {iss : SeqNum} {env : Env} {s : Sock} {t t' : Tcb} {written : List Byte} {u n h len : Nat}
lemma Phase.keeps (phase : Phase t u len) (keeps : Keeps t t') : Phase t' u len := by
  unfold Phase at phase ⊢
  rw [keeps.state,keeps.fin_sent]
  exact phase
lemma Phase.ticks (phase : Phase t u len) (ticks : Ticks t t') : Phase t' u len := by
  rcases ticks with ⟨closed,_⟩ | keeps
  · unfold Phase
    rw [closed]
    exact True.intro
  · exact phase.keeps keeps
/-- In a synchronised state the acknowledgements may move on. -/
lemma Phase.later (phase : Phase t u len) (sync : t.state.is_synchronised) {u' : Nat} (later : u ≤ u')
    (top : u' ≤ len + 2) : Phase t u' len := by
  unfold Phase at phase ⊢
  cases state : t.state <;> rw [state] at phase sync <;> simp only at phase ⊢
  case SynSent | SynReceived => cases sync
  case Established | CloseWait => exact ⟨by omega,phase.2⟩
  case FinWait1 | Closing | LastAck => exact phase
  case FinWait2 | TimeWait => exact ⟨phase.1,by omega⟩
lemma Stands.una_le (st : Stands t.toSendSpace written u n h) : u ≤ written.length + 2 := by
  have order := st.order
  have last := st.last
  split at last <;> omega
variable (good : InPhase iss s written u n h)

section
include good
lemma InPhase.quiet {t : Tcb} (space : t.toSendSpace = s.tcb.toSendSpace)
    (state : t.state = s.tcb.state) : InPhase iss { s with tcb := t } written u n h :=
  ⟨good.toSends.same space,(congrArg SendSpace.iss space).trans good.same_iss,
    good.phase.keeps ⟨state,congrArg SendSpace.iss space,congrArg SendSpace.fin_sent space⟩⟩
lemma InPhase.gone {t : Tcb} (space : t.toSendSpace = s.tcb.toSendSpace)
    (state : t.state = .Closed) : InPhase iss { s with tcb := t } written u n h := by
  refine ⟨good.toSends.same space,(congrArg SendSpace.iss space).trans good.same_iss,?_⟩
  unfold Phase
  rw [state]
  exact True.intro
lemma InPhase.acks {s' : Sock} (acks : Acks s s') : InPhase iss s' written u n h :=
  ⟨good.toSends.acks acks,(congrArg (·.iss) acks.sender).trans good.same_iss,good.phase.keeps (keeps_of_sender acks.sender acks.state)⟩
lemma InPhase.pump (env : Env) : ∃ n' h', InPhase iss (pump_send env s) written u n' h' := by
  obtain ⟨n',h',_,_,sends,pumps⟩ := pump_send_sends env good.toSends
  exact ⟨n',h',sends,pumps.iss.trans good.same_iss,good.phase.keeps pumps.keeps⟩
lemma InPhase.ack_handled (sync : s.tcb.state.is_synchronised) {seg : Segment}
    (near : seg.flags.ack → ¬ half_way s.tcb seg.ack) (env : Env) (parsed : ParsedOptions) (payload_len : Nat) :
    ∃ u' n', AckedBy iss seg u h u' ∧ InPhase iss (handle_ack env s seg parsed payload_len) written u' n' h ∧
      Keeps s.tcb (handle_ack env s seg parsed payload_len).tcb := by
  obtain ⟨u',n',moved,sends,keeps⟩ := @handle_ack_sends env s written u n h good.toSends seg near parsed payload_len
  have top := sends.stands.una_le
  rw [good.same_iss] at moved
  refine ⟨u',n',moved,⟨sends,keeps.iss.trans good.same_iss,(good.phase.later sync ?_ top).keeps keeps⟩,keeps⟩
  rcases moved with same | more
  · omega
  · omega
end

/-! ## The peer's data and FIN -/
variable {payload : List Byte} {s' : Sock} {advanced fin : Bool} {seg : Segment} {x : SendSpace}
lemma enqueue_recv_same {seq : SeqNum} (taken : enqueue_recv s seq payload = some (s',advanced)) :
    s'.tcb.toSender = s.tcb.toSender ∧ s'.wire = s.wire ∧ s'.tcb.state = s.tcb.state := by
  unfold enqueue_recv at taken
  split at taken
  · cases taken
  · dsimp only at taken
    cases taken
    split <;> exact ⟨rfl,rfl,rfl⟩
lemma process_fin_same (s : Sock) (seg : Segment) (payload_len : Nat) :
    (process_fin s seg payload_len).1.tcb.toSender = s.tcb.toSender ∧ (process_fin s seg payload_len).1.wire = s.wire ∧
      ((process_fin s seg payload_len).1.tcb.state = s.tcb.state ∨
        (s.tcb.state = .Established ∨ s.tcb.state = .SynReceived) ∧ (process_fin s seg payload_len).1.tcb.state = .CloseWait) := by
  unfold process_fin
  by_cases known : s.tcb.fin_received
  · rw [if_pos known]
    exact ⟨rfl,rfl,.inl rfl⟩
  rw [if_neg known]
  by_cases missing : seg.seq + (if seg.flags.syn then 1 else 0) + BitVec.ofNat 32 payload_len ≠ s.tcb.rcv.rcv_nxt
  · rw [if_pos missing]
    exact ⟨rfl,rfl,.inl rfl⟩
  rw [if_neg missing]
  refine ⟨rfl,rfl,?_⟩
  split
  · next open_ => exact .inr ⟨open_,rfl⟩
  · exact .inl rfl
lemma receive_eq (s : Sock) (seg : Segment) (payload : List Byte) : receive s seg payload =
    (if payload = [] then some (s,false) else enqueue_recv s seg.seq payload).bind (fun taken =>
      let done := if seg.flags.fin then process_fin taken.1 seg payload.length else (taken.1,false)
      some (done.1,taken.2,done.2)) := by
  unfold receive
  by_cases empty : payload = []
  · rw [if_pos empty]
    simp only [if_pos empty]
    rfl
  · rw [if_neg empty]
    simp only [if_neg empty]
    rfl
lemma receive_same (received : receive s seg payload = some (s',advanced,fin)) :
    s'.tcb.toSender = s.tcb.toSender ∧ s'.wire = s.wire ∧ (s'.tcb.state = s.tcb.state ∨
        (s.tcb.state = .Established ∨ s.tcb.state = .SynReceived) ∧ s'.tcb.state = .CloseWait) := by
  rw [receive_eq,bind_eq_some_iff] at received
  obtain ⟨⟨s₁,advanced₁⟩,first,second⟩ := received
  have queued : s₁.tcb.toSender = s.tcb.toSender ∧ s₁.wire = s.wire ∧ s₁.tcb.state = s.tcb.state := by
    split at first
    · cases first
      exact ⟨rfl,rfl,rfl⟩
    · exact enqueue_recv_same first
  obtain ⟨sender,wire,state⟩ := queued
  obtain ⟨sender',wire',state'⟩ := process_fin_same s₁ seg payload.length
  split at second
  · cases second
    rw [sender,wire,state] at *
    exact ⟨sender',wire',state'⟩
  · cases second
    exact ⟨sender,wire,.inl state⟩

include good in
lemma InPhase.receives (past : s.tcb.state ≠ .SynReceived) (received : receive s seg payload = some (s',advanced,fin)) :
    InPhase iss s' written u n h ∧ s'.tcb.fin_sent = s.tcb.fin_sent ∧
      (s'.tcb.state = s.tcb.state ∨ s.tcb.state = .Established ∧ s'.tcb.state = .CloseWait) := by
  obtain ⟨sender,wire,state⟩ := receive_same received
  have same : Sends s' written u n h := by
    have moved := good.toSends.same (congrArg Sender.toSendSpace sender)
    rw [← wire] at moved
    exact moved
  have kept : s'.tcb.iss = s.tcb.iss := congrArg (·.iss) sender
  have fin_sent : s'.tcb.fin_sent = s.tcb.fin_sent := congrArg (·.fin_sent) sender
  have phase := good.phase
  rcases state with same_state | ⟨established | handshake,half_closed⟩
  · exact ⟨⟨same,kept.trans good.same_iss,phase.keeps ⟨same_state,kept,fin_sent⟩⟩,fin_sent,.inl same_state⟩
  · refine ⟨⟨same,kept.trans good.same_iss,?_⟩,fin_sent,.inr ⟨established,half_closed⟩⟩
    unfold Phase at phase ⊢
    rw [established] at phase
    rw [half_closed,fin_sent]
    exact phase
  · exact absurd handshake past

/-! ## Establishing -/
lemma Stands.established (st : Stands x written 0 1 h) (unclosed : x.fin_sent = false) {queue : List OutSeg}
    (sub : queue.Sublist x.retx_queue) : Stands { x with
      snd_una := number x.iss 1, send_buf := { x.send_buf with unacked_head_seq := number x.iss 1 }
      retx_queue := queue } written 1 1 h := by
  have order := st.order
  have span := st.span
  have syns : ∀ r ∈ queue, r.end_seq = number x.iss 1 := fun r mem =>
    (st.syns r (sub.subset mem) ((st.early rfl).2 unclosed r (sub.subset mem))).2
  have far : ∀ r ∈ queue, (r.end_seq - number x.iss 1).toNat = 0 := by
    intro r mem
    rw [syns r mem]
    simp
  exact { st with
    una := rfl, order := ⟨le_refl 1,order.2⟩, span := by omega
    head := fun _ => rfl
    early := fun zero => absurd zero (by decide)
    reach := fun r mem => by
      show (r.end_seq - number x.iss 1).toNat ≤ h - 1
      rw [far r mem]
      omega
    syns := fun r mem _ => ⟨le_refl 1,syns r mem⟩
    pair := by
      refine Pairwise.imp_of_mem ?_ (st.pair.sublist sub)
      intro r r' mem member' near
      show (r.end_seq - number x.iss 1).toNat + r'.len ≤ (r'.end_seq - number x.iss 1).toNat + 2 ^ 30 + 1
      have ahead' : ahead x r' ≤ 1 := by rw [ahead,syns r' member',st.una,toNat_number_sub (by omega) (by omega)]
      have ahead_ : ahead x r = 1 := by rw [ahead,syns r mem,st.una,toNat_number_sub (by omega) (by omega)]
      rw [far r mem,far r' member']
      omega }
lemma establish_stands (st : Stands t.toSendSpace written 0 1 h) (unclosed : t.fin_sent = false)
    (ack : seg.ack = t.iss + 1) (env : Env) : Stands (establish env t seg).toSendSpace written 1 1 h ∧
      (establish env t seg).state = .Established ∧ (establish env t seg).iss = t.iss ∧ (establish env t seg).fin_sent = t.fin_sent := by
  have one : seg.ack = number t.iss 1 := ack
  unfold establish
  rw [one]
  cases queue : t.retx_queue with
  | nil =>
    have established := st.established unclosed (nil_sublist t.retx_queue)
    exact ⟨established,rfl,rfl,rfl⟩
  | cons r rest =>
    have sub : rest.Sublist t.retx_queue := by
      rw [queue]
      exact sublist_cons_self r rest
    have established := st.established unclosed sub
    exact ⟨established,rfl,rfl,rfl⟩
lemma take_syn_stands (st : Stands t.toSendSpace written u n h) (env : Env) (seg : Segment) (parsed : ParsedOptions) :
    Stands (take_syn env t seg parsed).toSendSpace written u n h := by
  refine st.window ?_
  have window := Nat.le_pred_of_lt seg.window.isLt
  cases scale : parsed.wscale with
  | none =>
    simp only [map_none,getD_none,pow_zero,mul_one]
    exact lt_of_le_of_lt window (by decide)
  | some shift =>
    have bound := Nat.pow_le_pow_right (by omega : 0 < 2) (Nat.lt_succ_iff.mp shift.isLt)
    exact lt_of_le_of_lt (Nat.mul_le_mul window bound) (by decide)
lemma Stands.syn_sent (st : Stands x written 0 n h) (few : n ≤ 1) (nxt : x.snd_nxt = x.iss + 1) : n = 1 := by
  have here := st.nxt
  have one : x.iss + 1 = number x.iss 1 := rfl
  rw [nxt,one,number_inj (by omega) (by omega)] at here
  exact here.symm
section
include good
lemma InPhase.handshake (state : s.tcb.state = .SynSent ∨ s.tcb.state = .SynReceived) : u = 0 ∧ n ≤ 1 ∧ h ≤ 1 ∧ s.tcb.fin_sent = false := by
  have phase := good.phase
  have last := good.stands.last
  have order := good.stands.order
  have at_start : u = 0 ∧ s.tcb.fin_sent = false := by
    unfold Phase at phase
    rcases state with sent | received
    · rw [sent] at phase
      exact phase
    · rw [received] at phase
      exact phase
  obtain ⟨zero,unclosed⟩ := at_start
  rw [unclosed,if_neg Bool.false_ne_true,(good.stands.early zero).1,length_nil] at last
  exact ⟨zero,by omega,by omega,unclosed⟩
lemma InPhase.syn_sent (state : s.tcb.state = .SynSent) (parsed : ParsedOptions) (exact_ack : seg.flags.syn → seg.flags.ack →
      seg.ack = s.tcb.iss + 1 ∧ s.tcb.snd_nxt = s.tcb.iss + 1) :
    ∃ u' n' h', AckedBy iss seg u h u' ∧ InPhase iss (handle_in_syn_sent env s seg parsed) written u' n' h' := by
  obtain ⟨zero,few,few',unclosed⟩ := good.handshake (.inl state)
  subst zero
  unfold handle_in_syn_sent
  have taken := take_syn_stands good.stands env seg parsed
  by_cases answer : seg.flags.syn ∧ seg.flags.ack
  · rw [if_neg (not_not.mpr answer)]
    obtain ⟨ack,nxt⟩ := exact_ack answer.1 answer.2
    have one := good.stands.syn_sent few nxt
    subst one
    obtain ⟨stands,established,kept,fin_sent⟩ := establish_stands (t := take_syn env s.tcb seg parsed) taken unclosed ack env
    refine ⟨1,1,h,.inr ⟨answer.2,?_,by omega,good.stands.order.2⟩,InPhase.acks ⟨good.toSends.moved stands kept fin_sent,kept.trans good.same_iss,?_⟩ (send_ack_acks env _)⟩
    · rw [← good.same_iss]
      exact ack
    · unfold Phase
      dsimp only
      rw [established,fin_sent]
      exact ⟨le_refl 1,unclosed⟩
  · rw [if_pos answer]
    by_cases syn : seg.flags.syn
    · rw [if_pos syn]
      have both : Sends (s.update (fun t => { take_syn env t seg parsed with state := .SynReceived })) written 0 n h :=
        good.toSends.moved taken rfl rfl
      cases found : env.egress with
      | none =>
        have quiet : ∀ s', send_syn env s' true = s' := by
          intro s'
          unfold send_syn
          rw [found]
        rw [quiet]
        exact ⟨0,n,h,.inl rfl,both,good.same_iss,⟨rfl,unclosed⟩⟩
      | some dev =>
        obtain ⟨sends,keeps⟩ := send_syn_sends both (by omega) few found true
        refine ⟨0,1,max 1 h,.inl rfl,sends,keeps.iss.trans good.same_iss,?_⟩
        exact Phase.keeps (t := (s.update (fun t => { take_syn env t seg parsed with state := .SynReceived })).tcb) ⟨rfl,unclosed⟩ keeps
    · rw [if_neg syn]
      exact ⟨0,n,h,.inl rfl,good⟩
lemma InPhase.syn_received (state : s.tcb.state = .SynReceived) (exact_ack : seg.flags.ack → seq_geq seg.ack (s.tcb.iss + 1) →
      seg.ack = s.tcb.iss + 1 ∧ s.tcb.snd_nxt = s.tcb.iss + 1) (handled : handle_in_syn_received env s seg = some s') :
    ∃ u' n' h', AckedBy iss seg u h u' ∧ InPhase iss s' written u' n' h' := by
  obtain ⟨zero,few,few',unclosed⟩ := good.handshake (.inr state)
  subst zero
  unfold handle_in_syn_received at handled
  by_cases flag : seg.flags.ack = false
  · rw [if_pos flag] at handled
    cases handled
    exact ⟨0,n,h,.inl rfl,good⟩
  rw [if_neg flag] at handled
  rw [Bool.not_eq_false] at flag
  by_cases low : seq_geq seg.ack (s.tcb.iss + 1) = false
  · rw [if_pos low] at handled
    cases handled
    exact ⟨0,n,h,.inl rfl,good⟩
  rw [if_neg low] at handled
  rw [Bool.not_eq_false] at low
  obtain ⟨ack,nxt⟩ := exact_ack flag low
  have one := good.stands.syn_sent few nxt
  subst one
  obtain ⟨stands,established,kept,fin_sent⟩ := establish_stands good.stands unclosed ack env
  have open_ : InPhase iss (s.update (fun t => { establish env t seg with snd_wnd := offered t seg })) written 1 1 h := by
    refine ⟨good.toSends.moved (stands.window (offered_lt s.tcb seg)) kept fin_sent,kept.trans good.same_iss,?_⟩
    unfold Phase
    simp only [Sock.update]
    rw [established,fin_sent]
    exact ⟨le_refl 1,unclosed⟩
  have state' : (s.update (fun t => { establish env t seg with snd_wnd := offered t seg })).tcb.state = .Established := established
  generalize s.update (fun t => { establish env t seg with snd_wnd := offered t seg }) = s₁ at open_ state' handled
  rw [bind_eq_bind,bind_eq_some_iff] at handled
  obtain ⟨⟨s₂,advanced,fin⟩,received,rest⟩ := handled
  obtain ⟨good',_⟩ := open_.receives (by rw [state']; decide) received
  dsimp only at rest
  refine ⟨1,1,h,.inr ⟨flag,?_,by omega,good.stands.order.2⟩,?_⟩
  · rw [← good.same_iss]
    exact ack
  split at rest
  · cases rest
    exact good'.acks (schedule_ack_acks env s₂ _)
  · cases rest
    exact good'
end

/-! ## The FIN -/
lemma our_fin_acked_iff (st : Stands t.toSendSpace written u n h) (closed : t.fin_sent) : our_fin_acked t ↔ u = written.length + 2 := by
  have top := st.una_le
  have size := st.size.1
  have length := st.length_bytes
  have unwritten := st.unwritten
  have next : t.fin_seq + 1 = number t.iss (written.length + 2) := by
    rw [st.fin closed]
    exact number_add _ _ 1
  rw [our_fin_acked,next,st.una,seq_geq_number (by omega) (by omega)]
  omega
/-- All is acknowledged, so nothing that is dropped is still needed. -/
lemma enter_time_wait_stands (st : Stands t.toSendSpace written u n h) (closed : t.fin_sent) (all : u = written.length + 2)
    (env : Env) : Stands (enter_time_wait env t).toSendSpace written u n h :=
  { st with
    bytes := by
      rw [all]
      exact (drop_eq_nil_of_le (by omega)).symm
    head := by
      rintro (unclosed | some_byte)
      · exact absurd (closed.symm.trans unclosed) (by decide)
      · exact absurd rfl some_byte
    sent := by
      rw [all]
      show 0 = min (n - 1) written.length - (written.length + 2 - 1)
      omega
    size := ⟨by show 0 < 2 ^ 31 - 1; omega,st.size.2⟩
    early := fun zero => by omega
    reach := nofun
    syns := nofun
    pair := Pairwise.nil }

include good
lemma InPhase.time_wait (closed : s.tcb.fin_sent) (all : u = written.length + 2) (env : Env) :
    InPhase iss (s.update (enter_time_wait env)) written u n h :=
  ⟨good.toSends.moved (enter_time_wait_stands good.stands closed all env) rfl rfl,good.same_iss,⟨closed,all⟩⟩
lemma InPhase.closed (state : s.tcb.state = .FinWait1 ∨ s.tcb.state = .Closing ∨
    s.tcb.state = .LastAck ∨ s.tcb.state = .FinWait2) : s.tcb.fin_sent := by
  have phase := good.phase
  unfold Phase at phase
  rcases state with wait | closing | last | wait
  · rw [wait] at phase
    exact phase
  · rw [closing] at phase
    exact phase
  · rw [last] at phase
    exact phase
  · rw [wait] at phase
    exact phase.1
end Phases
end Narf.Net.Tcp
