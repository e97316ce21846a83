import Narf.Net.Tcp.SenderRun

namespace Narf.Net.Tcp

/-! What the peer can do to the sender: the order of its sequence numbers, and the stream it puts on the wire. -/

/-! ## Order -/
/-- `snd_una`, `snd_nxt` and `snd_high` follow each other, less than 2^31 from the initial sequence number. -/
def Ordered (t : Tcb) : Prop :=
  (t.snd_una - t.iss).toNat ≤ (t.snd_nxt - t.iss).toNat ∧ (t.snd_nxt - t.iss).toNat ≤ (t.snd_high - t.iss).toNat ∧
    (t.snd_high - t.iss).toNat < 2 ^ 31
instance (t : Tcb) : Decidable (Ordered t) := inferInstanceAs (Decidable (_ ∧ _))
def Sent (t : Tcb) (ack : SeqNum) : Prop := 0 < (ack - t.iss).toNat ∧ (ack - t.iss).toNat ≤ (t.snd_high - t.iss).toNat
instance (t : Tcb) (ack : SeqNum) : Decidable (Sent t ack) := inferInstanceAs (Decidable (_ ∧ _))

section Order
variable {t : Tcb} {written : List Byte} {u n h : Nat}
lemma toNat_number_iss {iss : SeqNum} {x : Nat} (small : x < 2 ^ 32) : (number iss x - iss).toNat = x := by
  have start := @toNat_number_sub iss x 0 (by omega) (by omega)
  rw [number_zero] at start
  exact start
lemma Stands.ordered (st : Stands t.toSendSpace written u n h) (short : h < 2 ^ 31) : Ordered t := by
  have order := st.order
  refine ⟨?_,?_,?_⟩
  · rw [st.una,st.nxt,toNat_number_iss (by omega),toNat_number_iss (by omega)]
    exact order.1
  · rw [st.nxt,st.high,toNat_number_iss (by omega),toNat_number_iss (by omega)]
    exact order.2
  · rw [st.high,toNat_number_iss (by omega)]
    exact short
end Order
/-- In every run whose steps all meet the condition the sequence numbers stay in order, and the handshake ends
    on an acknowledgement of what was sent. -/
theorem send_space_ordered {s₀ s : Session} {events : List (Env × Event)} (opened : Opened s₀) (meets : s₀.Meets events)
    (ran : s₀.run events = some s) :
    (seq_leq s.sock.tcb.snd_una s.sock.tcb.snd_nxt = true ∧ seq_leq s.sock.tcb.snd_nxt s.sock.tcb.snd_high = true ∧
      (s.sock.tcb.snd_high - s.sock.tcb.snd_una).toNat < 2 ^ 31) ∧
    (s.written.length + 2 < 2 ^ 31 → Ordered s.sock.tcb) ∧ ((∀ p ∈ events, p.2.Arrives) → Ordered s.sock.tcb) ∧
    ∀ env e s', Meets env s.sock.tcb e → s.step env e = some s' →
      s.sock.tcb.state = .SynSent ∨ s.sock.tcb.state = .SynReceived → s'.sock.tcb.state = .Established →
      ∃ seg parsed, e = .segment seg parsed ∧ seg.flags.ack = true ∧ Sent s.sock.tcb seg.ack := by
  obtain ⟨n₀,h₀,start⟩ := opened.in_phase
  obtain ⟨u,n,h,good,_⟩ := Session.run_in_phase start meets ran
  have order := good.stands.order
  have span := good.stands.span
  have last := good.stands.last
  have short : s.written.length + 2 < 2 ^ 31 → Ordered s.sock.tcb := by
    intro few
    refine good.stands.ordered ?_
    split at last <;> omega
  refine ⟨⟨?_,?_,?_⟩,short,?_,?_⟩
  · rw [good.stands.una,good.stands.nxt,seq_leq_number (by omega) (by omega)]
    exact order.1
  · rw [good.stands.nxt,good.stands.high,seq_leq_number (by omega) (by omega)]
    exact order.2
  · rw [good.stands.high,good.stands.una,toNat_number_sub (by omega) (by omega)]
    omega
  · intro arrives
    have unwritten := Session.run_arrives arrives ran
    have none : s₀.written = [] := (start.stands.early rfl).1
    refine short ?_
    rw [unwritten,none]
    decide
  · intro env e s' meets' stepped handshake established
    obtain ⟨zero,_,few,_⟩ := good.handshake handshake
    subst zero
    obtain ⟨u',n',h',good',moved⟩ := Session.step_in_phase good meets' stepped
    have live := ((Phase.of_open (.inl established)).mp good'.phase).1
    rcases moved with same | ⟨⟨seg,parsed,arrived,flag,ack⟩,_,within⟩
    · omega
    · refine ⟨seg,parsed,arrived,flag,?_,?_⟩
      · rw [ack,← good.same_iss,toNat_number_iss (by omega)]
        omega
      · rw [ack,good.stands.high,← good.same_iss,toNat_number_iss (by omega),toNat_number_iss (by omega)]
        exact within

/-! A connection from port to port, for the runs below. -/
def sample_env : Env := ⟨1000,id,id,some 0,⟨true,true,true⟩,Reno⟩
def sample_options : ParsedOptions := ⟨none,none,false,none,[]⟩
def sample_connect : Session := ⟨connect sample_env 1000 6,[]⟩
def sample_syn : Segment := ⟨500,0,{ Flags.none with syn := true },1000,[]⟩
def sample_syn_ack (ack : SeqNum) : Segment := ⟨500,ack,{ Flags.none with syn := true, ack := true },1000,[]⟩
def sample_ack (ack : SeqNum) (window : BitVec 16) : Segment := ⟨501,ack,{ Flags.none with ack := true },window,[]⟩
/-- The handshake, three bytes, an acknowledgement of two of them, and the FIN. -/
def sample_events : List (Env × Event) :=
  [(sample_env,.segment (sample_syn_ack 1001) sample_options),(sample_env,.write [1,2,3]),
    (sample_env,.segment (sample_ack 1003 1000) sample_options),(sample_env,.tick),(sample_env,.shutdown .Write)]
theorem send_space_ordered_sample : ∃ s, sample_connect.run sample_events = some s ∧ Ordered s.sock.tcb :=
  ⟨_,rfl,(@send_space_ordered sample_connect _ sample_events (.active sample_env 1000 6) (by decide) rfl).2.1 (by decide)⟩
/-- A SYN+ACK, or the last segment of a passive handshake, may acknowledge what was never sent; an acknowledgement
    half the sequence space away is taken when nothing is outstanding; and a SYN that finds no interface to be sent
    again leaves `snd_nxt` in front of the SYN. -/
theorem send_space_disordered : (∃ s, sample_connect.run [(sample_env,.segment (sample_syn_ack 6000) sample_options)] = some s ∧
      s.sock.tcb.state = .Established ∧ ¬ Ordered s.sock.tcb ∧ ¬ Sent sample_connect.sock.tcb 6000) ∧
    (∃ s, Session.run ⟨accept_into_listen sample_env 1000 sample_syn sample_options,[]⟩
        [(sample_env,.segment (sample_ack 6000 1000) sample_options)] = some s ∧ s.sock.tcb.state = .Established ∧ ¬ Ordered s.sock.tcb) ∧
    (∃ s, sample_connect.run [(sample_env,.segment (sample_syn_ack 1001) sample_options),
        (sample_env,.segment (sample_ack (1001 + 2147483648) 1000) sample_options)] = some s ∧ ¬ Ordered s.sock.tcb) ∧
    (∃ s, sample_connect.run [({ sample_env with now := 2000000000, egress := none },.tick),
        (sample_env,.segment (sample_syn_ack 1001) sample_options)] = some s ∧ ¬ Ordered s.sock.tcb) := by
  refine ⟨⟨_,rfl,?_⟩,⟨_,rfl,?_⟩,⟨_,rfl,?_⟩,⟨_,rfl,?_⟩⟩
  · decide
  · decide
  · decide
  · decide

/-! ## The stream -/
/-- In every run whose steps all meet the condition every segment carries what the application wrote at its place,
    the FIN is behind the last byte, and the send buffer keeps every byte that no segment has acknowledged. -/
theorem sender_integrity {s₀ s : Session} {events : List (Env × Event)} (opened : Opened s₀) (meets : s₀.Meets events)
    (ran : s₀.run events = some s) : (∀ seg ∈ s.sock.wire, Genuine s.sock.tcb.iss s.written seg) ∧
    ∃ u, s.sock.tcb.snd_una = number s.sock.tcb.iss u ∧ s.sock.tcb.send_buf.bytes = s.written.drop (u - 1) ∧
      (u = 0 ∨ ∃ p ∈ events, p.2.Acknowledges (number s.sock.tcb.iss u)) := by
  obtain ⟨n₀,h₀,start⟩ := opened.in_phase
  obtain ⟨u,n,h,good,acked⟩ := Session.run_in_phase start meets ran
  refine ⟨fun seg member => (good.wire seg member).1,u,good.stands.una,good.stands.bytes,?_⟩
  rw [good.same_iss]
  exact acked

theorem sender_integrity_sample : ∃ s, sample_connect.run sample_events = some s ∧
    ∀ seg ∈ s.sock.wire, Genuine s.sock.tcb.iss s.written seg :=
  ⟨_,rfl,(@sender_integrity sample_connect _ sample_events (.active sample_env 1000 6) (by decide) rfl).1⟩
/-- After an acknowledgement half the sequence space away the FIN is sent there, not behind the last byte. -/
theorem fin_misplaced : ∃ s, sample_connect.run [(sample_env,.segment (sample_syn_ack 1001) sample_options),
      (sample_env,.segment (sample_ack (1001 + 2147483648) 1000) sample_options),(sample_env,.shutdown .Write)] = some s ∧
    s.written = [] ∧ ∃ seg ∈ s.sock.wire, seg.flags.fin = true ∧ seg.seq = 1001 + 2147483648 ∧ ¬ Genuine s.sock.tcb.iss s.written seg := by
  refine ⟨_,rfl,rfl,⟨1001 + 2147483648,501,{ Flags.none with ack := true, fin := true },65535,[]⟩,by decide,rfl,rfl,?_⟩
  intro genuine
  exact absurd (genuine.fin rfl) (by decide)
end Narf.Net.Tcp
