import Narf.Net.Tcp.Resends

namespace Narf.Net.Tcp
open List Bool

/-! Acknowledgements: what they release, and where they leave the sender. -/

/-! ## The position acknowledged -/
lemma number_wrap (isn : SeqNum) (x : Nat) : number isn (x + 2 ^ 32) = number isn x := by
  simp [number,BitVec.ofNat_add]
/-- An acknowledgement that passes the test is that of a position sent and not acknowledged; the one exception
    is exactly half the sequence space away, with nothing outstanding. -/
lemma ack_position {isn ack : SeqNum} {u h : Nat} (order : u ≤ h) (span : h ≤ u + 2 ^ 30)
    (later : seq_lt (number isn u) ack) (below : seq_leq ack (number isn h))
    (tie : ¬ (h = u ∧ ack = number isn u + BitVec.ofNat 32 (2 ^ 31))) : ∃ a, u < a ∧ a ≤ h ∧ ack = number isn a := by
  obtain ⟨a,rfl,low,high⟩ := exists_number isn ack u
  by_cases near : a ≤ u + 2 ^ 31
  · rw [seq_lt_number (by omega) (by omega)] at later
    by_cases close : a < h + 2 ^ 31
    · rw [seq_leq_number (by omega) (by omega)] at below
      exact ⟨a,later,below,rfl⟩
    · refine absurd ⟨by omega,?_⟩ tie
      rw [number_add]
      congr 1
      omega
  · rw [← number_wrap,seq_lt_number (by omega) (by omega)] at later
    omega

/-! ## What is released -/
section Release
variable {x : SendSpace} {written : List Byte} {u n h a : Nat}
lemma Stands.end_eq (st : Stands x written u n h) (r : OutSeg) : r.end_seq = number x.iss (u + ahead x r) := by
  rw [← number_add,← st.una,ahead,BitVec.ofNat_toNat,BitVec.setWidth_eq]
  bv_omega
/-- The buffer after the acknowledgement. -/
structure Released (x : SendSpace) (written : List Byte) (n a : Nat) (buf : SendBuf) : Prop where
  bytes : buf.bytes = written.drop (a - 1)
  head : x.fin_sent = false ∨ buf.bytes ≠ [] → buf.unacked_head_seq = number x.iss a
  sent : buf.sent_offset = min (max n a - 1) written.length - (a - 1)
  limit : buf.limit = x.send_buf.limit
lemma Stands.released (st : Stands x written u n h) (later : u < a) (within : a ≤ h) :
    Released x written n a (x.send_buf.ack (number x.iss a)) := by
  have order := st.order
  have span := st.span
  have last := st.last
  have length := st.length_bytes
  have sent := st.sent
  have bytes := st.bytes
  have unwritten := st.unwritten
  by_cases empty : x.send_buf.bytes = []
  · have same : x.send_buf.ack (number x.iss a) = x.send_buf := by
      unfold SendBuf.ack
      rw [empty]
      simp only [length_nil,Nat.min_zero,drop_nil,BitVec.add_zero,Nat.sub_zero]
      rw [← empty]
    rw [empty,length_nil] at length
    rw [same]
    refine ⟨?_,?_,by omega,rfl⟩
    · rw [empty]
      exact (drop_eq_nil_of_le (by omega)).symm
    · rintro (unclosed | some_byte)
      · rw [unclosed,if_neg Bool.false_ne_true] at last
        rw [st.head (.inl unclosed)]
        congr 1
        omega
      · exact absurd empty some_byte
  · have live : 1 ≤ u := by
      refine st.shaken ?_
      rintro rfl
      exact empty (by rw [bytes,drop_nil])
    have head : x.send_buf.unacked_head_seq = number x.iss u := by rw [st.head (.inr empty),max_eq_left live]
    have count : (number x.iss a - x.send_buf.unacked_head_seq).toNat = a - u := by
      rw [head,toNat_number_sub (by omega) (by omega)]
    unfold SendBuf.ack
    rw [count]
    refine ⟨?_,?_,?_,rfl⟩
    · show x.send_buf.bytes.drop (min (a - u) x.send_buf.bytes.length) = written.drop (a - 1)
      by_cases all : a - u ≤ x.send_buf.bytes.length
      · rw [min_eq_left all,bytes,drop_drop]
        congr 1
        omega
      · rw [min_eq_right (by omega),drop_length]
        exact (drop_eq_nil_of_le (by omega)).symm
    · rintro some_left
      have within' : a - u ≤ x.send_buf.bytes.length := by
        rcases some_left with unclosed | some_byte
        · rw [unclosed,if_neg Bool.false_ne_true] at last
          omega
        · by_contra all
          apply some_byte
          show x.send_buf.bytes.drop (min (a - u) x.send_buf.bytes.length) = []
          rw [min_eq_right (by omega),drop_length]
      show x.send_buf.unacked_head_seq + BitVec.ofNat 32 (min (a - u) x.send_buf.bytes.length) = number x.iss a
      rw [min_eq_left within',head,number_add]
      congr 1
      omega
    · show x.send_buf.sent_offset - min (a - u) x.send_buf.bytes.length = min (max n a - 1) written.length - (a - 1)
      omega
lemma Stands.acked (st : Stands x written u n h) (later : u < a) (within : a ≤ h) : Stands { x with
      snd_una := number x.iss a, snd_nxt := if seq_lt x.snd_nxt (number x.iss a) then number x.iss a else x.snd_nxt
      send_buf := x.send_buf.ack (number x.iss a)
      retx_queue := x.retx_queue.filter (!seq_leq ·.end_seq (number x.iss a)) } written a (max n a) h := by
  have order := st.order
  have span := st.span
  have released := st.released later within
  have behind : seq_lt x.snd_nxt (number x.iss a) ↔ n < a := by
    rw [st.nxt]
    exact seq_lt_number (by omega) (by omega)
  have kept : ∀ r ∈ x.retx_queue.filter (!seq_leq ·.end_seq (number x.iss a)),
      r ∈ x.retx_queue ∧ a < u + ahead x r ∧ (r.end_seq - number x.iss a).toNat = u + ahead x r - a := by
    intro r mem
    obtain ⟨old,beyond⟩ := mem_filter.mp mem
    have reach := st.reach r old
    have ends := st.end_eq r
    rw [not_eq_true',ends,← not_eq_true,seq_leq_number (by omega) (by omega)] at beyond
    refine ⟨old,by omega,?_⟩
    rw [ends,toNat_number_sub (by omega) (by omega)]
  have size := st.size
  have length := st.length_bytes
  refine { st with
    una := rfl, nxt := ?_, order := ⟨le_max_right n a,by omega⟩, span := by omega
    bytes := released.bytes
    head := ?_
    sent := released.sent
    size := ?_
    early := fun zero => by omega
    reach := ?_
    syns := ?_
    pair := ?_ }
  · by_cases less : n < a
    · rw [if_pos (behind.mpr less),max_eq_right (by omega)]
    · rw [if_neg (fun lt => less (behind.mp lt)),max_eq_left (by omega)]
      exact st.nxt
  · rw [max_eq_left (by omega : 1 ≤ a)]
    exact released.head
  · refine ⟨?_,by rw [released.limit]; exact size.2⟩
    rw [released.bytes,length_drop]
    omega
  · intro r mem
    obtain ⟨old,beyond,far⟩ := kept r mem
    have reach := st.reach r old
    show (r.end_seq - number x.iss a).toNat ≤ h - a
    omega
  · intro r mem syn
    obtain ⟨old,beyond,far⟩ := kept r mem
    have reach := st.reach r old
    obtain ⟨early,ends⟩ := st.syns r old syn
    rw [st.end_eq r,number_inj (by omega) (by omega)] at ends
    omega
  · have sub : (x.retx_queue.filter (!seq_leq ·.end_seq (number x.iss a))).Sublist x.retx_queue := filter_sublist
    refine Pairwise.imp_of_mem ?_ (st.pair.sublist sub)
    intro r r' mem member' near
    obtain ⟨_,beyond,far⟩ := kept r mem
    obtain ⟨_,beyond',far'⟩ := kept r' member'
    show (r.end_seq - number x.iss a).toNat + r'.len ≤ (r'.end_seq - number x.iss a).toNat + 2 ^ 30 + 1
    omega
end Release

/-! ## `handle_ack` -/
section Handle
variable {env : Env} {s : Sock} {t : Tcb} {written : List Byte} {u n h : Nat}
lemma offered_lt (t : Tcb) (seg : Segment) : offered t seg < 2 ^ 30 := by
  have window := seg.window.isLt
  have scale := Nat.pow_le_pow_right (by omega : 0 < 2) (Nat.lt_succ_iff.mp t.opts.peer_wscale.isLt)
  have product := Nat.mul_le_mul (Nat.le_pred_of_lt window) scale
  exact lt_of_le_of_lt product (by decide)
variable {x : SendSpace}
lemma Stands.window (st : Stands x written u n h) {wnd : Nat} (small : wnd < 2 ^ 30) : Stands { x with snd_wnd := wnd } written u n h :=
  { st with wnd := small }
lemma update_window_same (env : Env) (t : Tcb) (seg : Segment) :
    ∃ wnd, (update_window env t seg).toSendSpace = { t.toSendSpace with snd_wnd := wnd } ∧
      (wnd = t.snd_wnd ∨ wnd = offered t seg) ∧ Keeps t (update_window env t seg) := by
  unfold update_window
  split
  · dsimp only
    split
    · split
      · exact ⟨_,rfl,.inr rfl,⟨rfl,rfl,rfl⟩⟩
      · exact ⟨_,rfl,.inr rfl,⟨rfl,rfl,rfl⟩⟩
    · exact ⟨_,rfl,.inl rfl,⟨rfl,rfl,rfl⟩⟩
  · exact ⟨_,rfl,.inl rfl,⟨rfl,rfl,rfl⟩⟩
lemma update_window_stands (st : Stands t.toSendSpace written u n h) (env : Env) (seg : Segment) :
    Stands (update_window env t seg).toSendSpace written u n h ∧ Keeps t (update_window env t seg) := by
  obtain ⟨wnd,space,which,keeps⟩ := update_window_same env t seg
  refine ⟨?_,keeps⟩
  rw [space]
  refine st.window ?_
  rcases which with rfl | rfl
  · exact st.wnd
  · exact offered_lt t seg
lemma arm_space (env : Env) (t : Tcb) : (arm_retransmit_timer env t).toSendSpace = t.toSendSpace := by
  obtain ⟨deadline,armed⟩ := arm_same env t
  rw [armed]
lemma arm_keeps (env : Env) (t : Tcb) : Keeps t (arm_retransmit_timer env t) := by
  obtain ⟨deadline,armed⟩ := arm_same env t
  rw [armed]
  exact ⟨rfl,rfl,rfl⟩
lemma acknowledge_stands (st : Stands t.toSendSpace written u n h) (env : Env) {a : Nat} (later : u < a) (within : a ≤ h) :
    Stands (acknowledge env t (number t.iss a)).toSendSpace written a (max n a) h ∧ Keeps t (acknowledge env t (number t.iss a)) := by
  have acked := st.acked later within
  unfold acknowledge
  dsimp only
  constructor
  · rw [arm_space]
    exact acked
  · refine Keeps.trans ?_ (arm_keeps env _)
    exact ⟨rfl,rfl,rfl⟩
lemma take_sack_same (t : Tcb) (parsed : ParsedOptions) :
    (take_sack t parsed).toSendSpace = t.toSendSpace ∧ (take_sack t parsed).state = t.state := by
  unfold take_sack
  split <;> exact ⟨rfl,rfl⟩
/-- Exactly half the sequence space ahead of `snd_una`, with nothing outstanding. -/
def half_way (t : Tcb) (ack : SeqNum) : Prop := t.snd_high = t.snd_una ∧ ack = t.snd_una + BitVec.ofNat 32 (2 ^ 31)
instance (t : Tcb) (ack : SeqNum) : Decidable (half_way t ack) := inferInstanceAs (Decidable (_ ∧ _))
lemma Stands.high_eq_una (st : Stands x written u n h) : x.snd_high = x.snd_una ↔ h = u := by
  have order := st.order
  have span := st.span
  rw [st.high,st.una,number_inj (by omega) (by omega)]
/-- The sender has moved from `u` to `u'`, if at all, because the segment acknowledges `u'`, which has been sent. -/
def AckedBy (iss : SeqNum) (seg : Segment) (u h u' : Nat) : Prop :=
  u' = u ∨ seg.flags.ack = true ∧ seg.ack = number iss u' ∧ u < u' ∧ u' ≤ h
lemma handle_ack_sends (sends : Sends s written u n h) {seg : Segment}
    (near : seg.flags.ack → ¬ half_way s.tcb seg.ack) (parsed : ParsedOptions) (payload_len : Nat) :
    ∃ u' n', AckedBy s.tcb.iss seg u h u' ∧ Sends (handle_ack env s seg parsed payload_len) written u' n' h ∧
      Keeps s.tcb (handle_ack env s seg parsed payload_len).tcb := by
  unfold handle_ack
  by_cases flag : seg.flags.ack = false
  · rw [if_pos flag]
    exact ⟨u,n,.inl rfl,sends,Keeps.refl s.tcb⟩
  rw [if_neg flag]
  rw [not_eq_false] at flag
  obtain ⟨stands,keeps⟩ := update_window_stands sends.stands env seg
  have tie : ¬ half_way (update_window env s.tcb seg) seg.ack := by
    obtain ⟨wnd,space,_,_⟩ := update_window_same env s.tcb seg
    have high : (update_window env s.tcb seg).snd_high = s.tcb.snd_high := by rw [space]
    have una : (update_window env s.tcb seg).snd_una = s.tcb.snd_una := by rw [space]
    rw [half_way,high,una]
    exact near flag
  generalize update_window env s.tcb seg = t at stands keeps tie ⊢
  have moved := sends.moved stands keeps.iss keeps.fin_sent
  have order := stands.order
  have span := stands.span
  dsimp only
  split
  · next accepted =>
    rw [and_eq_true,stands.una,stands.high] at accepted
    rw [half_way,stands.high_eq_una,stands.una] at tie
    obtain ⟨a,later,within,ack⟩ := ack_position (by omega) span accepted.1 accepted.2 tie
    obtain ⟨acked,keeps'⟩ := acknowledge_stands stands env later within
    obtain ⟨space,state⟩ := take_sack_same (acknowledge env t (number t.iss a)) parsed
    rw [ack]
    refine ⟨a,max n a,.inr ⟨flag,?_,later,within⟩,(moved.moved acked keeps'.iss keeps'.fin_sent).same space,?_⟩
    · exact ack.trans (congrArg (number · a) keeps.iss)
    · exact (keeps.trans keeps').trans ⟨state,congrArg SendSpace.iss space,congrArg SendSpace.fin_sent space⟩
  split
  · rcases t.cong.on_dup_ack with ⟨third,cong⟩
    dsimp only
    split
    · obtain ⟨sends',keeps'⟩ := @fast_retransmit_sends env
        { s with tcb := { t with cong := env.cc.on_loss cong t.snd_nxt env.now env.cycles_per_ms } } written u n h (moved.same rfl)
      exact ⟨u,n,.inl rfl,sends',keeps.trans ⟨keeps'.state,keeps'.iss,keeps'.fin_sent⟩⟩
    · obtain ⟨space,state⟩ := take_sack_same { t with cong := cong } parsed
      refine ⟨u,n,.inl rfl,moved.same space,?_⟩
      exact keeps.trans ⟨state,congrArg SendSpace.iss space,congrArg SendSpace.fin_sent space⟩
  · obtain ⟨space,state⟩ := take_sack_same t parsed
    refine ⟨u,n,.inl rfl,moved.same space,?_⟩
    exact keeps.trans ⟨state,congrArg SendSpace.iss space,congrArg SendSpace.fin_sent space⟩
end Handle
end Narf.Net.Tcp
