import Narf.Net.Tcp.Output

namespace Narf.Net.Tcp

/-! What an arriving segment does. A slice out of range panics in the source; here it is `none`. -/

/-! ## Acknowledgements -/
def may_update_send_window (snd_una snd_wl1 ack ack_seq : SeqNum) (snd_wnd new_wnd : Nat) : Bool :=
  seq_lt snd_una ack || seq_lt snd_wl1 ack_seq ||
    (snd_wl1 == ack_seq && (decide (snd_wnd < new_wnd) || decide (new_wnd = 0)))
def ack_in_range (t : Tcb) (ack : SeqNum) : Bool := seq_geq ack t.snd_una && seq_leq ack t.snd_high
def offered (t : Tcb) (seg : Segment) : Nat := seg.window.toNat * 2 ^ t.opts.peer_wscale.val
/-- An acceptable acknowledgement answers the keepalive probes and may move the window. -/
def update_window (env : Env) (t : Tcb) (seg : Segment) : Tcb :=
  if ack_in_range t seg.ack then
    let t := { t with keepalive_probes_sent := 0, last_progress_cycles := env.now }
    let new_wnd := offered t seg
    if may_update_send_window t.snd_una t.snd_wl1 seg.ack seg.seq t.snd_wnd new_wnd then
      let t := { t with snd_wnd := new_wnd, snd_wl1 := seg.seq, snd_wl2 := seg.ack }
      if 0 < new_wnd then { t with persist_deadline_cycles := 0, persist_backoff_ns := PERSIST_INITIAL_NS } else t
    else t
  else t
def acknowledge (env : Env) (t : Tcb) (ack : SeqNum) : Tcb :=
  let acked := (ack - t.snd_una).toNat
  let covered := t.retx_queue.filter (fun r => seq_leq r.end_seq ack)
  let sample := (covered.find? (fun r => !r.retransmitted)).map OutSeg.sent_at_cycles
  let rtt := match sample with
    | some sent_at =>
      let rtt_ns := env.cycles_to_ns (env.now - sent_at)
      if 0 < rtt_ns then t.rtt.sample rtt_ns else t.rtt
    | none => t.rtt
  let cong := { t.cong with cycles_per_ms := env.cycles_per_ms }
  let cong := env.cc.on_ack cong.clear_dup_acks acked env.now
  let t := { t with
    snd_una := ack
    snd_nxt := if seq_lt t.snd_nxt ack then ack else t.snd_nxt
    send_buf := t.send_buf.ack ack
    retx_queue := t.retx_queue.filter (fun r => !seq_leq r.end_seq ack)
    flightsize := t.flightsize - min (covered.map OutSeg.len).sum 4294967295
    rtt := rtt
    cong := cong.clear_recovery_if_passed ack
    rto_count := 0
    keepalive_probes_sent := 0
    last_progress_cycles := env.now
    scoreboard := t.scoreboard.filter (fun b => decide (0 < (b.right - ack).toInt)) }
  arm_retransmit_timer env t
def take_sack (t : Tcb) (parsed : ParsedOptions) : Tcb :=
  if parsed.sack_blocks = [] then t else { t with scoreboard := parsed.sack_blocks.take MAX_SACK_BLOCKS }
def fast_retransmit (env : Env) (s : Sock) : Sock :=
  if s.tcb.retx_queue = [] ∨ s.tcb.scoreboard.any (fun b => b.contains s.tcb.snd_una) then s
  else
    let (seq,payload,fin) := retransmit_head s.tcb
    let (window,t) := effective_advertised_window s.tcb
    let s := { s with tcb := t }
    if payload = [] ∧ fin = false then s
    else
      match env.egress with
      | none => s
      | some _ =>
        let s := s.emit ⟨seq,t.rcv.rcv_nxt,{ Flags.none with ack := true, psh := true, fin := fin },window,payload⟩
        let stop := seq + BitVec.ofNat 32 payload.length
        s.update (fun t => arm_retransmit_timer env { t with
          total_retrans := add32 t.total_retrans 1
          retx_queue := t.retx_queue.map (fun r =>
            if seq_lt r.seq stop && seq_gt r.end_seq seq then { r with retransmitted := true } else r) })
def dup_candidate (t : Tcb) (seg : Segment) (payload_len : Nat) : Prop :=
  payload_len = 0 ∧ seg.flags.syn = false ∧ seg.flags.fin = false ∧ offered t seg = t.snd_wnd
instance (t : Tcb) (seg : Segment) (payload_len : Nat) : Decidable (dup_candidate t seg payload_len) :=
  inferInstanceAs (Decidable (_ ∧ _))
def handle_ack (env : Env) (s : Sock) (seg : Segment) (parsed : ParsedOptions) (payload_len : Nat) : Sock :=
  if seg.flags.ack = false then s
  else
    let t := update_window env s.tcb seg
    if seq_lt t.snd_una seg.ack && seq_leq seg.ack t.snd_high then
      { s with tcb := take_sack (acknowledge env t seg.ack) parsed }
    else if dup_candidate s.tcb seg payload_len ∧ seg.ack = t.snd_una ∧ t.retx_queue ≠ [] then
      let (third,cong) := t.cong.on_dup_ack
      if third then
        fast_retransmit env { s with tcb := { t with cong := env.cc.on_loss cong t.snd_nxt env.now env.cycles_per_ms } }
      else { s with tcb := take_sack { t with cong := cong } parsed }
    else { s with tcb := take_sack t parsed }

/-! ## Data and FIN -/
def rcv_mss (t : Tcb) : Nat :=
  if t.rcv_mss_seen ≠ 0 then t.rcv_mss_seen
  else min (max (min (max t.opts.our_mss.toNat MIN_MSS) (t.rcv.recv_buf.window.toNat / 2)) 88) 536
/-- The connection after the payload, and whether `rcv_nxt` moved. -/
def enqueue_recv (s : Sock) (seq : SeqNum) (payload : List Byte) : Option (Sock × Bool) :=
  match Narf.Net.enqueue_recv s.tcb.rcv seq payload with
  | none => none
  | some (rcv,advanced) =>
    let t := { s.tcb with rcv := rcv }
    let t := if rcv_mss t ≤ payload.length then { t with rcv_mss_seen := min payload.length (max t.opts.our_mss.toNat MIN_MSS) } else t
    some ({ s with tcb := t },advanced)
/-- Take the peer's FIN, where nothing before it is missing. -/
def process_fin (s : Sock) (seg : Segment) (payload_len : Nat) : Sock × Bool :=
  let t := s.tcb
  if t.fin_received then (s,false)
  else if seg.seq + (if seg.flags.syn then 1 else 0) + BitVec.ofNat 32 payload_len ≠ t.rcv.rcv_nxt then (s,false)
  else
    ({ s with tcb := { t with
      fin_received := true
      rcv := { t.rcv with rcv_nxt := t.rcv.rcv_nxt + 1 }
      state := if t.state = .Established ∨ t.state = .SynReceived then .CloseWait else t.state } },true)
def reack_retransmitted_fin (env : Env) (s : Sock) (seg : Segment) : Sock := if seg.flags.fin then send_ack env s else s
inductive AckNeed where
  | None
  | Data
  | Now
/-- The next sequence number wanted and the room behind it. -/
def rcv_window (t : Tcb) : SeqNum × BitVec 32 := (t.rcv.rcv_nxt,t.rcv.recv_buf.window)
def ack_need (seg : Segment) (payload_len : Nat) (advanced : Bool) (win : SeqNum × BitVec 32) : AckNeed :=
  if seg.flags.fin then .Now
  else if 0 < payload_len then if advanced then .Data else .Now
  else if seq_geq seg.seq win.1 && seq_leq seg.seq (win.1 + win.2) then .None
  else .Now
def schedule_ack (env : Env) (s : Sock) (need : AckNeed) : Sock :=
  let later := s.update (fun t =>
    if t.delayed_ack_deadline_cycles = 0 then { t with delayed_ack_deadline_cycles := env.after DELAYED_ACK_NS } else t)
  match need with
  | .None => s
  | .Now => send_ack env s
  | .Data =>
    if rcv_mss s.tcb < (s.tcb.rcv.rcv_nxt - s.tcb.rcv_wup).toNat then send_ack env s
    else if 0 < s.tcb.quickack_left then send_ack env (s.update (fun t => { t with quickack_left := t.quickack_left - 1 }))
    else later

/-! ## One handler for each state -/
def arm_orphan_fin_wait2 (env : Env) (t : Tcb) : Tcb :=
  if t.orphan = true ∧ t.state = .FinWait2 ∧ t.time_wait_deadline_cycles = 0 then
    { t with time_wait_deadline_cycles := env.after FIN_TIMEOUT_NS }
  else t
def enter_time_wait (env : Env) (t : Tcb) : Tcb :=
  { t with
    state := .TimeWait
    time_wait_deadline_cycles := env.after TIME_WAIT_NS
    send_buf := SendBuf.new t.send_buf.limit t.snd_nxt
    retx_queue := []
    flightsize := 0
    retx_deadline_cycles := 0
    persist_deadline_cycles := 0
    scoreboard := []
    rcv := { t.rcv with
      sack_book := SackBook.new
      recv_buf := if t.rcv.recv_buf.in_order = [] then RecvBuf.new t.rcv.recv_buf.limit else t.rcv.recv_buf }
    egress := none }
def our_fin_acked (t : Tcb) : Bool := seq_geq t.snd_una (t.fin_seq + 1)
def max_sack (blocks : List SackBlock) : Option SeqNum :=
  match blocks with
  | [] => none
  | b :: rest => some (rest.foldl (fun m b => if seq_gt b.right m then b.right else m) b.right)
/-- The numbers at which a reset is believed. -/
def exact_rst (t : Tcb) (seq : SeqNum) : Prop :=
  seq = t.rcv.rcv_nxt ∨
  (seq = t.rcv.rcv_nxt - 1 ∧ (t.state = .CloseWait ∨ t.state = .LastAck ∨ t.state = .Closing)) ∨
  (t.opts.sack_active = true ∧ max_sack t.rcv.sack_book.blocks = some seq)
instance (t : Tcb) (seq : SeqNum) : Decidable (exact_rst t seq) := inferInstanceAs (Decidable (_ ∨ _))
def rst_error : TcpState → Nat
  | .SynSent => ECONNREFUSED
  | .CloseWait => EPIPE
  | .TimeWait => 0
  | _ => ECONNRESET
def handle_rst (env : Env) (s : Sock) (seg : Segment) : Sock :=
  let t := s.tcb
  if t.state = .SynSent ∧ (seg.flags.ack = false ∨ seg.ack ≠ t.iss + 1) then s
  else if t.state.is_synchronised = true ∧ ¬ exact_rst t seg.seq then
    if seq_geq seg.seq t.rcv.rcv_nxt && seq_lt seg.seq (t.rcv.rcv_nxt + t.rcv.recv_buf.window) then send_ack env s else s
  else if t.state = .Closed then s
  else abort_tcb s (rst_error t.state)
/-- The peer's SYN: its numbers, its window and its options. -/
def take_syn (env : Env) (t : Tcb) (seg : Segment) (parsed : ParsedOptions) : Tcb :=
  let opts := t.opts.negotiate env.sysctl parsed
  { t with
    irs := seg.seq
    rcv := { t.rcv with rcv_nxt := seg.seq + 1 }
    rcv_wup := seg.seq + 1
    snd_wnd := seg.window.toNat * 2 ^ ((parsed.wscale.map Fin.val).getD 0)
    opts := opts
    cong := t.cong.set_mss opts.peer_mss.toNat }
def establish (env : Env) (t : Tcb) (seg : Segment) : Tcb :=
  let t := { t with
    snd_una := seg.ack
    snd_wl1 := seg.seq
    snd_wl2 := seg.ack
    send_buf := { t.send_buf with unacked_head_seq := seg.ack }
    state := .Established
    retx_deadline_cycles := 0
    last_progress_cycles := env.now }
  match t.retx_queue with
  | [] => t
  | r :: rest => { t with
      retx_queue := rest
      rtt := if r.retransmitted then t.rtt else t.rtt.sample (env.cycles_to_ns (env.now - r.sent_at_cycles))
      flightsize := t.flightsize - r.len }

variable (env : Env) (s : Sock) (seg : Segment) (parsed : ParsedOptions)
def handle_in_syn_sent : Sock :=
  if ¬ (seg.flags.syn = true ∧ seg.flags.ack = true) then
    if seg.flags.syn then
      send_syn env (s.update (fun t => { take_syn env t seg parsed with state := .SynReceived })) true
    else s
  else send_ack env (s.update (fun t => establish env (take_syn env t seg parsed) seg))
def receive (s : Sock) (seg : Segment) (payload : List Byte) : Option (Sock × Bool × Bool) := do
  let (s,advanced) ← if payload = [] then some (s,false) else enqueue_recv s seg.seq payload
  let (s,fin) := if seg.flags.fin then process_fin s seg payload.length else (s,false)
  some (s,advanced,fin)
def handle_in_syn_received : Option Sock :=
  let t := s.tcb
  if seg.flags.ack = false then some s
  else if seq_geq seg.ack (t.iss + 1) = false then some s
  else do
    let s := s.update (fun t => { establish env t seg with snd_wnd := offered t seg })
    let win := rcv_window s.tcb
    let (s,advanced,_) ← receive s seg seg.payload
    if seg.payload ≠ [] ∨ seg.flags.fin = true then
      some (schedule_ack env s (ack_need seg seg.payload.length advanced win))
    else some s
def handle_in_established : Option Sock := do
  let win := rcv_window s.tcb
  let s := handle_ack env s seg parsed seg.payload.length
  let (s,advanced,_) ← receive s seg seg.payload
  some (pump_send env (schedule_ack env s (ack_need seg seg.payload.length advanced win)))
def handle_in_fin_wait1 : Option Sock := do
  let win := rcv_window s.tcb
  let s := handle_ack env s seg parsed seg.payload.length
  let acked := s.tcb.fin_sent && our_fin_acked s.tcb
  let (s,advanced,their_fin) ← receive s seg seg.payload
  let s := s.update (fun t =>
    if acked && their_fin then enter_time_wait env t
    else if acked then arm_orphan_fin_wait2 env { t with state := .FinWait2 }
    else if their_fin then { t with state := .Closing }
    else t)
  some (pump_send env (schedule_ack env s (ack_need seg seg.payload.length advanced win)))
def handle_in_fin_wait2 : Option Sock := do
  let win := rcv_window s.tcb
  let s := handle_ack env s seg parsed seg.payload.length
  let (s,advanced,their_fin) ← receive s seg seg.payload
  let s := s.update (fun t => if their_fin then enter_time_wait env t else t)
  some (schedule_ack env s (ack_need seg seg.payload.length advanced win))
def handle_in_close_wait : Sock :=
  pump_send env (reack_retransmitted_fin env (handle_ack env s seg parsed 0) seg)
def handle_in_closing : Sock :=
  (reack_retransmitted_fin env (handle_ack env s seg parsed 0) seg).update
    (fun t => if our_fin_acked t then enter_time_wait env t else t)
def handle_in_last_ack : Sock :=
  let s := reack_retransmitted_fin env (handle_ack env s seg parsed 0) seg
  if our_fin_acked s.tcb then s.update (fun t => { t with state := .Closed }) else pump_send env s
def handle_in_time_wait : Sock :=
  reack_retransmitted_fin env (s.update (fun t => { t with time_wait_deadline_cycles := env.after TIME_WAIT_NS })) seg

/-! ## Dispatch -/
def TCP_PAWS_WRAP_NS : Nat := 2147000000000
def paws_rejects (env : Env) (t : Tcb) (parsed : ParsedOptions) : Bool :=
  match parsed.timestamps with
  | some (tsv,_) => t.opts.paws_reject tsv env.now (env.ns_to_cycles TCP_PAWS_WRAP_NS)
  | none => false
/-- The timestamp of a segment at or before the left edge of the last window is remembered. -/
def update_timestamp (env : Env) (t : Tcb) (seg : Segment) (parsed : ParsedOptions) : Tcb :=
  match parsed.timestamps with
  | some (tsv,_) =>
    if seq_leq seg.seq t.rcv_wup = true ∨ t.state.is_synchronised = false then
      { t with opts := t.opts.update_ts_recent tsv env.now }
    else t
  | none => t
def process_in_state : Option Sock :=
  if seg.flags.rst then some (handle_rst env s seg)
  else if paws_rejects env s.tcb parsed then some (send_ack env s)
  else
    let s := s.update (fun t => update_timestamp env t seg parsed)
    match s.tcb.state with
    | .SynSent => some (handle_in_syn_sent env s seg parsed)
    | .SynReceived => handle_in_syn_received env s seg
    | .Established => handle_in_established env s seg parsed
    | .FinWait1 => handle_in_fin_wait1 env s seg parsed
    | .FinWait2 => handle_in_fin_wait2 env s seg parsed
    | .CloseWait => some (handle_in_close_wait env s seg parsed)
    | .Closing => some (handle_in_closing env s seg parsed)
    | .LastAck => some (handle_in_last_ack env s seg parsed)
    | .TimeWait => some (handle_in_time_wait env s seg)
    | .Listen | .Closed => some s
end Narf.Net.Tcp
