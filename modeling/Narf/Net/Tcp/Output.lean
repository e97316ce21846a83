import Narf.Net.Tcp.Tcb

namespace Narf.Net.Tcp

/-! What the connection sends: acknowledgements, data, retransmissions and probes. -/

/-! ## Sizes and windows -/
def usable_send_window (t : Tcb) : Nat := min t.snd_wnd t.cong.cwnd - (t.snd_nxt - t.snd_una).toNat
def send_mss (t : Tcb) : Nat := max (max t.opts.peer_mss.toNat MIN_MSS - t.opts.data_options_len t.rcv.sack_book.blocks.length) 1
/-- The window to advertise, recorded as advertised. -/
def effective_advertised_window (t : Tcb) : BitVec 16 × Tcb :=
  let raw := t.rcv.recv_buf.window.toNat
  (t.opts.encode_our_window raw,{ t with rcv_wnd := raw, rcv_wup := t.rcv.rcv_nxt })

/-! ## Retransmit records -/
variable (env : Env)
def queue_retransmit (t : Tcb) (seq : SeqNum) (seq_len : Nat) (flags : Flags) : Tcb :=
  let seg : OutSeg := ⟨seq,seq_len,env.now,false,flags⟩
  let t := { t with flightsize := add32 t.flightsize seq_len }
  if MAX_OUTSTANDING ≤ t.retx_queue.length then
    match t.retx_queue.getLast? with
    | some back =>
      if back.end_seq = seq ∧ back.flags.syn = false then
        { t with retx_queue := t.retx_queue.dropLast ++
          [{ back with len := add32 back.len seq_len, flags := back.flags.union flags }] }
      else
        { t with
          flightsize := t.flightsize - ((t.retx_queue.head?.map OutSeg.len).getD 0)
          retx_queue := t.retx_queue.tail ++ [seg] }
    | none => { t with retx_queue := t.retx_queue ++ [seg] }
  else { t with retx_queue := t.retx_queue ++ [seg] }
def arm_retransmit_timer (t : Tcb) : Tcb :=
  if t.retx_queue = [] then { t with retx_deadline_cycles := 0 }
  else { t with retx_deadline_cycles := env.after t.rtt.current_rto }
def note_sent (t : Tcb) : Tcb := if seq_gt t.snd_nxt t.snd_high then { t with snd_high := t.snd_nxt } else t
/-- What to resend: up to one segment from `snd_una` on, and the FIN where it follows and has been sent. -/
def retransmit_head (t : Tcb) : SeqNum × List Byte × Bool :=
  let off := (t.snd_una - t.send_buf.unacked_head_seq).toNat
  let n := min (t.send_buf.bytes.length - off) (send_mss t)
  let fin_on_wire := t.retx_queue.any (fun r => r.flags.fin && r.end_seq == t.fin_seq + 1)
  (t.snd_una,(t.send_buf.bytes.drop off).take n,
    t.fin_sent && fin_on_wire && t.snd_una + BitVec.ofNat 32 n == t.fin_seq)

/-! ## Segments -/
def send_syn (s : Sock) (ack_too : Bool) : Sock :=
  match env.egress with
  | none => s
  | some _ =>
    let t := s.tcb
    let flags := { Flags.none with syn := true, ack := ack_too }
    let s := s.emit ⟨t.iss,if ack_too then t.rcv.rcv_nxt else 0,flags,65535,[]⟩
    s.update (fun t => arm_retransmit_timer env
      (queue_retransmit env (note_sent { t with snd_nxt := t.iss + 1 }) t.iss 1 flags))
def send_ack (s : Sock) : Sock :=
  match env.egress with
  | none => s
  | some _ =>
    let (window,t) := effective_advertised_window s.tcb
    let t := { t with delayed_ack_deadline_cycles := 0 }
    Sock.emit { s with tcb := t } ⟨t.snd_nxt,t.rcv.rcv_nxt,{ Flags.none with ack := true },window,[]⟩
def send_rst (s : Sock) (seq ack : SeqNum) : Sock :=
  match env.egress with
  | none => s
  | some _ => s.emit ⟨seq,ack,{ Flags.none with rst := true, ack := true },0,[]⟩
/-- The interface, resolved once. -/
def cached_egress_for_tcb (t : Tcb) : Option (Nat × Tcb) :=
  match t.egress with
  | some dev => some (dev,t)
  | none => env.egress.map (fun dev => (dev,{ t with egress := some dev }))
def send_data (s : Sock) (seq : SeqNum) (payload : List Byte) (fin psh : Bool) : Sock :=
  match cached_egress_for_tcb env s.tcb with
  | none => s
  | some (_,t) =>
    let (window,t) := effective_advertised_window t
    let t := { t with delayed_ack_deadline_cycles := 0 }
    let flags := { Flags.none with ack := true, fin := fin, psh := psh }
    let s := Sock.emit { s with tcb := t } ⟨seq,t.rcv.rcv_nxt,flags,window,payload⟩
    s.update (fun t => arm_retransmit_timer env (queue_retransmit env t seq (payload.length + if fin then 1 else 0) flags))

/-! ## The sender loop -/
/-- Cut the next `remaining` unsent bytes into pieces and mark them sent; the first argument bounds the rounds. -/
def take_chunks (seg_cap : Nat) : Nat → Nat → SendBuf → List (List Byte) × SendBuf
  | 0,_,buf => ([],buf)
  | fuel + 1,remaining,buf =>
    if remaining = 0 then ([],buf)
    else
      let chunk := buf.unsent_slices (min remaining seg_cap)
      if chunk = [] then ([],buf)
      else
        let (rest,buf) := take_chunks seg_cap fuel (remaining - chunk.length) (buf.mark_sent chunk.length)
        (chunk :: rest,buf)
/-- The segments among the chunks that lie below `snd_high`. -/
def resent (mss : Nat) (snd_high : SeqNum) : SeqNum → List (List Byte) → Nat
  | _,[] => 0
  | seq,c :: rest =>
    (if seq_lt seq snd_high then (c.length + mss - 1) / mss else 0) + resent mss snd_high (seq + BitVec.ofNat 32 c.length) rest
/-- The FIN goes with the last chunk. -/
def send_chunks (env : Env) (fin : Bool) : SeqNum → List (List Byte) → Sock → Sock
  | _,[],s => s
  | seq,c :: rest,s =>
    send_chunks env fin (seq + BitVec.ofNat 32 c.length) rest (send_data env s seq c (fin && rest.isEmpty) true)
/-- How much goes into one frame: the interface may cut a large one itself. -/
def seg_cap (t : Tcb) : Nat :=
  let tso_max := t.egress.getD 0
  if 0 < tso_max then max (tso_max - 128) (send_mss t) else send_mss t
/-- One round of `pump_send`; `none` ends the loop. -/
inductive Round where
  | stop (t : Tcb)
  | fin (t : Tcb)
  | data (t : Tcb) (chunks : List (List Byte)) (seq : SeqNum) (fin : Bool)
def pump_round (t : Tcb) : Round :=
  let usable := usable_send_window t
  let mss := send_mss t
  if usable = 0 then
    if t.snd_wnd = 0 ∧ t.persist_deadline_cycles = 0 ∧ t.send_buf.bytes ≠ [] then
      .stop { t with persist_backoff_ns := PERSIST_INITIAL_NS, persist_deadline_cycles := env.after PERSIST_INITIAL_NS }
    else .stop t
  else
    let unsent := t.send_buf.unsent_len
    if (t.nagle_enabled ∨ t.cork_enabled) ∧ unsent < mss ∧ 0 < (t.snd_nxt - t.snd_una).toNat then .stop t
    else if unsent = 0 then
      if t.fin_sent ∧ t.snd_nxt = t.fin_seq then
        .fin (note_sent { t with
          total_retrans := if seq_lt t.fin_seq t.snd_high then add32 t.total_retrans 1 else t.total_retrans
          snd_nxt := t.snd_nxt + 1 })
      else .stop t
    else
      let remaining := min unsent usable
      let starting_seq := t.send_buf.seq_at_sent_offset
      let (chunks,buf) := take_chunks (seg_cap t) remaining remaining t.send_buf
      let total := (chunks.map List.length).sum
      let t := { t with
        send_buf := buf
        total_retrans := add32 t.total_retrans (resent mss t.snd_high starting_seq chunks)
        snd_nxt := t.snd_nxt + BitVec.ofNat 32 total }
      let attach_fin := decide (buf.unsent_len = 0) && t.fin_sent && decide (t.snd_nxt = t.fin_seq)
      let t := note_sent (if attach_fin then { t with snd_nxt := t.snd_nxt + 1 } else t)
      .data t chunks starting_seq attach_fin
/-- The loop; every round but the last sends bytes, so the unsent bytes bound the rounds. -/
def pump_loop (env : Env) : Nat → Sock → Sock
  | 0,s => s
  | fuel + 1,s =>
    match pump_round env s.tcb with
    | .stop t => { s with tcb := t }
    | .fin t => send_data env { s with tcb := t } t.fin_seq [] true false
    | .data t chunks seq fin =>
      if chunks = [] then { s with tcb := t }
      else
        let s := send_chunks env fin seq chunks { s with tcb := t }
        if fin then s else pump_loop env fuel s
def pump_send (s : Sock) : Sock :=
  match cached_egress_for_tcb env s.tcb with
  | none => s
  | some (_,t) => pump_loop env (t.send_buf.unsent_len + 1) { s with tcb := t }

/-! ## Timers -/
def ETIMEDOUT : Nat := 110
def ECONNRESET : Nat := 104
def ECONNREFUSED : Nat := 111
def EPIPE : Nat := 32
def write_err (t : Tcb) : Nat := if t.sk_err_soft ≠ 0 then t.sk_err_soft else ETIMEDOUT
/-- The connection ends; the unread bytes go to the socket's tombstone. -/
def abort_tcb (s : Sock) (err : Nat) : Sock :=
  s.update (fun t => { t with
    sk_err := err
    state := .Closed
    rcv := if t.orphan then t.rcv else { t.rcv with recv_buf := RecvBuf.new 0 } })
/-- Back off and go back to `snd_una`; `none` when the tries are used up. -/
def rewind (t : Tcb) : Tcb × Bool :=
  let limit := if t.state = .SynSent ∨ t.state = .SynReceived then t.syn_retries else MAX_RETRANSMITS
  let thin := t.thin_linear_timeouts && decide (t.flightsize ≤ min (t.cong.mss * 4) 4294967295)
  let (ok,rtt) := t.rtt.back_off_with_limit limit thin
  let t := { t with rtt := rtt }
  if ok then
    ({ t with
      rto_count := add32 t.rto_count 1
      cong := env.cc.on_rto t.cong t.flightsize env.now env.cycles_per_ms
      retx_queue := t.retx_queue.map (fun r => { r with retransmitted := true })
      send_buf := t.send_buf.rewind_for_retransmit
      snd_nxt := t.snd_una },true)
  else (t,false)
def resend_head (s : Sock) : Sock :=
  let (seq,payload,fin) := retransmit_head s.tcb
  let (window,t) := effective_advertised_window s.tcb
  let s := { s with tcb := t }
  if payload = [] ∧ fin = false then s
  else
    match env.egress with
    | none => s
    | some _ =>
      let s := s.emit ⟨seq,t.rcv.rcv_nxt,{ Flags.none with ack := true, psh := true, fin := fin },window,payload⟩
      s.update (fun t => arm_retransmit_timer env (note_sent { t with
        send_buf := t.send_buf.mark_sent payload.length
        snd_nxt := seq + BitVec.ofNat 32 payload.length + if fin then 1 else 0
        total_retrans := add32 t.total_retrans 1 }))
def fire_retransmit (s : Sock) : Sock :=
  match s.tcb.retx_queue with
  | [] => s
  | seg :: _ =>
    let (t,ok) := rewind env s.tcb
    let s := { s with tcb := t }
    if ok = false then abort_tcb s (write_err t)
    else if seg.flags.syn then
      let s := s.update (fun t => { t with
        retx_queue := t.retx_queue.tail
        flightsize := t.flightsize - seg.len
        snd_nxt := t.iss
        total_retrans := add32 t.total_retrans 1 })
      send_syn env s (decide (t.state = .SynReceived))
    else resend_head env s
def tick_delayed_ack (s : Sock) : Sock :=
  if s.tcb.delayed_ack_deadline_cycles ≠ 0 ∧ s.tcb.delayed_ack_deadline_cycles ≤ env.now then send_ack env s else s
/-- An empty segment at an old sequence number, which the peer must answer. -/
def send_probe (s : Sock) (f : Tcb → Tcb) : Sock :=
  match env.egress with
  | none => s
  | some _ =>
    let (window,t) := effective_advertised_window s.tcb
    let t := f t
    Sock.emit { s with tcb := t } ⟨t.snd_una - 1,t.rcv.rcv_nxt,{ Flags.none with ack := true },window,[]⟩
def send_persist_probe (s : Sock) : Sock :=
  send_probe env s (fun t =>
    let backoff := min (t.persist_backoff_ns * 2) PERSIST_MAX_NS
    { t with persist_backoff_ns := backoff, persist_deadline_cycles := env.after backoff })
def tick_persist (s : Sock) : Sock :=
  if s.tcb.persist_deadline_cycles ≠ 0 ∧ s.tcb.persist_deadline_cycles ≤ env.now then send_persist_probe env s else s
def tick_keepalive (s : Sock) : Sock :=
  let t := s.tcb
  if t.keepalive_enabled = false ∨ t.state ≠ .Established then s
  else
    let idle := env.ns_to_cycles t.keepalive_idle_ns + t.keepalive_probes_sent * env.ns_to_cycles t.keepalive_intvl_ns
    if env.now - t.last_progress_cycles < idle then s
    else if t.keepalive_cnt ≤ t.keepalive_probes_sent then abort_tcb s (write_err t)
    else send_probe env s (fun t => { t with keepalive_probes_sent := min (t.keepalive_probes_sent + 1) 255 })
def tick_time_wait (s : Sock) : Sock :=
  let t := s.tcb
  if (t.state = .TimeWait ∨ (t.state = .FinWait2 ∧ t.orphan = true)) ∧ t.time_wait_deadline_cycles ≠ 0 ∧
      t.time_wait_deadline_cycles ≤ env.now then s.update (fun t => { t with state := .Closed })
  else s
def due (t : Tcb) : Prop :=
  t.retx_deadline_cycles ≠ 0 ∧ t.retx_deadline_cycles ≤ env.now ∧ t.retx_queue ≠ []
instance (env : Env) (t : Tcb) : Decidable (due env t) := inferInstanceAs (Decidable (_ ∧ _))
def tick_retransmit (s : Sock) : Sock :=
  let s := if due env s.tcb then fire_retransmit env s else s
  tick_time_wait env (tick_keepalive env (tick_persist env (tick_delayed_ack env s)))
end Narf.Net.Tcp
