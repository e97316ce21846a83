import Narf.Net.Tcp.Input

namespace Narf.Net.Tcp

/-! The life of a connection: how it is opened, what the application asks of it, and its events. -/

/-! ## Opening -/
def connect (env : Env) (iss : SeqNum) (syn_retries : Nat) : Sock :=
  send_syn env ⟨{ Tcb.new_active iss with state := .SynSent, syn_retries := min (max syn_retries 1) 127 },[]⟩ false
/-- A listener answers a SYN. -/
def accept_into_listen (env : Env) (iss : SeqNum) (seg : Segment) (parsed : ParsedOptions) : Sock :=
  let t := take_syn env (Tcb.new_active iss) seg parsed
  let opts := match parsed.timestamps with
    | some (tsv,_) => { t.opts with ts_recent := tsv, ts_recent_at_cycles := env.now }
    | none => t.opts
  send_syn env ⟨{ t with opts := opts, state := .SynReceived },[]⟩ true

/-! ## The application -/
inductive Shutdown where
  | Read
  | Write
  | Both
  deriving DecidableEq
/-- The connection after the call, and how many bytes it took. -/
def send_errno (env : Env) (s : Sock) (buf : List Byte) : Sock × Nat :=
  let t := s.tcb
  let failed := s.update (fun t => { t with sk_err := 0 })
  if t.state ≠ .Established ∧ t.state ≠ .CloseWait then (failed,0)
  else if t.sk_err ≠ 0 ∨ t.fin_sent = true then (failed,0)
  else if buf = [] then (s,0)
  else
    let queued := min t.send_buf.unsent_len 4294967295
    if t.notsent_lowat ≤ queued then (s,0)
    else
      let (send_buf,n) := t.send_buf.write (buf.take (min buf.length (t.notsent_lowat - queued)))
      let s := s.update (fun t => { t with send_buf := send_buf })
      if n = 0 then (s,0) else (pump_send env s,n)
def drop_unread (t : Tcb) : Tcb := { t with rcv := { t.rcv with recv_buf := RecvBuf.new t.rcv.recv_buf.limit } }
def queue_fin (t : Tcb) : Tcb :=
  if t.fin_sent = false ∧ (t.state = .Established ∨ t.state = .SynReceived ∨ t.state = .CloseWait) then
    { t with
      fin_sent := true
      fin_seq := t.snd_nxt + BitVec.ofNat 32 t.send_buf.unsent_len
      state := if t.state = .CloseWait then .LastAck else .FinWait1 }
  else t
def do_shutdown (t : Tcb) : Shutdown → Tcb
  | .Read => drop_unread t
  | .Write => queue_fin t
  | .Both => drop_unread (queue_fin t)
def shutdown_errno (env : Env) (s : Sock) (how : Shutdown) : Sock :=
  if s.tcb.state = .Closed ∨ s.tcb.state = .TimeWait then s
  else
    let s := s.update (fun t => if how = .Write then t else { t with rcv_shutdown := true })
    let s := s.update (fun t => if how = .Read then t else do_shutdown t .Write)
    if s.tcb.state = .FinWait1 ∨ s.tcb.state = .LastAck then pump_send env s else s
def need_reset : TcpState → Bool
  | .Established | .CloseWait | .FinWait1 | .FinWait2 | .SynReceived => true
  | _ => false
def close_linger (env : Env) (s : Sock) (zero_linger : Bool) : Sock :=
  let t := s.tcb
  let unread := decide (t.rcv.recv_buf.in_order ≠ [])
  let reset := (unread && decide (t.state ≠ .TimeWait ∧ t.state ≠ .Closed)) || (zero_linger && need_reset t.state)
  if reset || (zero_linger && decide (t.state ≠ .TimeWait)) then
    let s := if reset then send_rst env s t.snd_nxt t.rcv.rcv_nxt else s
    s.update (fun t => { t with state := .Closed })
  else pump_send env (s.update (fun t => arm_orphan_fin_wait2 env (do_shutdown { t with orphan := true } .Both)))
/-- The last advertised window has fallen behind what is free. -/
def receive_window_update_due (t : Tcb) : Prop :=
  let current := t.rcv.recv_buf.window.toNat
  t.rcv_wnd < current ∧ (t.rcv_wnd = 0 ∨ t.rcv_wnd + max t.opts.peer_mss.toNat MIN_MSS ≤ current)
instance (t : Tcb) : Decidable (receive_window_update_due t) := inferInstanceAs (Decidable (_ ∧ _))
def recv_errno (env : Env) (s : Sock) (n : Nat) : Sock :=
  if n = 0 then s
  else if s.tcb.rcv.recv_buf.in_order = [] then
    if s.tcb.fin_received then s else s.update (fun t => { t with sk_err := 0 })
  else
    let s := s.update (fun t => { t with rcv := { t.rcv with recv_buf := (t.rcv.recv_buf.read n).2 } })
    if receive_window_update_due s.tcb then send_ack env s else s
inductive SockOpt where
  | TCP_NODELAY (on : Bool)
  | TCP_CORK (on : Bool)
  | TCP_KEEPALIVE (on : Bool)
  | TCP_KEEPIDLE (secs : Nat)
  | TCP_KEEPINTVL (secs : Nat)
  | TCP_KEEPCNT (count : Nat)
  | TCP_QUICKACK (on : Bool)
  | TCP_MAXSEG (size : Nat)
  | TCP_SYNCNT (count : Nat)
  | TCP_THIN_LINEAR_TIMEOUTS (on : Bool)
  | TCP_NOTSENT_LOWAT (size : Nat)
  /-- Half of `SO_SNDBUF`; the system call caps it at half of `i32::MAX`. -/
  | SO_SNDBUF (half : Nat)
  | SO_RCVBUF (half : Nat)

def SOCK_MIN_SNDBUF : Nat := 4608
def SOCK_MIN_RCVBUF : Nat := 2304
def setsockopt (t : Tcb) : SockOpt → Tcb
  | .TCP_NODELAY on => { t with nagle_enabled := !on }
  | .TCP_CORK on => { t with cork_enabled := on }
  | .TCP_KEEPALIVE on => { t with keepalive_enabled := on }
  | .TCP_KEEPIDLE secs => { t with keepalive_idle_ns := secs * 1000000000 }
  | .TCP_KEEPINTVL secs => { t with keepalive_intvl_ns := secs * 1000000000 }
  | .TCP_KEEPCNT count => { t with keepalive_cnt := min (max count 1) 255 }
  | .TCP_QUICKACK on => { t with quickack_left := if on then 4 else 0 }
  | .TCP_MAXSEG size =>
    let v := min (max size MIN_MSS) 9000
    { t with opts := { t.opts with our_mss := BitVec.ofNat 16 v }, cong := t.cong.set_mss v }
  | .TCP_SYNCNT count => { t with syn_retries := min (max count 1) 127 }
  | .TCP_THIN_LINEAR_TIMEOUTS on => { t with thin_linear_timeouts := on }
  | .TCP_NOTSENT_LOWAT size => { t with notsent_lowat := min size 4294967295 }
  | .SO_SNDBUF half => { t with send_buf := { t.send_buf with limit := max (min half 1073741823 * 2) SOCK_MIN_SNDBUF } }
  | .SO_RCVBUF half =>
    let rcvbuf := max (min half 1073741823 * 2) SOCK_MIN_RCVBUF
    { t with rcv := { t.rcv with recv_buf := { t.rcv.recv_buf with limit := max (rcvbuf / 2) 1 } } }

/-! ## Runs -/
inductive Event where
  | segment (seg : Segment) (parsed : ParsedOptions)
  | tick
  | write (buf : List Byte)
  | shutdown (how : Shutdown)
  | close (zero_linger : Bool)
  | read (n : Nat)
  | setsockopt (opt : SockOpt)
/-- The connection, and every byte the application has written to it. -/
structure Session where
  sock : Sock
  written : List Byte
/-- A closed connection is no longer in the table. -/
def Session.step (env : Env) (s : Session) (e : Event) : Option Session :=
  if s.sock.tcb.state = .Closed then some s
  else
    match e with
    | .segment seg parsed => (process_in_state env s.sock seg parsed).map (fun sock => { s with sock := sock })
    | .tick => some { s with sock := tick_retransmit env s.sock }
    | .write buf =>
      let (sock,n) := send_errno env s.sock buf
      some ⟨sock,s.written ++ buf.take n⟩
    | .shutdown how => some { s with sock := shutdown_errno env s.sock how }
    | .close zero_linger => some { s with sock := close_linger env s.sock zero_linger }
    | .read n => some { s with sock := recv_errno env s.sock n }
    | .setsockopt opt => some { s with sock := s.sock.update (fun t => Tcp.setsockopt t opt) }

inductive Opened : Session → Prop
  | active (env : Env) (iss : SeqNum) (syn_retries : Nat) : Opened ⟨connect env iss syn_retries,[]⟩
  | passive (env : Env) (iss : SeqNum) (seg : Segment) (parsed : ParsedOptions) :
      Opened ⟨accept_into_listen env iss seg parsed,[]⟩

end Narf.Net.Tcp
