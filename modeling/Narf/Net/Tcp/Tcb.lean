import Narf.Net.Sack
import Narf.Net.Tcp.Congestion

namespace Narf.Net.Tcp

/-! A TCP connection. Sequence numbers are 32 bits wide and wrap; window sizes, lengths and times are
    numbers. A socket is its control block together with every segment it has put on the wire. -/

def MAX_OUTSTANDING : Nat := 256
def TIME_WAIT_NS : Nat := 60000000000
def FIN_TIMEOUT_NS : Nat := 60000000000
def DELAYED_ACK_NS : Nat := 40000000
def PERSIST_INITIAL_NS : Nat := 1000000000
def PERSIST_MAX_NS : Nat := 60000000000
def DEFAULT_RCV_BUF : Nat := 262144
def DEFAULT_SND_BUF : Nat := 262144
def DEFAULT_WSCALE : Nat := 7
def DEFAULT_MSS : Nat := 1460
def MIN_MSS : Nat := 536
inductive TcpState where
  | Closed
  | Listen
  | SynSent
  | SynReceived
  | Established
  | FinWait1
  | FinWait2
  | CloseWait
  | Closing
  | LastAck
  | TimeWait
  deriving DecidableEq

def TcpState.is_synchronised : TcpState → Bool
  | .Established | .FinWait1 | .FinWait2 | .CloseWait | .Closing | .LastAck | .TimeWait => true
  | _ => false

/-! ## Options -/
/-- What an arriving segment's options say; the parser caps the window scale at 14. -/
structure ParsedOptions where
  mss : Option (BitVec 16)
  wscale : Option (Fin 15)
  sack_permitted : Bool
  timestamps : Option (BitVec 32 × BitVec 32)
  sack_blocks : List SackBlock
structure OptionsState where
  peer_mss : BitVec 16
  our_mss : BitVec 16
  our_wscale : Nat
  peer_wscale : Fin 15
  timestamps_active : Bool
  sack_active : Bool
  ts_recent : BitVec 32
  ts_recent_at_cycles : Nat
/-- The `net.ipv4.tcp_*` switches for window scaling, timestamps and SACK. -/
structure Sysctl where
  ws_ok : Bool
  ts_ok : Bool
  sack_ok : Bool

namespace OptionsState
def new : OptionsState := ⟨BitVec.ofNat 16 DEFAULT_MSS,BitVec.ofNat 16 DEFAULT_MSS,DEFAULT_WSCALE,0,false,false,0,0⟩
variable (o : OptionsState)
def negotiate (sysctl : Sysctl) (peer : ParsedOptions) : OptionsState :=
  let o := match peer.mss with
    | some m => { o with peer_mss := BitVec.ofNat 16 (max (min m.toNat o.our_mss.toNat) MIN_MSS) }
    | none => o
  let o := match peer.wscale,sysctl.ws_ok with
    | some ws,true => { o with peer_wscale := ws, our_wscale := DEFAULT_WSCALE }
    | _,_ => { o with peer_wscale := 0, our_wscale := 0 }
  let o := if peer.timestamps.isSome ∧ sysctl.ts_ok then { o with timestamps_active := true } else o
  if peer.sack_permitted ∧ sysctl.sack_ok then { o with sack_active := true } else o
def encode_our_window (effective : Nat) : BitVec 16 :=
  BitVec.ofNat 16 (min (effective / 2 ^ o.our_wscale) 65535)
/-- Reject a segment whose timestamp is older than the last one seen. -/
def paws_reject (peer_tsval : BitVec 32) (now wrap : Nat) : Bool :=
  o.timestamps_active && decide (1 < (o.ts_recent - peer_tsval).toInt) && decide (now - o.ts_recent_at_cycles < wrap) &&
    decide (o.ts_recent ≠ 0)
def update_ts_recent (peer_tsval : BitVec 32) (now : Nat) : OptionsState :=
  if 0 ≤ (peer_tsval - o.ts_recent).toInt then { o with ts_recent := peer_tsval, ts_recent_at_cycles := now } else o
def max_sack_blocks : Nat :=
  let used := if o.timestamps_active then 12 else 0
  min ((40 - used - 4) / 8) MAX_SACK_BLOCKS
def data_options_len (sack_blocks : Nat) : Nat :=
  let n := if o.timestamps_active then 12 else 0
  if o.sack_active ∧ 0 < sack_blocks then n + 4 + 8 * min sack_blocks o.max_sack_blocks else n
end OptionsState

/-! ## The control block -/
/-- The send sequence space, and what of the stream is kept. -/
structure SendSpace where
  iss : SeqNum
  snd_una : SeqNum
  snd_nxt : SeqNum
  snd_high : SeqNum
  snd_wnd : Nat
  send_buf : SendBuf
  fin_sent : Bool
  fin_seq : SeqNum
  retx_queue : List OutSeg
/-- What the sender reads and writes. -/
structure Sender extends SendSpace where
  snd_wl1 : SeqNum
  snd_wl2 : SeqNum
  rtt : RttEstimator
  retx_deadline_cycles : Nat
  rto_count : Nat
  total_retrans : Nat
  cong : CcState
  flightsize : Nat
  scoreboard : List SackBlock
  persist_deadline_cycles : Nat
  persist_backoff_ns : Nat
  nagle_enabled : Bool
  cork_enabled : Bool
  thin_linear_timeouts : Bool
  syn_retries : Nat
  notsent_lowat : Nat
/-- The connection; `egress` is the interface once resolved, here the size of its largest super-frame. -/
structure Tcb extends Sender where
  state : TcpState
  rcv : Receiver
  rcv_wnd : Nat
  rcv_wup : SeqNum
  rcv_mss_seen : Nat
  irs : SeqNum
  opts : OptionsState
  delayed_ack_deadline_cycles : Nat
  quickack_left : Nat
  keepalive_enabled : Bool
  keepalive_idle_ns : Nat
  keepalive_intvl_ns : Nat
  keepalive_cnt : Nat
  keepalive_probes_sent : Nat
  last_progress_cycles : Nat
  time_wait_deadline_cycles : Nat
  orphan : Bool
  fin_received : Bool
  sk_err : Nat
  sk_err_soft : Nat
  rcv_shutdown : Bool
  egress : Option Nat

def Tcb.new_active (iss : SeqNum) : Tcb where
  iss := iss
  snd_una := iss
  snd_nxt := iss
  snd_high := iss
  snd_wnd := 0
  snd_wl1 := 0
  snd_wl2 := 0
  send_buf := SendBuf.new DEFAULT_SND_BUF (iss + 1)
  fin_sent := false
  fin_seq := 0
  rtt := RttEstimator.new
  retx_queue := []
  retx_deadline_cycles := 0
  rto_count := 0
  total_retrans := 0
  cong := CcState.new DEFAULT_MSS
  flightsize := 0
  scoreboard := []
  persist_deadline_cycles := 0
  persist_backoff_ns := PERSIST_INITIAL_NS
  nagle_enabled := true
  cork_enabled := false
  thin_linear_timeouts := false
  syn_retries := 6
  notsent_lowat := 4294967295
  state := .Closed
  rcv := Receiver.new DEFAULT_RCV_BUF 0
  rcv_wnd := DEFAULT_RCV_BUF
  rcv_wup := 0
  rcv_mss_seen := 0
  irs := 0
  opts := OptionsState.new
  delayed_ack_deadline_cycles := 0
  quickack_left := 0
  keepalive_enabled := false
  keepalive_idle_ns := 7200000000000
  keepalive_intvl_ns := 75000000000
  keepalive_cnt := 9
  keepalive_probes_sent := 0
  last_progress_cycles := 0
  time_wait_deadline_cycles := 0
  orphan := false
  fin_received := false
  sk_err := 0
  sk_err_soft := 0
  rcv_shutdown := false
  egress := none
/-- A segment on the wire, or an arriving one without its options. -/
structure Segment where
  seq : SeqNum
  ack : SeqNum
  flags : Flags
  window : BitVec 16
  payload : List Byte
  deriving DecidableEq
structure Sock where
  tcb : Tcb
  wire : List Segment
/-- What the code reads from outside: the clock and its conversions, the interface that the route to the
    peer leads to, the switches and the congestion control policy. -/
structure Env where
  now : Nat
  ns_to_cycles : Nat → Nat
  cycles_to_ns : Nat → Nat
  egress : Option Nat
  sysctl : Sysctl
  cc : CongestionControl
def Env.cycles_per_ms (env : Env) : Nat := max (env.ns_to_cycles 1000000) 1
/-- When a timer set now for this long is due. -/
def Env.after (env : Env) (ns : Nat) : Nat := env.now + env.ns_to_cycles ns
def Sock.emit (s : Sock) (seg : Segment) : Sock := { s with wire := s.wire ++ [seg] }
def Sock.update (s : Sock) (f : Tcb → Tcb) : Sock := { s with tcb := f s.tcb }
end Narf.Net.Tcp
