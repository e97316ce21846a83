import Narf.Net.Tcp.SendBuf

namespace Narf.Net.Tcp

/-! Congestion control: the window and the policies that move it. The policy of a socket can be
    replaced at any time; what holds below for every policy holds across replacements. -/

structure CcState where
  cwnd : Nat
  ssthresh : Nat
  bytes_acked_in_window : Nat
  mss : Nat
  dup_ack_count : Nat
  in_recovery : Bool
  recover_point : SeqNum
  w_max : Nat
  k_ms : Nat
  epoch_start_cycles : Nat
  cycles_per_ms : Nat

namespace CcState
def new (mss : Nat) : CcState :=
  let mss := max mss 536
  ⟨min (mss * 10) 4294967295,4294967295,0,mss,0,false,0,0,0,0,1000000⟩

variable (s : CcState)
def set_mss (mss : Nat) : CcState := { s with mss := max mss 536 }
/-- Whether this is the third duplicate. -/
def on_dup_ack : Bool × CcState :=
  if s.in_recovery then (false,s)
  else
    let count := min (s.dup_ack_count + 1) 255
    (decide (count = 3),{ s with dup_ack_count := count })
def clear_dup_acks : CcState := { s with dup_ack_count := 0 }
def clear_recovery_if_passed (snd_una : SeqNum) : CcState :=
  if s.in_recovery ∧ seq_geq snd_una s.recover_point then
    { s with in_recovery := false, cwnd := max s.ssthresh s.mss, bytes_acked_in_window := 0, dup_ack_count := 0 }
  else s
def cbrt_step (factor x : Nat) : Nat :=
  let x := if x = 0 then 1 else x
  (2 * x + factor / (x * x)) / 3
def note_loss_epoch (now cycles_per_ms : Nat) : CcState :=
  let factor := s.cwnd * 3 / 4
  let x := (List.range 6).foldl (fun x _ => cbrt_step factor x) (max 1 (factor / 1000))
  { s with
    w_max := s.cwnd
    k_ms := min (x * 1000) 4294967295
    epoch_start_cycles := now
    cycles_per_ms := max cycles_per_ms 1 }
end CcState
/-- What a policy does on an acknowledgement, a fast retransmit and a timeout. -/
structure CongestionControl where
  on_ack : CcState → Nat → Nat → CcState
  on_loss : CcState → SeqNum → Nat → Nat → CcState
  on_rto : CcState → Nat → Nat → Nat → CcState

/-! ## Shared by the two policies -/
def on_loss (s : CcState) (snd_nxt : SeqNum) (now cycles_per_ms : Nat) : CcState :=
  let s := s.note_loss_epoch now cycles_per_ms
  let ssthresh := max (s.cwnd / 2) (2 * s.mss)
  { s with ssthresh := ssthresh, cwnd := add32 ssthresh (3 * s.mss), in_recovery := true, recover_point := snd_nxt }
def on_rto (s : CcState) (in_flight now cycles_per_ms : Nat) : CcState :=
  let s := s.note_loss_epoch now cycles_per_ms
  { s with ssthresh := max (in_flight / 2) (2 * s.mss), cwnd := s.mss, in_recovery := false, dup_ack_count := 0 }
/-- Slow start below the threshold, the policy's own step above it. -/
def on_ack (ca_step : CcState → Nat → Nat → CcState) (s : CcState) (acked now : Nat) : CcState :=
  if acked = 0 then s
  else if s.in_recovery then s
  else if s.cwnd < s.ssthresh then { s with cwnd := add32 s.cwnd (min acked s.mss) }
  else ca_step s acked now

/-! ## NewReno -/
/-- The loop of the additive increase; a positive window makes every round consume bytes. -/
def Reno.increase : Nat → CcState → CcState
  | 0, s => s
  | fuel + 1, s =>
    if s.cwnd ≤ s.bytes_acked_in_window then
      Reno.increase fuel
        { s with bytes_acked_in_window := s.bytes_acked_in_window - s.cwnd, cwnd := add32 s.cwnd s.mss }
    else s
def Reno.ca_step (s : CcState) (acked _now : Nat) : CcState :=
  let s := { s with bytes_acked_in_window := add32 s.bytes_acked_in_window acked }
  Reno.increase s.bytes_acked_in_window s
def Reno : CongestionControl := ⟨on_ack Reno.ca_step,on_loss,on_rto⟩

/-! ## CUBIC -/
/-- Saturating and wrapping `i64`. -/
def sat64 (x : Int) : Int := max (-9223372036854775808) (min x 9223372036854775807)
def wrap64 (x : Int) : Int := Int.bmod x 18446744073709551616
def Cubic.target (s : CcState) (now : Nat) : Nat :=
  let elapsed := (((now : Int) - s.epoch_start_cycles) % 18446744073709551616).toNat
  let t_ms := elapsed / max s.cycles_per_ms 1
  let dt := wrap64 (wrap64 t_ms - s.k_ms)
  let dt3 := sat64 (sat64 (dt * dt) * dt)
  let increment := ((wrap64 (4 * dt3)).tdiv 10).tdiv 1000000000
  (min (max (sat64 (s.w_max + increment)) s.mss) 4294967295).toNat
def Cubic.ca_step (s : CcState) (acked now : Nat) : CcState :=
  let target := Cubic.target s now
  let s := { s with bytes_acked_in_window := add32 s.bytes_acked_in_window acked }
  if s.cwnd ≤ s.bytes_acked_in_window then
    { s with bytes_acked_in_window := s.bytes_acked_in_window - s.cwnd, cwnd := max target (add32 s.cwnd s.mss) }
  else { s with cwnd := max target s.cwnd }
def Cubic : CongestionControl := ⟨on_ack Cubic.ca_step,on_loss,on_rto⟩
end Narf.Net.Tcp
