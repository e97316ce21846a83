import Narf.Net.RecvBuf

namespace Narf.Net.Tcp

/-! The send side's byte queue, the retransmit records and the timeout estimate. -/
def seq_geq (a b : SeqNum) : Bool := decide (0 ≤ (a - b).toInt)
def seq_leq (a b : SeqNum) : Bool := decide ((a - b).toInt ≤ 0)
def add32 (a b : Nat) : Nat := min (a + b) 4294967295

/-! ## The send buffer -/
/-- The bytes not acknowledged yet; the first `sent_offset` of them have been sent. -/
structure SendBuf where
  bytes : List Byte
  unacked_head_seq : SeqNum
  sent_offset : Nat
  limit : Nat

namespace SendBuf
def new (limit : Nat) (isn : SeqNum) : SendBuf := ⟨[],isn,0,limit⟩
variable (buf : SendBuf)
def write (data : List Byte) : SendBuf × Nat :=
  let n := min data.length (buf.limit - buf.bytes.length)
  ({ buf with bytes := buf.bytes ++ data.take n },n)
def unsent_len : Nat := buf.bytes.length - buf.sent_offset
/-- Up to `n` bytes from `sent_offset` on. -/
def unsent_slices (n : Nat) : List Byte := (buf.bytes.drop buf.sent_offset).take (min buf.unsent_len n)
def mark_sent (n : Nat) : SendBuf :=
  { buf with sent_offset := min (buf.sent_offset + n) buf.bytes.length }
def ack (ack_seq : SeqNum) : SendBuf :=
  let n := min (ack_seq - buf.unacked_head_seq).toNat buf.bytes.length
  { buf with
    bytes := buf.bytes.drop n
    unacked_head_seq := buf.unacked_head_seq + BitVec.ofNat 32 n
    sent_offset := buf.sent_offset - n }
def rewind_for_retransmit : SendBuf := { buf with sent_offset := 0 }
def seq_at_sent_offset : SeqNum := buf.unacked_head_seq + BitVec.ofNat 32 buf.sent_offset
end SendBuf

/-! ## Retransmit records -/
structure Flags where
  syn : Bool
  ack : Bool
  fin : Bool
  psh : Bool
  rst : Bool
  deriving DecidableEq
def Flags.none : Flags := ⟨false,false,false,false,false⟩
def Flags.union (a b : Flags) : Flags := ⟨a.syn || b.syn,a.ack || b.ack,a.fin || b.fin,a.psh || b.psh,a.rst || b.rst⟩
structure OutSeg where
  seq : SeqNum
  len : Nat
  sent_at_cycles : Nat
  retransmitted : Bool
  flags : Flags
def OutSeg.end_seq (seg : OutSeg) : SeqNum := seg.seq + BitVec.ofNat 32 seg.len

/-! ## The retransmission timeout -/
def RTO_MIN_NS : Nat := 200000000
def RTO_MAX_NS : Nat := 60000000000
def RTO_INITIAL_NS : Nat := 1000000000
def RTO_GRANULARITY_NS : Nat := 1000000
def MAX_RETRANSMITS : Nat := 7
structure RttEstimator where
  srtt_ns : Nat
  rttvar_ns : Nat
  rto_ns : Nat
  valid : Bool
  backoff_count : Nat

namespace RttEstimator
def new : RttEstimator := ⟨0,0,RTO_INITIAL_NS,false,0⟩
def clamp (rto : Nat) : Nat := min (max rto RTO_MIN_NS) RTO_MAX_NS
def current_rto (e : RttEstimator) : Nat := clamp e.rto_ns
def sample (e : RttEstimator) (rtt_ns : Nat) : RttEstimator :=
  let (srtt,rttvar) :=
    if e.valid then
      let diff := max e.srtt_ns rtt_ns - min e.srtt_ns rtt_ns
      (e.srtt_ns - e.srtt_ns / 8 + rtt_ns / 8,e.rttvar_ns - e.rttvar_ns / 4 + diff / 4)
    else (rtt_ns,rtt_ns / 2)
  ⟨srtt,rttvar,clamp (srtt + max RTO_GRANULARITY_NS (4 * rttvar)),true,0⟩
/-- Whether there is another try, and the estimate for it. -/
def back_off_with_limit (e : RttEstimator) (limit : Nat) (linear : Bool) : Bool × RttEstimator :=
  let count := add32 e.backoff_count 1
  if limit < count then (false,{ e with backoff_count := count })
  else if linear then (true,{ e with backoff_count := count })
  else (true,{ e with backoff_count := count, rto_ns := clamp (e.rto_ns * 2) })
end RttEstimator
end Narf.Net.Tcp
