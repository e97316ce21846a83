import Narf.Net.Checksum
import Narf.Net.RecvBuf

namespace Narf.Net.Gro

/-! Receive offload: consecutive segments of one TCP flow are held and merged into one frame. Frames
    are Ethernet frames; the offsets are from their first byte. -/

abbrev ETH_HDR_LEN : Nat := 14
abbrev IPV4_HDR_LEN : Nat := 20
def MAX_FLOWS : Nat := 8
def MAX_GRO_BYTES : Nat := 65000
def FLAG_FIN : Byte := 1
def FLAG_SYN : Byte := 2
def FLAG_RST : Byte := 4
def FLAG_PSH : Byte := 8
def FLAG_ACK : Byte := 16
def FLAG_URG : Byte := 32
def NON_COALESCE_FLAGS : Byte := FLAG_SYN ||| FLAG_FIN ||| FLAG_RST ||| FLAG_URG
variable (frame : List Byte)
/-- `frame[start..start + len]`. -/
def bytes_of (start len : Nat) : List Byte := (frame.drop start).take len
def seq_of (i : Nat) : SeqNum := BitVec.ofNat 32 (word_of frame i * 65536 + word_of frame (i + 2))
structure FlowKey where
  src : List Byte
  dst : List Byte
  src_port : Nat
  dst_port : Nat
  deriving DecidableEq
/-- One flow in progress, with the interface its frames came in by. -/
structure Held where
  iface : String
  key : FlowKey
  frame : List Byte
  tcp_off : Nat
  tcp_header_len : Nat
  next_seq : SeqNum
  segs : Nat
  mss : Nat
  ip_id : Nat
  fixed_id : Option Bool

inductive Disposition where
  | Held
  | Deliver (verified : Bool)
abbrev Released := String × List Byte
structure Parsed where
  key : FlowKey
  tcp_off : Nat
  tcp_header_len : Nat
  seq : SeqNum
  flags : Byte
  payload_len : Nat
  ip_id : Nat
/-- An unfragmented, unpadded IPv4 segment without IP options whose checksums are right. -/
def parse_ipv4_tcp : Option Parsed :=
  let eth := ETH_HDR_LEN
  if frame.length < eth + IPV4_HDR_LEN then none
  else if byte_of frame eth ≠ 0x45 ∨ byte_of frame (eth + 9) ≠ 6 then none
  else if word_of frame (eth + 6) % 0x4000 ≠ 0 then none
  else if eth + word_of frame (eth + 2) ≠ frame.length then none
  else if ip_checksum (bytes_of frame eth IPV4_HDR_LEN) ≠ 0 then none
  else
    let tcp_off := eth + IPV4_HDR_LEN
    if frame.length < tcp_off + 20 then none
    else
      let data_off := (byte_of frame (tcp_off + 12)).toNat / 16 * 4
      if ¬ (20 ≤ data_off ∧ data_off ≤ 60) ∨ frame.length < tcp_off + data_off then none
      else
        let src := bytes_of frame (eth + 12) 4
        let dst := bytes_of frame (eth + 16) 4
        if ipv4_pseudo_checksum src dst (frame.drop tcp_off) ≠ 0 then none
        else some {
          key := ⟨src,dst,word_of frame tcp_off,word_of frame (tcp_off + 2)⟩
          tcp_off := tcp_off
          tcp_header_len := data_off
          seq := seq_of frame (tcp_off + 4)
          flags := byte_of frame (tcp_off + 13)
          payload_len := frame.length - tcp_off - data_off
          ip_id := word_of frame (eth + 4) }
def flow_key_of : Option FlowKey :=
  let eth := ETH_HDR_LEN
  if frame.length < eth + IPV4_HDR_LEN ∨ (byte_of frame eth).toNat / 16 ≠ 4 ∨ byte_of frame (eth + 9) ≠ 6 then none
  else
    let tcp_off := eth + (byte_of frame eth).toNat % 16 * 4
    if frame.length < tcp_off + 4 then none
    else some ⟨bytes_of frame (eth + 12) 4,bytes_of frame (eth + 16) 4,word_of frame tcp_off,word_of frame (tcp_off + 2)⟩
def df : Nat := word_of frame (ETH_HDR_LEN + 6) / 0x4000 % 2
def can_merge (h : Held) (frame : List Byte) (p : Parsed) : Bool :=
  let eth := ETH_HDR_LEN
  let held := h.frame
  let ht := h.tcp_off
  let pt := p.tcp_off
  if p.seq ≠ h.next_seq ∨ p.tcp_header_len ≠ h.tcp_header_len ∨
      (byte_of held (ht + 13) ^^^ p.flags) &&& ~~~FLAG_PSH ≠ 0 ∨ bytes_of held (ht + 8) 4 ≠ bytes_of frame (pt + 8) 4 ∨
      bytes_of held (ht + 14) 2 ≠ bytes_of frame (pt + 14) 2 ∨
      bytes_of held (ht + 20) (h.tcp_header_len - 20) ≠ bytes_of frame (pt + 20) (p.tcp_header_len - 20) then false
  else if h.mss < p.payload_len then false
  else if byte_of held (eth + 8) ≠ byte_of frame (eth + 8) ∨ byte_of held (eth + 1) ≠ byte_of frame (eth + 1) ∨
      df held ≠ df frame then false
  else
    let fixed := h.fixed_id.getD (decide (p.ip_id = h.ip_id))
    let expected := if fixed then h.ip_id else (h.ip_id + h.segs) % 65536
    if p.ip_id ≠ expected then false
    else decide (held.length - ht - h.tcp_header_len + p.payload_len ≤ MAX_GRO_BYTES)
def set_ipv4_checksum (at_ : Nat) : List Byte :=
  let frame := put_word frame (at_ + 10) 0
  put_word frame (at_ + 10) (ip_checksum (bytes_of frame at_ IPV4_HDR_LEN))
/-- The merged frame with its total length and both checksums. -/
def finalize (h : Held) : Released :=
  if h.segs = 1 then (h.iface,h.frame)
  else
    let eth := ETH_HDR_LEN
    let frame := put_word h.frame (eth + 2) ((h.frame.length - eth) % 65536)
    let frame := put_word frame (eth + 10) 0
    let frame := set_ipv4_checksum frame eth
    let src := bytes_of frame (eth + 12) 4
    let dst := bytes_of frame (eth + 16) 4
    let frame := put_word frame (h.tcp_off + 16) 0
    let cs := ipv4_pseudo_checksum src dst (frame.drop h.tcp_off)
    (h.iface,put_word frame (h.tcp_off + 16) cs)
/-- The first flow with this key and interface, with what is held before and after it. -/
def position (key : FlowKey) (iface : String) : List Held → Option (List Held × Held × List Held)
  | [] => none
  | h :: rest =>
    if h.key = key ∧ h.iface = iface then some ([],h,rest)
    else (position key iface rest).map (fun out => (h :: out.1,out.2))
def merge (h : Held) (frame : List Byte) (p : Parsed) : Held :=
  let data_start := p.tcp_off + p.tcp_header_len
  { h with
    frame := h.frame.set (h.tcp_off + 13) (byte_of h.frame (h.tcp_off + 13) ||| (p.flags &&& FLAG_PSH)) ++ frame.drop data_start
    next_seq := h.next_seq + BitVec.ofNat 32 p.payload_len
    fixed_id := if h.segs = 1 then some (decide (p.ip_id = h.ip_id)) else h.fixed_id
    segs := min (h.segs + 1) 65535 }
def start (held : List Held) (iface : String) (frame : List Byte) (p : Parsed) (flushed : List Released) :
    List Held × List Released × Disposition :=
  if p.flags &&& FLAG_PSH ≠ 0 then (held,flushed,.Deliver true)
  else
    let (held,flushed) :=
      if MAX_FLOWS ≤ held.length then (held.tail,flushed ++ (held.head?.map finalize).toList) else (held,flushed)
    let fresh : Held := {
      iface := iface
      key := p.key
      frame := frame
      tcp_off := p.tcp_off
      tcp_header_len := p.tcp_header_len
      next_seq := p.seq + BitVec.ofNat 32 p.payload_len
      segs := 1
      mss := p.payload_len
      ip_id := p.ip_id
      fixed_id := none }
    (held ++ [fresh],flushed,.Held)
/-- The flows held after the frame, the frames flushed before it and what becomes of it. -/
def offer (held : List Held) (iface : String) (frame : List Byte) : List Held × List Released × Disposition :=
  match parse_ipv4_tcp frame with
  | none =>
    match (flow_key_of frame).bind (fun key => position key iface held) with
    | some (before,h,after) => (before ++ after,[finalize h],.Deliver false)
    | none => (held,[],.Deliver false)
  | some p =>
    let held_idx := position p.key iface held
    if p.flags &&& NON_COALESCE_FLAGS ≠ 0 ∨ p.payload_len = 0 ∨ p.flags &&& FLAG_ACK = 0 then
      match held_idx with
      | some (before,h,after) => (before ++ after,[finalize h],.Deliver true)
      | none => (held,[],.Deliver true)
    else
      match held_idx with
      | some (before,h,after) =>
        if can_merge h frame p then
          let h := merge h frame p
          let full := MAX_GRO_BYTES ≤ h.frame.length - h.tcp_off - h.tcp_header_len
          if p.flags &&& FLAG_PSH ≠ 0 ∨ p.payload_len < h.mss ∨ full then (before ++ after,[finalize h],.Held)
          else (before ++ h :: after,[],.Held)
        else start (before ++ after) iface frame p [finalize h]
      | none => start held iface frame p []
def flush (held : List Held) : List Released := held.map finalize
end Narf.Net.Gro
