import Narf.Lib.Table
import Narf.Net.Checksum

namespace Narf.Net.Netfilter
open Lib

/-! Masquerading: the tuple of a packet, the rewriting of addresses and ports with their checksums,
    and the two hooks over the connection table and the port table of one network namespace. Words
    and ports are natural numbers below 65536. -/

structure Ipv4Addr where
  a : Byte
  b : Byte
  c : Byte
  d : Byte
  deriving DecidableEq
/-- The first two bytes as a word, and the last two. -/
def Ipv4Addr.hi (ip : Ipv4Addr) : Nat := be ip.a ip.b
def Ipv4Addr.lo (ip : Ipv4Addr) : Nat := be ip.c ip.d
def Ipv4Addr.bytes (ip : Ipv4Addr) : List Byte := [ip.a,ip.b,ip.c,ip.d]
/-- `u32::from_be_bytes`. -/
def Ipv4Addr.toBits (ip : Ipv4Addr) : BitVec 32 := ip.a ++ ip.b ++ ip.c ++ ip.d
inductive L4Proto where
  | Icmp | Tcp | Udp
  | Other (p : Byte)
def L4Proto.from_u8 (p : Byte) : L4Proto :=
  if p = 1 then .Icmp else if p = 6 then .Tcp else if p = 17 then .Udp else .Other p
structure Tuple where
  src_ip : Ipv4Addr
  dst_ip : Ipv4Addr
  src_port : Nat
  dst_port : Nat
  proto : Byte
  deriving DecidableEq
def Tuple.invert (t : Tuple) : Tuple := ⟨t.dst_ip,t.src_ip,t.dst_port,t.src_port,t.proto⟩
def IPV4_OFF_PROTO : Nat := 9
def IPV4_OFF_SRC : Nat := 12
def IPV4_OFF_DST : Nat := 16
def IPV4_MIN_HDR_LEN : Nat := 20
def L4_OFF_SPORT : Nat := 0
def L4_OFF_DPORT : Nat := 2

/-! ## Parsing -/
variable (packet : List Byte)
def ipv4_l4_offset : Option Nat :=
  if packet.length < IPV4_MIN_HDR_LEN then none
  else
    let ihl := (byte_of packet 0 &&& 0x0f).toNat * 4
    if ihl < IPV4_MIN_HDR_LEN ∨ packet.length < ihl then none else some ihl
def ipv4_is_later_fragment : Bool :=
  decide (8 ≤ packet.length ∧ word_of packet 6 % 0x2000 ≠ 0)
def addr_of (i : Nat) : Ipv4Addr :=
  ⟨byte_of packet i,byte_of packet (i + 1),byte_of packet (i + 2),byte_of packet (i + 3)⟩
def parse_tuple_ipv4 : Option Tuple :=
  match ipv4_l4_offset packet with
  | none => none
  | some ihl =>
    let later_fragment := ipv4_is_later_fragment packet
    if later_fragment = false ∧ packet.length < ihl + 4 then none
    else
      let proto := byte_of packet IPV4_OFF_PROTO
      let src_ip := addr_of packet IPV4_OFF_SRC
      let dst_ip := addr_of packet IPV4_OFF_DST
      if later_fragment then some ⟨src_ip,dst_ip,0,0,proto⟩
      else
        match L4Proto.from_u8 proto with
        | .Tcp | .Udp =>
          some ⟨src_ip,dst_ip,word_of packet (ihl + L4_OFF_SPORT),word_of packet (ihl + L4_OFF_DPORT),proto⟩
        | .Icmp =>
          if packet.length - ihl < 8 then none
          else some ⟨src_ip,dst_ip,word_of packet ihl,word_of packet (ihl + 4),proto⟩
        | .Other _ => some ⟨src_ip,dst_ip,0,0,proto⟩

/-! ## Rewriting -/
def csum_incremental (old_csum old_word new_word : Nat) : Nat :=
  let hc := complement old_csum
  let m := complement old_word
  let mp := new_word
  let sum := hc + m + mp
  let folded := sum % 65536 + sum / 65536
  let folded := folded % 65536 + folded / 65536
  complement (folded % 65536)
def l4_rewrite_offset : Option Nat :=
  if ipv4_is_later_fragment packet then none else ipv4_l4_offset packet
/-- A computed UDP checksum of zero is sent as all ones. -/
def put_l4_csum (at_ : Nat) (proto : Byte) (value : Nat) : List Byte :=
  let value := if value = 0 ∧ proto = 17 then 0xffff else value
  put_word packet at_ value
/-- Where the transport checksum is, when the header reaches that far. -/
def csum_off (proto : Byte) (l4_len : Nat) : Option Nat :=
  match L4Proto.from_u8 proto with
  | .Tcp => if 18 ≤ l4_len then some 16 else none
  | .Udp => if 8 ≤ l4_len then some 6 else none
  | _ => none
/-- Bring the transport checksum up to date; a UDP checksum of zero means there is none. -/
def update_l4_csum (l4_off : Nat) (proto : Byte) (update : Nat → Nat) : List Byte :=
  match csum_off proto (packet.length - l4_off) with
  | none => packet
  | some off =>
    let cur := word_of packet (l4_off + off)
    if cur ≠ 0 ∨ proto = 6 then put_l4_csum packet (l4_off + off) proto (update cur) else packet
def put_addr (i : Nat) (ip : Ipv4Addr) : List Byte :=
  (((packet.set i ip.a).set (i + 1) ip.b).set (i + 2) ip.c).set (i + 3) ip.d
/-- Both words of an address in one checksum. -/
def csum_addr (csum : Nat) (old new : Ipv4Addr) : Nat :=
  csum_incremental (csum_incremental csum old.hi new.hi) old.lo new.lo
/-- `rewrite_src_ip` and `rewrite_dst_ip` differ in the offset only. -/
def rewrite_ip (off : Nat) (packet : List Byte) (new : Ipv4Addr) : List Byte :=
  let old := addr_of packet off
  let packet := put_addr packet off new
  let packet := put_word packet 10 (csum_addr (word_of packet 10) old new)
  let proto := byte_of packet 9
  match l4_rewrite_offset packet with
  | none => packet
  | some l4_off => update_l4_csum packet l4_off proto (fun cur => csum_addr cur old new)
def rewrite_src_ip : List Byte → Ipv4Addr → List Byte := rewrite_ip IPV4_OFF_SRC
def rewrite_dst_ip : List Byte → Ipv4Addr → List Byte := rewrite_ip IPV4_OFF_DST
/-- `rewrite_src_port` and `rewrite_dst_port` differ in the offset only. -/
def rewrite_port (off : Nat) (packet : List Byte) (new_port : Nat) : List Byte :=
  let proto := byte_of packet 9
  match l4_rewrite_offset packet with
  | none => packet
  | some l4_off =>
    if packet.length - l4_off < 4 then packet
    else
      let old := word_of packet (l4_off + off)
      let packet := put_word packet (l4_off + off) new_port
      update_l4_csum packet l4_off proto (fun cur => csum_incremental cur old new_port)
def rewrite_src_port : List Byte → Nat → List Byte := rewrite_port L4_OFF_SPORT
def rewrite_dst_port : List Byte → Nat → List Byte := rewrite_port L4_OFF_DPORT

/-! ## The connection table -/
def UDP_DEFAULT_EXPIRY_NS : Nat := 30 * 1000000000
def ICMP_DEFAULT_EXPIRY_NS : Nat := 30 * 1000000000
def TCP_SYN_SENT_EXPIRY_NS : Nat := 120 * 1000000000
def TCP_ESTABLISHED_EXPIRY_NS : Nat := 5 * 60 * 1000000000
def TCP_FIN_WAIT_EXPIRY_NS : Nat := 120 * 1000000000
def TCP_TIME_WAIT_EXPIRY_NS : Nat := 120 * 1000000000
def TCP_CLOSE_EXPIRY_NS : Nat := 10 * 1000000000
inductive CtState where
  | New | Established | Related | Invalid
  deriving DecidableEq
inductive TcpCtState where
  | SynSent | SynRecv | Established | FinWait | CloseWait | LastAck | TimeWait | Close
  deriving DecidableEq
structure ConntrackEntry where
  id : Nat
  original : Tuple
  reply : Tuple
  state : CtState
  tcp_state : Option TcpCtState
  last_seen_ns : Nat
  expires_at_ns : Nat
  deriving DecidableEq

namespace ConntrackEntry
def new (id : Nat) (original : Tuple) (now_ns : Nat) : ConntrackEntry :=
  let (tcp_state,expiry) := match L4Proto.from_u8 original.proto with
    | .Tcp => (some TcpCtState.SynSent,TCP_SYN_SENT_EXPIRY_NS)
    | .Udp => (none,UDP_DEFAULT_EXPIRY_NS)
    | .Icmp => (none,ICMP_DEFAULT_EXPIRY_NS)
    | .Other _ => (none,UDP_DEFAULT_EXPIRY_NS)
  ⟨id,original,original.invert,.New,tcp_state,now_ns,now_ns + expiry⟩
def set_nat_reply (e : ConntrackEntry) (reply : Tuple) : ConntrackEntry := { e with reply }
def refresh_expiry (e : ConntrackEntry) (now_ns : Nat) : ConntrackEntry :=
  let exp := match L4Proto.from_u8 e.original.proto with
    | .Tcp => match e.tcp_state with
      | some .SynSent | some .SynRecv => TCP_SYN_SENT_EXPIRY_NS
      | some .Established => TCP_ESTABLISHED_EXPIRY_NS
      | some .FinWait | some .CloseWait | some .LastAck => TCP_FIN_WAIT_EXPIRY_NS
      | some .TimeWait => TCP_TIME_WAIT_EXPIRY_NS
      | some .Close => TCP_CLOSE_EXPIRY_NS
      | none => TCP_ESTABLISHED_EXPIRY_NS
    | .Udp => UDP_DEFAULT_EXPIRY_NS
    | .Icmp => ICMP_DEFAULT_EXPIRY_NS
    | .Other _ => UDP_DEFAULT_EXPIRY_NS
  { e with last_seen_ns := now_ns, expires_at_ns := now_ns + exp }
end ConntrackEntry

def TCP_FIN : Byte := 0x01
def TCP_SYN : Byte := 0x02
def TCP_RST : Byte := 0x04
def TCP_ACK : Byte := 0x10
def next_tcp_state (cur : TcpCtState) (flags : Byte) (is_reply : Bool) : TcpCtState :=
  let syn := flags &&& TCP_SYN != 0
  let ack := flags &&& TCP_ACK != 0
  let fin := flags &&& TCP_FIN != 0
  let rst := flags &&& TCP_RST != 0
  if rst then .Close
  else match cur with
    | .SynSent => if is_reply && syn && ack then .SynRecv else if syn then .SynSent else cur
    | .SynRecv => if !is_reply && ack && !syn then .Established else cur
    | .Established => if fin then .FinWait else cur
    | .FinWait => if fin then .TimeWait else cur
    | .TimeWait | .CloseWait | .LastAck | .Close => cur
def tcp_advance (e : ConntrackEntry) (flags : Byte) (is_reply : Bool) (now_ns : Nat) : ConntrackEntry :=
  let new := next_tcp_state (e.tcp_state.getD .SynSent) flags is_reply
  let state := match new with
    | .Established => CtState.Established
    | .SynSent | .SynRecv => CtState.New
    | .FinWait | .CloseWait | .LastAck | .TimeWait | .Close => CtState.Established
  { e with tcp_state := some new, state }.refresh_expiry now_ns
def reply_seen (e : ConntrackEntry) (is_reply : Bool) : ConntrackEntry :=
  if is_reply && e.state == .New then { e with state := .Established } else e
structure Conntrack where
  by_tuple : Table Tuple Nat
  by_id : Table Nat ConntrackEntry
  -- a 64-bit counter, taken never to wrap
  next_id : Nat
  max_entries : Nat

namespace Conntrack
def new (max_entries : Nat) : Conntrack := ⟨.empty,.empty,1,max_entries⟩
variable (ct : Conntrack)
def lookup (t : Tuple) : Option ConntrackEntry := (ct.by_tuple.get t).bind ct.by_id.get
/-- The entry seen longest ago, the one with the smaller id where two were seen at once. -/
def oldest (entries : List (Nat × ConntrackEntry)) : Option (Nat × ConntrackEntry) :=
  entries.foldl (fun best e =>
    match best with
    | none => some e
    | some old =>
      if e.2.last_seen_ns < old.2.last_seen_ns ∨ (e.2.last_seen_ns = old.2.last_seen_ns ∧ e.1 < old.1) then some e
      else some old) none
def evict_oldest : Conntrack :=
  match oldest ct.by_id.entries with
  | none => ct
  | some (victim_id,e) =>
    { ct with by_id := ct.by_id.remove victim_id, by_tuple := (ct.by_tuple.remove e.original).remove e.reply }
def make_room : Conntrack := if ct.max_entries ≤ ct.by_id.entries.length then ct.evict_oldest else ct
def insert_new (original : Tuple) (now_ns : Nat) : ConntrackEntry × Conntrack :=
  match ct.lookup original with
  | some e => (e,ct)
  | none =>
    let ct := ct.make_room
    let entry := ConntrackEntry.new ct.next_id original now_ns
    (entry,{ ct with
      next_id := ct.next_id + 1,
      by_tuple := (ct.by_tuple.set original entry.id).set entry.reply entry.id,
      by_id := ct.by_id.set entry.id entry })
def update_reply_tuple (id : Nat) (old_reply new_reply : Tuple) : Conntrack :=
  { ct with by_tuple := (ct.by_tuple.remove old_reply).set new_reply id }
/-- An entry goes, and with it whatever stands under its two tuples. -/
def forget (id : Nat) : Conntrack :=
  match ct.by_id.get id with
  | none => ct
  | some e => { ct with by_id := ct.by_id.remove id, by_tuple := (ct.by_tuple.remove e.original).remove e.reply }
def stale_ids (now_ns : Nat) : List Nat :=
  (ct.by_id.entries.filter (fun e => e.2.expires_at_ns ≤ now_ns)).map Prod.fst
def reap_expired (now_ns : Nat) : Conntrack × Nat :=
  ((ct.stale_ids now_ns).foldl forget ct,(ct.stale_ids now_ns).length)
def victim : Option Nat := (oldest ct.by_id.entries).map Prod.fst
def modify (id : Nat) (f : ConntrackEntry → ConntrackEntry) : Option Conntrack :=
  (ct.by_id.get id).map (fun e => { ct with by_id := ct.by_id.set id (f e) })
end Conntrack

/-! ## The port table -/
def NAT_PORT_RANGE_LO : Nat := 32768
def NAT_PORT_RANGE_HI : Nat := 60999
structure MasqRule where
  iface : String
  net : Ipv4Addr
  pfx : Nat
  iface_ip : Ipv4Addr
/-- Prefixes are 0 to 32, so the subtraction is exact. -/
def MasqRule.matches (r : MasqRule) (addr : Ipv4Addr) : Bool :=
  let mask := if r.pfx = 0 then 0#32 else BitVec.allOnes 32 <<< (32 - r.pfx)
  r.net.toBits &&& mask == addr.toBits &&& mask
abbrev EgressKey := Ipv4Addr × Nat × Byte
abbrev Endpoint := Ipv4Addr × Nat
structure NatTable where
  rules : List MasqRule
  egress_map : Table EgressKey Endpoint
  by_ct : Table Nat Endpoint
  next_port : Nat

namespace NatTable
def new (rules : List MasqRule) : NatTable := ⟨rules,.empty,.empty,NAT_PORT_RANGE_LO⟩
variable (nat : NatTable)
def lookup_rule (iface_out : String) (src_ip : Ipv4Addr) : Option MasqRule :=
  nat.rules.find? (fun r => r.iface = iface_out && r.matches src_ip)
/-- The first free port of the range, in `left` more tries from the cursor on. -/
def scan_ports (free : Nat → Bool) (start : Nat) : Nat → Nat → Option Nat
  | _, 0 => none
  | i, left + 1 =>
    let span := NAT_PORT_RANGE_HI - NAT_PORT_RANGE_LO + 1
    let p := NAT_PORT_RANGE_LO + (start - NAT_PORT_RANGE_LO + i) % span
    if free p then some p else scan_ports free start (i + 1) left
/-- The port and the cursor after it. -/
def allocate_port (iface_ip : Ipv4Addr) (proto : Byte) (original_port : Nat) : Option (Nat × Nat) :=
  let free (port : Nat) := (nat.egress_map.get (iface_ip,port,proto)).isNone
  if free original_port then some (original_port,nat.next_port)
  else
    let span := NAT_PORT_RANGE_HI - NAT_PORT_RANGE_LO + 1
    (scan_ports free nat.next_port 0 span).map (fun p => (p,(p + 1) % 65536))
def insert_mapping (ct_id : Nat) (iface_ip : Ipv4Addr) (nat_port : Nat) (orig_src : Ipv4Addr) (orig_port : Nat) (proto : Byte) : NatTable :=
  { nat with
    egress_map := nat.egress_map.set (iface_ip,nat_port,proto) (orig_src,orig_port),
    by_ct := nat.by_ct.set ct_id (iface_ip,nat_port) }
def lookup_ct (ct_id : Nat) : Option Endpoint := nat.by_ct.get ct_id
def lookup_ingress (dst_ip : Ipv4Addr) (dst_port : Nat) (proto : Byte) : Option Endpoint :=
  nat.egress_map.get (dst_ip,dst_port,proto)
end NatTable

/-! ## The hooks -/
inductive Verdict where
  | Drop | Accept
/-- The tables of one network namespace. -/
structure Gateway where
  nat : NatTable
  ct : Conntrack

namespace Gateway
def new (rules : List MasqRule) (max_entries : Nat) : Gateway := ⟨.new rules,.new max_entries⟩
/-- The connection of a packet, tracked from now on if it was not. -/
def track (g : Gateway) (tuple : Tuple) (now : Nat) : ConntrackEntry × Conntrack :=
  match g.ct.lookup tuple with
  | some e => (e,g.ct)
  | none => g.ct.insert_new tuple now
/-- The state update of `conntrack_hook`. -/
def note_packet (entry : ConntrackEntry) (tuple : Tuple) (packet : List Byte) (now : Nat) : ConntrackEntry :=
  let is_reply := tuple != entry.original
  match L4Proto.from_u8 tuple.proto with
  | .Tcp =>
    match ipv4_l4_offset packet with
    | none => entry
    | some o =>
      -- a later fragment carries no TCP header
      if !ipv4_is_later_fragment packet && o + 13 < packet.length then
        tcp_advance entry (byte_of packet (o + 13)) is_reply now
      else entry
  | .Udp => (reply_seen entry is_reply).refresh_expiry now
  | .Icmp => (reply_seen entry is_reply).refresh_expiry now
  | .Other _ => entry.refresh_expiry now
def conntrack_hook (g : Gateway) (now : Nat) (packet : List Byte) : Gateway :=
  match parse_tuple_ipv4 packet with
  | none => g
  | some tuple =>
    let (entry,ct) := g.track tuple now
    { g with ct := { ct with by_id := ct.by_id.set entry.id (note_packet entry tuple packet now) } }
def snat_postrouting (g : Gateway) (now : Nat) (iface_out : String) (packet : List Byte) : Gateway × Verdict × List Byte :=
  match parse_tuple_ipv4 packet with
  | none => (g,.Accept,packet)
  | some tuple =>
    match g.nat.lookup_rule iface_out tuple.src_ip with
    | none => (g,.Accept,packet)
    | some rule =>
      let (entry,ct) := g.track tuple now
      match g.nat.lookup_ct entry.id with
      | some (nat_ip,nat_port) =>
        ({ g with ct },.Accept,rewrite_src_port (rewrite_src_ip packet nat_ip) nat_port)
      | none =>
        match g.nat.allocate_port rule.iface_ip tuple.proto tuple.src_port with
        | none => ({ g with ct },.Drop,packet)
        | some (nat_port,next_port) =>
          let nat := { g.nat with next_port }.insert_mapping entry.id rule.iface_ip nat_port tuple.src_ip tuple.src_port
            tuple.proto
          let new_reply : Tuple := ⟨tuple.dst_ip,rule.iface_ip,tuple.dst_port,nat_port,tuple.proto⟩
          let old_reply := entry.reply
          let ct := { ct with by_id := ct.by_id.set entry.id (entry.set_nat_reply new_reply) }
          let ct := ct.update_reply_tuple entry.id old_reply new_reply
          (⟨nat,ct⟩,.Accept,rewrite_src_port (rewrite_src_ip packet rule.iface_ip) nat_port)
def dnat_prerouting (g : Gateway) (packet : List Byte) : List Byte :=
  match parse_tuple_ipv4 packet with
  | none => packet
  | some tuple =>
    match g.nat.lookup_ingress tuple.dst_ip tuple.dst_port tuple.proto with
    | none => packet
    | some (orig_ip,orig_port) => rewrite_dst_port (rewrite_dst_ip packet orig_ip) orig_port
end Gateway
end Narf.Net.Netfilter
