import Narf.Net.NatRun

namespace Narf.Net.Netfilter
open Lib

/-! Packets of any kind through the two hooks. The tuple of an ICMP message has its type and code for
    a source port, and a later fragment or a packet of another protocol has port zero; the port
    table knows nothing of that. It leaves such packets alone as long as it was given none. -/

/-! ## Which bytes change -/
/-- The bytes a translation may change: the addresses, the header checksum, and the ports and the checksum of a
    TCP or UDP header that the packet has. -/
def EndpointByte (packet : List Byte) (i : Nat) : Prop :=
  (10 ≤ i ∧ i < 20) ∨ ∃ l4, l4_rewrite_offset packet = some l4 ∧ (byte_of packet 9 = 6 ∨ byte_of packet 9 = 17) ∧
    ((l4 ≤ i ∧ i < l4 + 4) ∨ (l4 + csum_at (byte_of packet 9) ≤ i ∧ i < l4 + csum_at (byte_of packet 9) + 2))
/-- The packets differ in such bytes only. -/
def SameElsewhere (packet packet' : List Byte) : Prop :=
  packet'.length = packet.length ∧ ∀ i, ¬ EndpointByte packet i → byte_of packet' i = byte_of packet i

section Bytes
variable {packet : List Byte} {off l4 : Nat}
lemma offset_of_rewrite (found : l4_rewrite_offset packet = some l4) : ipv4_l4_offset packet = some l4 := by
  unfold l4_rewrite_offset at found
  split at found
  · cases found
  · exact found
lemma csum_at_of_off {proto : Byte} {n c : Nat} (found : csum_off proto n = some c) : c = csum_at proto ∧ (proto = 6 ∨ proto = 17) := by
  obtain ⟨⟨tcp,at_⟩ | ⟨udp,at_⟩,_⟩ := csum_off_cases found
  · refine ⟨?_,.inl tcp⟩
    rw [at_,tcp]
    rfl
  · refine ⟨?_,.inr udp⟩
    rw [at_,udp]
    rfl
lemma length_rewrite_ip (new : Ipv4Addr) : (rewrite_ip off packet new).length = packet.length := by
  rw [rewrite_ip,put_addr_eq]
  split
  · simp [length_put_word]
  · simp [length_update,length_put_word]
/-- Storing an address changes endpoint bytes only, whatever the packet is. -/
lemma rewrite_ip_elsewhere (place : off = 12 ∨ off = 16) (new : Ipv4Addr) : SameElsewhere packet (rewrite_ip off packet new) := by
  refine ⟨length_rewrite_ip new,fun i outside => ?_⟩
  have far : ¬ (10 ≤ i ∧ i < 20) := fun inside => outside (.inl inside)
  have header (c j : Nat) (away : ¬ (10 ≤ j ∧ j < 20)) :
      byte_of (put_word (put_word (put_word packet off new.hi) (off + 2) new.lo) 10 c) j = byte_of packet j := by
    rw [byte_of_put_word (by omega),byte_of_put_word (by omega),byte_of_put_word (by omega)]
  simp only [rewrite_ip,put_addr_eq]
  generalize csum : csum_addr _ (addr_of packet off) new = c
  have same : l4_rewrite_offset (put_word (put_word (put_word packet off new.hi) (off + 2) new.lo) 10 c) =
      l4_rewrite_offset packet :=
    rewrite_offset_congr (by simp only [length_put_word]) (fun j early => header c j (by omega))
  split
  · exact header c i far
  · next l4 found =>
    rw [same] at found
    rw [byte_of_update,header c i far]
    intro n reach
    obtain ⟨rfl,kind⟩ := csum_at_of_off reach
    rw [header c 9 (by omega)] at kind ⊢
    by_contra inside
    exact outside (.inr ⟨l4,found,kind,.inr (by omega)⟩)
lemma rewrite_port_elsewhere (place : off = 0 ∨ off = 2)
    (kind : byte_of packet 9 = 6 ∨ byte_of packet 9 = 17 ∨ l4_rewrite_offset packet = none) (port : Nat) :
    SameElsewhere packet (rewrite_port off packet port) := by
  rw [rewrite_port]
  split
  · exact ⟨rfl,fun _ _ => rfl⟩
  next l4 found =>
  have header : byte_of packet 9 = 6 ∨ byte_of packet 9 = 17 := by
    rcases kind with tcp | udp | none
    · exact .inl tcp
    · exact .inr udp
    · rw [found] at none
      cases none
  split
  · exact ⟨rfl,fun _ _ => rfl⟩
  · refine ⟨by rw [length_update,length_put_word],fun i outside => ?_⟩
    have ports : ¬ (l4 ≤ i ∧ i < l4 + 4) := fun inside => outside (.inr ⟨l4,found,header,.inl inside⟩)
    rw [byte_of_update,byte_of_put_word (by omega)]
    intro n reach
    obtain ⟨rfl,_⟩ := csum_at_of_off reach
    by_contra inside
    exact outside (.inr ⟨l4,found,header,.inr (by omega)⟩)
lemma endpoint_congr {packet' : List Byte} (same : SameElsewhere packet packet') (i : Nat) :
    EndpointByte packet' i ↔ EndpointByte packet i := by
  obtain ⟨length,bytes⟩ := same
  have early (j : Nat) (small : j < 10) : byte_of packet' j = byte_of packet j := by
    refine bytes j ?_
    rintro (inside | ⟨l4,found,_,inside⟩)
    · omega
    · have := offset_bounds (offset_of_rewrite found)
      omega
  rw [EndpointByte,EndpointByte,rewrite_offset_congr length early,early 9 (by decide)]
lemma SameElsewhere.trans {packet' packet'' : List Byte} (first : SameElsewhere packet packet')
    (second : SameElsewhere packet' packet'') : SameElsewhere packet packet'' := by
  refine ⟨second.1.trans first.1,fun i outside => ?_⟩
  rw [second.2 i (mt (endpoint_congr first i).mp outside)]
  exact first.2 i outside
end Bytes

/-! ## Runs -/
namespace Session
variable {s : Session} {packet : List Byte}
/-- An outgoing packet that a rule matches has a TCP or UDP header and a source port. -/
def Ported (s : Session) : Event → Prop
  | .out _ iface_out packet =>
    ∀ t rule, parse_tuple_ipv4 packet = some t → s.gateway.nat.lookup_rule iface_out t.src_ip = some rule →
      (byte_of packet 9 = 6 ∨ byte_of packet 9 = 17) ∧ ipv4_is_later_fragment packet = false ∧ t.src_port ≠ 0
  | .back _ => True
/-- Any number of packets of any kind that keep `Ported`. -/
def Passes : Session → Session → Prop := Relation.ReflTransGen (fun s s' => ∃ event, s.Ported event ∧ s' = s.step event)
/-- Every mapping is for a port of TCP or UDP. -/
def PortsOnly (s : Session) : Prop :=
  ∀ ip port proto pair, s.gateway.nat.egress_map.get (ip,port,proto) = some pair → (proto = 6 ∨ proto = 17) ∧ port ≠ 0
lemma parse_spec {t : Tuple} (parsed : parse_tuple_ipv4 packet = some t) :
    t.proto = byte_of packet 9 ∧ 20 ≤ packet.length ∧ t.src_port < 65536 ∧ (ipv4_is_later_fragment packet → t.dst_port = 0) := by
  unfold parse_tuple_ipv4 at parsed
  split at parsed
  · cases parsed
  next ihl offset =>
  have bounds := offset_bounds offset
  dsimp only at parsed
  split at parsed
  · cases parsed
  split at parsed
  · cases parsed
    exact ⟨rfl,by omega,Nat.zero_lt_succ _,fun _ => rfl⟩
  next whole =>
  split at parsed
  · cases parsed
    exact ⟨rfl,by omega,word_of_lt _ _,fun later => absurd later whole⟩
  · cases parsed
    exact ⟨rfl,by omega,word_of_lt _ _,fun later => absurd later whole⟩
  · split at parsed
    · cases parsed
    · cases parsed
      exact ⟨rfl,by omega,word_of_lt _ _,fun later => absurd later whole⟩
  · cases parsed
    exact ⟨rfl,by omega,Nat.zero_lt_succ _,fun later => absurd later whole⟩
variable {event : Event}
lemma ports_only_step (ports : s.PortsOnly) (ported : s.Ported event) : (s.step event).PortsOnly := by
  cases event with
  | back packet => exact ports
  | out now iface_out packet =>
    cases parsed : parse_tuple_ipv4 packet with
    | none =>
      have same : s.gateway.snat_postrouting now iface_out packet = (s.gateway,.Accept,packet) := by
        rw [Gateway.snat_postrouting,parsed]
      simp only [PortsOnly,step,same]
      exact ports
    | some t =>
      have outcome := @snat_outcome packet now iface_out t s.gateway parsed
      generalize result : s.gateway.snat_postrouting now iface_out packet = out at outcome
      simp only [PortsOnly,step,result]
      cases outcome with
      | untouched | dropped | reused => exact ports
      | mapped rule port next_port matched absent allocated =>
        obtain ⟨kind,_,nonzero⟩ := ported t rule parsed matched
        obtain ⟨proto,_,small,_⟩ := parse_spec parsed
        obtain ⟨_,own,_⟩ := allocate_port_spec small allocated
        intro ip port' proto' pair found
        rcases Table.get_set_iff.mp found with ⟨⟨⟩,_⟩ | ⟨_,found⟩
        · rw [proto]
          exact ⟨kind,by omega⟩
        · exact ports ip port' proto' pair found
lemma ports_only_passes {s' : Session} (run : Passes s s') (ports : s.PortsOnly) : s'.PortsOnly := by
  induction run with
  | refl => exact ports
  | tail _ last before =>
    obtain ⟨event,ported,rfl⟩ := last
    exact ports_only_step before ported
/-- A packet that comes in is translated in a TCP or UDP header or not at all. -/
lemma back_kinds (ports : s.PortsOnly) (packet : List Byte) : s.gateway.dnat_prerouting packet = packet ∨
      (byte_of packet 9 = 6 ∨ byte_of packet 9 = 17) ∧ ipv4_is_later_fragment packet = false ∧
        ∃ ip port, s.gateway.dnat_prerouting packet = rewrite_dst_port (rewrite_dst_ip packet ip) port := by
  unfold Gateway.dnat_prerouting
  split
  · exact .inl rfl
  next t parsed =>
  split
  · exact .inl rfl
  next ip port found =>
  obtain ⟨proto,_,_,later⟩ := parse_spec parsed
  obtain ⟨kind,nonzero⟩ := ports _ _ _ _ found
  rw [proto] at kind
  refine .inr ⟨kind,?_,ip,port,rfl⟩
  by_contra fragment
  exact nonzero (later (by simpa using fragment))
/-- A header's packet keeps its kind under the first half of a translation. -/
lemma both_elsewhere (kind : byte_of packet 9 = 6 ∨ byte_of packet 9 = 17) {addr port : Nat}
    (place : addr = 12 ∧ port = 0 ∨ addr = 16 ∧ port = 2) (ip : Ipv4Addr) (new_port : Nat) :
    SameElsewhere packet (rewrite_port port (rewrite_ip addr packet ip) new_port) := by
  have first := @rewrite_ip_elsewhere packet addr (by omega) ip
  have nine : byte_of (rewrite_ip addr packet ip) 9 = byte_of packet 9 := by
    refine first.2 9 ?_
    rintro (inside | ⟨l4,found,_,inside⟩)
    · omega
    · have := offset_bounds (offset_of_rewrite found)
      omega
  refine first.trans (rewrite_port_elsewhere (by omega) ?_ new_port)
  rw [nine]
  rcases kind with tcp | udp
  · exact .inl tcp
  · exact .inr (.inl udp)
/-- What goes on is the packet itself, or it has a TCP or UDP header and differs in its endpoint. -/
lemma emit_kinds (ports : s.PortsOnly) (ported : s.Ported event) {out : List Byte} (emitted : s.emit event = some out) :
    out = event.packet ∨ (byte_of event.packet 9 = 6 ∨ byte_of event.packet 9 = 17) ∧ SameElsewhere event.packet out := by
  cases event with
  | back packet =>
    cases emitted
    rcases back_kinds ports packet with same | ⟨kind,_,ip,port,rewritten⟩
    · exact .inl same
    · rw [rewritten]
      exact .inr ⟨kind,both_elsewhere kind (.inr ⟨rfl,rfl⟩) ip port⟩
  | out now iface_out packet =>
    cases parsed : parse_tuple_ipv4 packet with
    | none =>
      simp only [emit,Gateway.snat_postrouting,parsed] at emitted
      exact .inl (Option.some.inj emitted).symm
    | some t =>
      have outcome := @snat_outcome packet now iface_out t s.gateway parsed
      rw [emit] at emitted
      generalize s.gateway.snat_postrouting now iface_out packet = result at outcome emitted
      cases outcome with
      | untouched missing => exact .inl (Option.some.inj emitted).symm
      | dropped rule matched absent => cases emitted
      | reused rule ip port matched found =>
        have kind := (ported t rule parsed matched).1
        cases emitted
        exact .inr ⟨kind,both_elsewhere kind (.inl ⟨rfl,rfl⟩) ip port⟩
      | mapped rule port next_port matched absent allocated =>
        have kind := (ported t rule parsed matched).1
        cases emitted
        exact .inr ⟨kind,both_elsewhere kind (.inl ⟨rfl,rfl⟩) rule.iface_ip port⟩
/-- In every run whose outgoing packets that a rule matches all have a TCP or UDP header and a source port, packets of
    every kind keep everything but their endpoint, every ICMP message stays as it is, and so does every ICMP message
    and every later fragment that comes in: none is sent to an internal host. -/
theorem nat_leaves_alone (rules : List MasqRule) (max_entries : Nat) (s : Session) (run : Passes (new rules max_entries) s) :
    (∀ event out, s.Ported event → s.emit event = some out → SameElsewhere event.packet out) ∧
    (∀ event out, s.Ported event → s.emit event = some out → byte_of event.packet 9 = 1 → out = event.packet) ∧
    (∀ packet, byte_of packet 9 = 1 ∨ ipv4_is_later_fragment packet = true → s.emit (.back packet) = some packet) := by
  have ports : s.PortsOnly := ports_only_passes run (fun _ _ _ _ found => by cases found)
  have icmp {b : Byte} (kind : b = 6 ∨ b = 17) (one : b = 1) : False := by
    rw [one] at kind
    exact absurd kind (by decide)
  refine ⟨fun event out ported emitted => ?_,fun event out ported emitted one => ?_,fun packet kinds => ?_⟩
  · rcases emit_kinds ports ported emitted with rfl | ⟨_,same⟩
    · exact ⟨rfl,fun _ _ => rfl⟩
    · exact same
  · rcases emit_kinds ports ported emitted with same | ⟨kind,_⟩
    · exact same
    · exact (icmp kind one).elim
  · rw [emit]
    rcases back_kinds ports packet with same | ⟨kind,whole,_⟩
    · rw [same]
    · rcases kinds with one | later
      · exact (icmp kind one).elim
      · rw [later] at whole
        cases whole

/-! Packets of the two internal hosts 10.0.0.2 and 10.0.0.3, and what comes back for the second. -/
def ping_first : List Byte := [69,0,0,28,0,0,0,0,64,1,96,208,10,0,0,2,8,8,8,8,8,0,247,253,0,1,0,1]
def ping_second : List Byte := [69,0,0,28,0,0,0,0,64,1,96,207,10,0,0,3,8,8,8,8,8,0,239,254,8,0,0,1]
def pong_second : List Byte := [69,0,0,28,0,0,0,0,64,1,102,204,8,8,8,8,1,2,3,4,0,0,247,254,8,0,0,1]
def gre_first : List Byte := [69,0,0,24,0,0,0,0,64,47,96,166,10,0,0,2,8,8,8,8,48,1,136,11]
def fragment_first : List Byte := [69,0,0,28,0,7,0,1,64,17,96,184,10,0,0,2,8,8,8,8,1,2,3,4,5,6,7,8]
def port_zero_first : List Byte := [69,0,0,28,0,0,0,0,64,17,96,192,10,0,0,2,8,8,8,8,0,0,0,53,0,8,0,0]
def query_second : List Byte := [69,0,0,28,0,0,0,0,64,17,96,191,10,0,0,3,8,8,8,8,19,136,0,53,0,8,0,0]
def answer_head : List Byte := [69,0,0,28,0,9,32,0,64,17,70,179,8,8,8,8,1,2,3,4,0,53,19,136,0,16,0,0]
def answer_tail : List Byte := [69,0,0,28,0,9,0,1,64,17,102,178,8,8,8,8,1,2,3,4,1,2,3,4,5,6,7,8]
/-- After a query the later fragment of an answer comes in as it is. -/
theorem nat_leaves_alone_query : ∃ s, Passes (new [inside_rule] 4096) s ∧ s.flows ≠ [] ∧ s.emit (.back answer_tail) = some answer_tail := by
  have ported : (new [inside_rule] 4096).Ported (.out 0 "wan" query_second) := by
    intro t rule parsed _
    have tuple : parse_tuple_ipv4 query_second = some ⟨⟨10,0,0,3⟩,⟨8,8,8,8⟩,5000,53,17⟩ := by decide
    rw [tuple] at parsed
    cases parsed
    exact ⟨by decide,by decide,by decide⟩
  have run : Passes (new [inside_rule] 4096) ((new [inside_rule] 4096).step (.out 0 "wan" query_second)) :=
    .single ⟨.out 0 "wan" query_second,ported,rfl⟩
  exact ⟨_,run,by decide,(nat_leaves_alone [inside_rule] 4096 _ run).2.2 answer_tail (.inr (by decide))⟩
/-- The second host's ping goes out with another type; the answer to it goes to the first host; a packet of another
    protocol loses its first bytes; and after a later fragment, or a packet from port zero, of the first host, the rest
    of an answer whose head went to the second host goes to the first. -/
theorem nat_corrupts : (∃ out, ((new [inside_rule] 4096).step (.out 0 "wan" ping_first)).emit (.out 1 "wan" ping_second) = some out ∧
      byte_of ping_second 20 = 8 ∧ byte_of out 20 = 128) ∧
    (∃ out, (((new [inside_rule] 4096).step (.out 0 "wan" ping_first)).step (.out 1 "wan" ping_second)).emit
      (.back pong_second) = some out ∧ addr_of out 16 = ⟨10,0,0,2⟩) ∧
    (∃ out, (new [inside_rule] 4096).emit (.out 0 "wan" gre_first) = some out ∧ word_of gre_first 20 ≠ word_of out 20) ∧
    ∀ first ∈ [fragment_first,port_zero_first], ∃ head tail,
      (((new [inside_rule] 4096).step (.out 0 "wan" first)).step (.out 1 "wan" query_second)).emit (.back answer_head) =
        some head ∧ addr_of head 16 = ⟨10,0,0,3⟩ ∧
      (((new [inside_rule] 4096).step (.out 0 "wan" first)).step (.out 1 "wan" query_second)).emit (.back answer_tail) =
        some tail ∧ addr_of tail 16 = ⟨10,0,0,2⟩ := by
  refine ⟨⟨_,rfl,by decide,by decide⟩,⟨_,rfl,by decide⟩,⟨_,rfl,by decide⟩,fun first member => ?_⟩
  simp only [List.mem_cons,List.not_mem_nil,or_false] at member
  rcases member with rfl | rfl
  · exact ⟨_,_,rfl,by decide,rfl,by decide⟩
  · exact ⟨_,_,rfl,by decide,rfl,by decide⟩
end Session
end Narf.Net.Netfilter
