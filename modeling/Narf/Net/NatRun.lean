import Narf.Net.NatRewrite

namespace Narf.Net.Netfilter
open Lib List Option
open Table (get_remove get_set get_remove_iff get_set_iff)

/-! Masquerading over whole runs: which tuple each pair of address and port was given to, and where
    an answer to it goes. -/

/-! ## The connection table -/
/-- Ids are given out once, and a tuple leads to a connection of its protocol. -/
structure Conntrack.Consistent (ct : Conntrack) : Prop where
  tuple_id : ∀ k id, ct.by_tuple.get k = some id → id < ct.next_id
  entry_id : ∀ id e, ct.by_id.get id = some e → e.id = id ∧ id < ct.next_id
  proto : ∀ k id e, ct.by_tuple.get k = some id → ct.by_id.get id = some e → k.proto = e.reply.proto

namespace Conntrack
variable {ct : Conntrack} {t : Tuple} {now : Nat}
lemma consistent_new (max_entries : Nat) : (new max_entries).Consistent where
  tuple_id _ _ found := by cases found
  entry_id _ _ found := by cases found
  proto _ _ _ found := by cases found
variable {e : ConntrackEntry} {id : Nat}
lemma get_of_lookup (found : ct.lookup t = some e) :
    ∃ id, ct.by_tuple.get t = some id ∧ ct.by_id.get id = some e := bind_eq_some_iff.mp found
lemma forget_eq (entry : ct.by_id.get id = some e) :
    ct.forget id = { ct with by_id := ct.by_id.remove id, by_tuple := (ct.by_tuple.remove e.original).remove e.reply } := by
  rw [forget,entry]
lemma Consistent.forget (consistent : ct.Consistent) (id : Nat) : (ct.forget id).Consistent := by
  cases entry : ct.by_id.get id with
  | none =>
    rw [Conntrack.forget,entry]
    exact consistent
  | some e =>
    rw [forget_eq entry]
    have tuples (k : Tuple) (other : Nat) (found : ((ct.by_tuple.remove e.original).remove e.reply).get k = some other) :
        ct.by_tuple.get k = some other := (get_remove_iff.mp (get_remove_iff.mp found).2).2
    exact ⟨fun k other found => consistent.tuple_id k other (tuples k other found),
      fun other x found => consistent.entry_id other x (get_remove_iff.mp found).2,
      fun k other x known found => consistent.proto k other x (tuples k other known) (get_remove_iff.mp found).2⟩
lemma forget_get (ct : Conntrack) (id other : Nat) : (ct.forget id).by_id.get other = if other = id then none else ct.by_id.get other := by
  cases entry : ct.by_id.get id with
  | none =>
    rw [forget,entry]
    by_cases same : other = id
    · rw [if_pos same,same,entry]
    · rw [if_neg same]
  | some e => rw [forget_eq entry,get_remove]
lemma forget_fields (ct : Conntrack) (id : Nat) : (ct.forget id).max_entries = ct.max_entries ∧ (ct.forget id).next_id = ct.next_id := by
  unfold forget
  split
  · exact ⟨rfl,rfl⟩
  · exact ⟨rfl,rfl⟩
/-- A fold that keeps the best so far or takes the next ends in one of them. -/
lemma foldl_picks {α : Type} {f : Option α → α → Option α} (picks : ∀ best e, f (some best) e = some e ∨ f (some best) e = some best)
    (rest : List α) (best : α) : ∃ e ∈ best :: rest, rest.foldl f (some best) = some e := by
  induction rest generalizing best with
  | nil => exact ⟨best,mem_cons_self,rfl⟩
  | cons first rest ih =>
    rw [foldl_cons]
    rcases picks best first with next | kept
    · rw [next]
      obtain ⟨e,mem,result⟩ := ih first
      exact ⟨e,mem_cons_of_mem _ mem,result⟩
    · rw [kept]
      obtain ⟨e,mem,result⟩ := ih best
      refine ⟨e,?_,result⟩
      rcases mem_cons.mp mem with rfl | later
      · exact mem_cons_self
      · exact mem_cons_of_mem _ (mem_cons_of_mem _ later)
lemma oldest_mem (entries : List (Nat × ConntrackEntry)) :
    (entries = [] ∧ oldest entries = none) ∨ ∃ e ∈ entries, oldest entries = some e := by
  cases entries with
  | nil => exact .inl ⟨rfl,rfl⟩
  | cons first rest =>
    refine .inr (foldl_picks (fun best e => ?_) rest first)
    dsimp only
    split
    · exact .inl rfl
    · exact .inr rfl
lemma evict_oldest_eq (ct : Conntrack) : (ct.by_id.entries = [] ∧ ct.evict_oldest = ct) ∨ ∃ id e, ct.by_id.get id = some e ∧
      ct.evict_oldest = ct.forget id ∧ ct.victim = some id := by
  rcases oldest_mem ct.by_id.entries with ⟨empty,none⟩ | ⟨e,mem,some⟩
  · refine .inl ⟨empty,?_⟩
    rw [evict_oldest,none]
  · have entry := Table.get_of_mem mem
    refine .inr ⟨e.1,e.2,entry,?_,?_⟩
    · rw [evict_oldest,some,forget_eq entry]
    · rw [victim,some,map_some]
lemma Consistent.evict_oldest (consistent : ct.Consistent) : ct.evict_oldest.Consistent := by
  rcases evict_oldest_eq ct with ⟨_,same⟩ | ⟨id,_,_,same,_⟩
  · rw [same]; exact consistent
  · rw [same]; exact consistent.forget id
lemma evict_oldest_get (found : ct.evict_oldest.by_id.get id = some e) : ct.by_id.get id = some e := by
  rcases evict_oldest_eq ct with ⟨_,same⟩ | ⟨victim,_,_,same,_⟩
  · rw [same] at found; exact found
  · rw [same,forget_get] at found
    split at found
    · cases found
    · exact found
lemma evict_oldest_next : ct.evict_oldest.next_id = ct.next_id := by
  rcases evict_oldest_eq ct with ⟨_,same⟩ | ⟨id,_,_,same,_⟩
  · rw [same]
  · rw [same]; exact (forget_fields ct id).2
/-- What tracking a tuple gives: a connection of the table, the one the tuple led to or a new one. -/
structure Tracked (ct : Conntrack) (t : Tuple) (e : ConntrackEntry) (ct' : Conntrack) : Prop where
  consistent : ct'.Consistent
  entry : ct'.by_id.get e.id = some e
  proto : t.proto = e.reply.proto
  fresh : ct.lookup t = some e ∧ ct' = ct ∨ ct.lookup t = none ∧ e.id = ct.next_id
  more : ct.next_id ≤ ct'.next_id
  old : ∀ id x, ct'.by_id.get id = some x → id < ct.next_id → ct.by_id.get id = some x
lemma tracked_insert (consistent : ct.Consistent) (absent : ct.lookup t = none) :
    Tracked ct t (ct.insert_new t now).1 (ct.insert_new t now).2 := by
  unfold insert_new
  rw [absent]
  dsimp only
  generalize evicted : ct.make_room = base
  have sound : base.Consistent := by
    rw [← evicted,make_room]
    split
    · exact consistent.evict_oldest
    · exact consistent
  have next : base.next_id = ct.next_id := by
    rw [← evicted,make_room]
    split
    · exact evict_oldest_next
    · rfl
  have kept (id : Nat) (x : ConntrackEntry) (found : base.by_id.get id = some x) : ct.by_id.get id = some x := by
    rw [← evicted,make_room] at found
    split at found
    · exact evict_oldest_get found
    · exact found
  generalize made : ConntrackEntry.new base.next_id t now = entry
  have named : entry.id = base.next_id := by rw [← made]; rfl
  have proto : t.proto = entry.reply.proto := by rw [← made]; rfl
  refine ⟨⟨?_,?_,?_⟩,?_,proto,.inr ⟨absent,named.trans next⟩,by dsimp only; omega,?_⟩
  · intro k id found
    simp only [get_set_iff] at found ⊢
    rcases found with ⟨_,rfl⟩ | ⟨_,⟨_,rfl⟩ | ⟨_,found⟩⟩
    · omega
    · omega
    · have := sound.tuple_id k id found
      omega
  · intro id x found
    dsimp only at found ⊢
    rcases get_set_iff.mp found with ⟨same,rfl⟩ | ⟨_,found⟩
    · exact ⟨same.symm,by omega⟩
    · have := sound.entry_id id x found
      exact ⟨this.1,by omega⟩
  · intro k id x known found
    simp only [get_set_iff] at known found
    rcases found with ⟨same,rfl⟩ | ⟨other,found⟩
    · rcases known with ⟨rfl,_⟩ | ⟨_,⟨rfl,_⟩ | ⟨_,known⟩⟩
      · rfl
      · exact proto
      · have := sound.tuple_id k id known
        omega
    · rcases known with ⟨_,same⟩ | ⟨_,⟨_,same⟩ | ⟨_,known⟩⟩
      · exact absurd same.symm other
      · exact absurd same.symm other
      · exact sound.proto k id x known found
  · rw [get_set,if_pos rfl]
  · intro id x found early
    rcases get_set_iff.mp found with ⟨same,_⟩ | ⟨_,found⟩
    · omega
    · exact kept id x found
lemma tracked (g : Gateway) (consistent : g.ct.Consistent) : Tracked g.ct t (g.track t now).1 (g.track t now).2 := by
  unfold Gateway.track
  split
  · next e found =>
    obtain ⟨id,known,entry⟩ := get_of_lookup found
    have same := (consistent.entry_id id e entry).1
    exact ⟨consistent,same ▸ entry,consistent.proto t id e known entry,.inl ⟨found,rfl⟩,le_refl _,fun _ _ here _ => here⟩
  · next absent => exact tracked_insert consistent absent
lemma Consistent.set_reply {reply : Tuple} (consistent : ct.Consistent) (entry : ct.by_id.get e.id = some e)
    (proto : reply.proto = e.reply.proto) :
    (Conntrack.update_reply_tuple { ct with by_id := ct.by_id.set e.id (e.set_nat_reply reply) } e.id e.reply reply).Consistent := by
  have bound := (consistent.entry_id _ e entry).2
  refine ⟨?_,?_,?_⟩
  · intro k id found
    simp only [update_reply_tuple,get_set_iff,get_remove_iff] at found ⊢
    rcases found with ⟨_,rfl⟩ | ⟨_,_,found⟩
    · exact bound
    · exact consistent.tuple_id k id found
  · intro id x found
    rcases get_set_iff.mp found with ⟨rfl,rfl⟩ | ⟨_,found⟩
    · exact ⟨rfl,bound⟩
    · exact consistent.entry_id id x found
  · intro k id x known found
    simp only [update_reply_tuple,get_set_iff,get_remove_iff] at known found
    rcases found with ⟨rfl,rfl⟩ | ⟨other,found⟩
    · rcases known with ⟨rfl,_⟩ | ⟨_,_,known⟩
      · rfl
      · exact (consistent.proto k _ e known entry).trans proto.symm
    · rcases known with ⟨_,same⟩ | ⟨_,_,known⟩
      · exact absurd same.symm other
      · exact consistent.proto k id x known found
end Conntrack

/-! ## Sessions -/
inductive Event where
  /-- A packet leaves by an interface. -/
  | out (now : Nat) (iface_out : String) (packet : List Byte)
  /-- A packet comes in. -/
  | back (packet : List Byte)
def Event.packet : Event → List Byte
  | .out _ _ packet => packet
  | .back packet => packet
/-- A gateway with the tuples of the packets it translated and the source each was given. -/
structure Session where
  gateway : Gateway
  flows : List (Tuple × Endpoint)

namespace Session
def new (rules : List MasqRule) (max_entries : Nat) : Session := ⟨.new rules max_entries,[]⟩
def emit (s : Session) : Event → Option (List Byte)
  | .out now iface_out packet =>
    match s.gateway.snat_postrouting now iface_out packet with
    | (_,.Accept,packet') => some packet'
    | (_,.Drop,_) => none
  | .back packet => some (s.gateway.dnat_prerouting packet)
/-- The flow of an outgoing packet that a rule matches and that is not dropped: its tuple and its new source. -/
def flow (s : Session) : Event → Option (Tuple × Endpoint)
  | .out now iface_out packet => do
    let t ← parse_tuple_ipv4 packet
    let _ ← s.gateway.nat.lookup_rule iface_out t.src_ip
    let packet' ← s.emit (.out now iface_out packet)
    let t' ← parse_tuple_ipv4 packet'
    some (t,(t'.src_ip,t'.src_port))
  | .back _ => none
def step (s : Session) (event : Event) : Session where
  gateway :=
    match event with
    | .out now iface_out packet => (s.gateway.snat_postrouting now iface_out packet).1
    | .back _ => s.gateway
  flows := (s.flow event).toList ++ s.flows
/-- A packet that a rule matches and whose connection has a mapping is of the tuple the mapping was made for: its
    source is the endpoint the mapping leads back to, its destination the one the connection's answers come from. -/
def Owns (s : Session) : Event → Prop
  | .out _ iface_out packet =>
    ∀ t rule e ip port, parse_tuple_ipv4 packet = some t → s.gateway.nat.lookup_rule iface_out t.src_ip = some rule →
      s.gateway.ct.lookup t = some e → s.gateway.nat.lookup_ct e.id = some (ip,port) →
      s.gateway.nat.lookup_ingress ip port t.proto = some (t.src_ip,t.src_port) ∧ e.reply.src_ip = t.dst_ip ∧ e.reply.src_port = t.dst_port
  | .back _ => True
def Reaches : Session → Session → Prop :=
  Relation.ReflTransGen (fun s s' => ∃ event, (∃ l4 len, Valid event.packet l4 len) ∧ s.Owns event ∧ s' = s.step event)
/-- Which tuple every mapping was made for. -/
structure Sound (s : Session) : Prop where
  table : s.gateway.ct.Consistent
  mapped : ∀ id ip port, s.gateway.nat.by_ct.get id = some (ip,port) → id < s.gateway.ct.next_id ∧ ∃ t, (t,(ip,port)) ∈ s.flows ∧
      ∀ e, s.gateway.ct.by_id.get id = some e → e.reply = ⟨t.dst_ip,ip,t.dst_port,port,t.proto⟩
  recorded : ∀ t ip port, (t,(ip,port)) ∈ s.flows →
    port < 65536 ∧ s.gateway.nat.egress_map.get (ip,port,t.proto) = some (t.src_ip,t.src_port)
  ports : ∀ key ip port, s.gateway.nat.egress_map.get key = some (ip,port) → port < 65536
  apart : ∀ t t' pair, (t,pair) ∈ s.flows → (t',pair) ∈ s.flows → t.proto = t'.proto → t = t'

lemma sound_new (rules : List MasqRule) (max_entries : Nat) : (new rules max_entries).Sound where
  table := Conntrack.consistent_new max_entries
  mapped _ _ _ found := by cases found
  recorded _ _ _ mem := absurd mem not_mem_nil
  ports _ _ _ found := by cases found
  apart _ _ _ mem := absurd mem not_mem_nil
variable {s : Session} {packet : List Byte} {l4 len now : Nat} {iface_out : String}
def masquerade (packet : List Byte) (ip : Ipv4Addr) (port : Nat) : List Byte :=
  rewrite_src_port (rewrite_src_ip packet ip) port

variable {ip : Ipv4Addr} {port : Nat} {t : Tuple} {g : Gateway} {packet' : List Byte}
lemma parse_masquerade (valid : Valid packet l4 len) (small : port < 65536) : parse_tuple_ipv4 (masquerade packet ip port) =
      some ⟨ip,addr_of packet 16,port,word_of packet (l4 + 2),byte_of packet 9⟩ := by
  obtain ⟨done,addr,word⟩ := @translated packet l4 len 12 0 port valid (.inl ⟨rfl,rfl⟩) ip small
  have bounds := valid.bounds
  have nine : byte_of (masquerade packet ip port) 9 = byte_of packet 9 := done.keeps.bytes 9 (by omega) (by omega) (by omega)
  have dst : addr_of (masquerade packet ip port) 16 = addr_of packet 16 :=
    addr_of_congr (fun j low high => done.keeps.bytes j (by omega) (by omega) (by omega))
  have dport : word_of (masquerade packet ip port) (l4 + 2) = word_of packet (l4 + 2) := by
    rw [word_of,word_of]
    congr 1
    · exact done.keeps.bytes (l4 + 2) (by omega) (by omega) (by omega)
    · exact done.keeps.bytes (l4 + 2 + 1) (by omega) (by omega) (by omega)
  have parsed := done.valid.parse
  rw [add_zero] at word
  change addr_of (masquerade packet ip port) 12 = ip at addr
  change word_of (masquerade packet ip port) l4 = port at word
  change parse_tuple_ipv4 (masquerade packet ip port) = some ⟨addr_of (masquerade packet ip port) 12,
    addr_of (masquerade packet ip port) 16,word_of (masquerade packet ip port) l4,
    word_of (masquerade packet ip port) (l4 + 2),byte_of (masquerade packet ip port) 9⟩ at parsed
  rw [parsed,addr,dst,word,dport,nine]
lemma scan_ports_spec {free : Nat → Bool} {start i left : Nat} (found : NatTable.scan_ports free start i left = some port) :
    32768 ≤ port ∧ port < 65536 ∧ free port := by
  induction left generalizing i with
  | zero => cases found
  | succ left ih =>
    unfold NatTable.scan_ports at found
    dsimp only at found
    split at found
    · next holds =>
      cases found
      refine ⟨?_,?_,holds⟩
      · exact Nat.le_add_right _ _
      · rw [NAT_PORT_RANGE_LO,NAT_PORT_RANGE_HI]
        omega
    · exact ih found
/-- The port is free, and it is the packet's own or one of the range. -/
lemma allocate_port_spec {nat : NatTable} {proto : Byte} {original next : Nat}
    (small : original < 65536) (allocated : nat.allocate_port ip proto original = some (port,next)) :
    port < 65536 ∧ (port = original ∨ 32768 ≤ port) ∧ nat.egress_map.get (ip,port,proto) = none := by
  unfold NatTable.allocate_port at allocated
  dsimp only at allocated
  split at allocated
  · next free =>
    cases allocated
    exact ⟨small,.inl rfl,isNone_iff_eq_none.mp free⟩
  · obtain ⟨p,found,same⟩ := map_eq_some_iff.mp allocated
    cases same
    obtain ⟨low,high,free⟩ := scan_ports_spec found
    exact ⟨high,.inr low,isNone_iff_eq_none.mp free⟩
/-- What the outgoing hook does with a packet of tuple `t`. -/
inductive Outcome (g : Gateway) (now : Nat) (iface_out : String) (packet : List Byte) (t : Tuple) :
    Gateway × Verdict × List Byte → Prop
  | untouched (missing : g.nat.lookup_rule iface_out t.src_ip = none) : Outcome g now iface_out packet t (g,.Accept,packet)
  | reused (rule : MasqRule) (ip : Ipv4Addr) (port : Nat) (matched : g.nat.lookup_rule iface_out t.src_ip = some rule)
      (found : g.nat.lookup_ct (g.track t now).1.id = some (ip,port)) :
      Outcome g now iface_out packet t ({ g with ct := (g.track t now).2 },.Accept,masquerade packet ip port)
  | dropped (rule : MasqRule) (matched : g.nat.lookup_rule iface_out t.src_ip = some rule)
      (absent : g.nat.lookup_ct (g.track t now).1.id = none) :
      Outcome g now iface_out packet t ({ g with ct := (g.track t now).2 },.Drop,packet)
  | mapped (rule : MasqRule) (port next_port : Nat) (matched : g.nat.lookup_rule iface_out t.src_ip = some rule)
      (absent : g.nat.lookup_ct (g.track t now).1.id = none)
      (allocated : g.nat.allocate_port rule.iface_ip t.proto t.src_port = some (port,next_port)) :
      Outcome g now iface_out packet t
        (⟨{ g.nat with next_port }.insert_mapping (g.track t now).1.id rule.iface_ip port t.src_ip t.src_port t.proto,
          Conntrack.update_reply_tuple
            { (g.track t now).2 with
              by_id := (g.track t now).2.by_id.set (g.track t now).1.id
                ((g.track t now).1.set_nat_reply ⟨t.dst_ip,rule.iface_ip,t.dst_port,port,t.proto⟩) }
            (g.track t now).1.id (g.track t now).1.reply ⟨t.dst_ip,rule.iface_ip,t.dst_port,port,t.proto⟩⟩,
          .Accept,masquerade packet rule.iface_ip port)

lemma snat_outcome (g : Gateway) (parsed : parse_tuple_ipv4 packet = some t) :
    Outcome g now iface_out packet t (g.snat_postrouting now iface_out packet) := by
  unfold Gateway.snat_postrouting
  rw [parsed]
  dsimp only
  cases matched : g.nat.lookup_rule iface_out t.src_ip with
  | none => exact .untouched matched
  | some rule =>
    dsimp only
    cases found : g.nat.lookup_ct (g.track t now).1.id with
    | some pair => exact .reused rule pair.1 pair.2 matched found
    | none =>
      dsimp only
      cases allocated : g.nat.allocate_port rule.iface_ip t.proto t.src_port with
      | none => exact .dropped rule matched found
      | some out => exact .mapped rule out.1 out.2 matched found allocated
lemma flow_unmatched (parsed : parse_tuple_ipv4 packet = some t)
    (missing : s.gateway.nat.lookup_rule iface_out t.src_ip = none) : s.flow (.out now iface_out packet) = none := by
  simp [flow,parsed,missing]
lemma flow_dropped (result : s.gateway.snat_postrouting now iface_out packet = (g,.Drop,packet')) :
    s.flow (.out now iface_out packet) = none := by
  have nothing : s.emit (.out now iface_out packet) = none := by rw [emit,result]
  rw [flow]
  cases parse_tuple_ipv4 packet with
  | none => rfl
  | some t =>
    simp only [nothing,bind_eq_bind,bind_some,bind_none]
    cases s.gateway.nat.lookup_rule iface_out t.src_ip <;> rfl
lemma flow_accepted {t' : Tuple} {rule : MasqRule}
    (parsed : parse_tuple_ipv4 packet = some t) (matched : s.gateway.nat.lookup_rule iface_out t.src_ip = some rule)
    (result : s.gateway.snat_postrouting now iface_out packet = (g,.Accept,packet')) (parsed' : parse_tuple_ipv4 packet' = some t') :
    s.flow (.out now iface_out packet) = some (t,(t'.src_ip,t'.src_port)) := by
  have out : s.emit (.out now iface_out packet) = some packet' := by rw [emit,result]
  simp [flow,parsed,matched,out,parsed']
section
variable (sound : s.Sound)
include sound

/-- Only the connection table changed, and no mapped connection in it. -/
lemma Sound.of_table {ct' : Conntrack} (consistent : ct'.Consistent) (more : s.gateway.ct.next_id ≤ ct'.next_id)
    (old : ∀ id x, ct'.by_id.get id = some x → id < s.gateway.ct.next_id → s.gateway.ct.by_id.get id = some x) :
    Sound ⟨{ s.gateway with ct := ct' },s.flows⟩ where
  table := consistent
  mapped id ip port found := by
    obtain ⟨early,t,mem,reply⟩ := sound.mapped id ip port found
    exact ⟨lt_of_lt_of_le early more,t,mem,fun e entry => reply e (old id e entry early)⟩
  recorded := sound.recorded
  ports := sound.ports
  apart := sound.apart
variable {t : Tuple} {ip : Ipv4Addr} {port : Nat}
/-- A mapping that is used again was made for the tuple. -/
lemma Sound.made_for {rule : MasqRule} (parsed : parse_tuple_ipv4 packet = some t) (owns : s.Owns (.out now iface_out packet))
    (matched : s.gateway.nat.lookup_rule iface_out t.src_ip = some rule)
    (found : s.gateway.nat.lookup_ct (s.gateway.track t now).1.id = some (ip,port)) : (t,(ip,port)) ∈ s.flows := by
  have tracked : Conntrack.Tracked _ t _ (s.gateway.track t now).2 := Conntrack.tracked s.gateway sound.table
  obtain ⟨early,t₀,mem,reply⟩ := sound.mapped _ ip port found
  rcases tracked.fresh with ⟨known,same⟩ | ⟨_,new⟩
  · obtain ⟨leads,dst,dport⟩ := owns t rule _ ip port parsed matched known found
    have entry := reply _ (same ▸ tracked.entry)
    have proto := tracked.proto
    rw [entry] at dst dport proto
    obtain ⟨_,made⟩ := sound.recorded t₀ ip port mem
    rw [NatTable.lookup_ingress,show t.proto = t₀.proto from proto,made] at leads
    obtain ⟨src,sport⟩ := Prod.mk.inj (some.inj leads)
    have whole : t = t₀ := by
      cases t
      cases t₀
      simp_all
    exact whole ▸ mem
  · omega
lemma Sound.unused {proto : Byte}
    (free : s.gateway.nat.egress_map.get (ip,port,proto) = none) (mem : (t,(ip,port)) ∈ s.flows) : t.proto ≠ proto := by
  rintro rfl
  have made := (sound.recorded t ip port mem).2
  rw [free] at made
  cases made
lemma Sound.again {f : Tuple × Endpoint} (mem : f ∈ s.flows) : Sound ⟨s.gateway,f :: s.flows⟩ := by
  have inside {f' : Tuple × Endpoint} (member' : f' ∈ f :: s.flows) : f' ∈ s.flows := by
    rcases mem_cons.mp member' with rfl | later
    · exact mem
    · exact later
  refine ⟨sound.table,?_,?_,sound.ports,?_⟩
  · intro id ip port found
    obtain ⟨early,t,there,reply⟩ := sound.mapped id ip port found
    exact ⟨early,t,mem_cons_of_mem _ there,reply⟩
  · exact fun t ip port member' => sound.recorded t ip port (inside member')
  · exact fun t t' pair first second => sound.apart t t' pair (inside first) (inside second)
lemma Sound.map_flow {e : ConntrackEntry} {ct : Conntrack} {next_port : Nat}
    (tracked : Conntrack.Tracked s.gateway.ct t e ct) (sport : t.src_port < 65536) (small : port < 65536)
    (free : s.gateway.nat.egress_map.get (ip,port,t.proto) = none) :
    Sound ⟨⟨NatTable.insert_mapping { s.gateway.nat with next_port } e.id ip port t.src_ip t.src_port t.proto, Conntrack.update_reply_tuple
        { ct with by_id := ct.by_id.set e.id (e.set_nat_reply ⟨t.dst_ip,ip,t.dst_port,port,t.proto⟩) }
        e.id e.reply ⟨t.dst_ip,ip,t.dst_port,port,t.proto⟩⟩,(t,(ip,port)) :: s.flows⟩ := by
  have bound := (tracked.consistent.entry_id _ e tracked.entry).2
  refine ⟨tracked.consistent.set_reply tracked.entry tracked.proto,?_,?_,?_,?_⟩
  · intro id ip' port' found
    simp only [NatTable.insert_mapping,Conntrack.update_reply_tuple] at found ⊢
    rcases get_set_iff.mp found with ⟨same,⟨⟩⟩ | ⟨other,found⟩
    · refine ⟨same ▸ bound,t,mem_cons_self,fun x entry => ?_⟩
      rw [get_set,if_pos same] at entry
      cases entry
      rfl
    · obtain ⟨early,t',mem,reply⟩ := sound.mapped id ip' port' found
      refine ⟨lt_of_lt_of_le early tracked.more,t',mem_cons_of_mem _ mem,fun x entry => ?_⟩
      rw [get_set,if_neg other] at entry
      exact reply x (tracked.old id x entry early)
  · intro t' ip' port' mem
    simp only [NatTable.insert_mapping]
    rw [get_set]
    rcases mem_cons.mp mem with same | older
    · cases same
      exact ⟨small,if_pos rfl⟩
    · have differs : (ip',port',t'.proto) ≠ (ip,port,t.proto) := by
        intro same
        simp only [Prod.mk.injEq] at same
        obtain ⟨rfl,rfl,proto⟩ := same
        exact sound.unused free older proto
      rw [if_neg differs]
      exact sound.recorded t' ip' port' older
  · intro key ip' port' found
    rcases get_set_iff.mp found with ⟨_,⟨⟩⟩ | ⟨_,found⟩
    · exact sport
    · exact sound.ports key ip' port' found
  · intro t' t'' pair first second proto
    rcases mem_cons.mp first with same | older
    · cases same
      rcases mem_cons.mp second with same' | older'
      · cases same'
        rfl
      · exact absurd proto.symm (sound.unused free older')
    · rcases mem_cons.mp second with same' | older'
      · cases same'
        exact absurd proto (sound.unused free older)
      · exact sound.apart t' t'' pair older older' proto
lemma sound_out (valid : Valid packet l4 len) (owns : s.Owns (.out now iface_out packet)) : (s.step (.out now iface_out packet)).Sound := by
  have parsed := valid.parse
  have outcome := @snat_outcome packet now iface_out _ s.gateway parsed
  generalize tuple : (⟨addr_of packet 12,addr_of packet 16,word_of packet l4,word_of packet (l4 + 2),byte_of packet 9⟩ : Tuple) = t
    at parsed outcome
  have tracked : Conntrack.Tracked _ t _ (s.gateway.track t now).2 := Conntrack.tracked s.gateway sound.table
  have sport : t.src_port < 65536 := by
    rw [← tuple]
    exact word_of_lt _ _
  generalize result : s.gateway.snat_postrouting now iface_out packet = out at outcome
  rw [step]
  simp only [result]
  cases outcome with
  | untouched missing =>
    rw [flow_unmatched parsed missing]
    exact sound
  | dropped rule matched absent =>
    rw [flow_dropped result]
    exact sound.of_table tracked.consistent tracked.more tracked.old
  | reused rule ip port matched found =>
    have mem := sound.made_for parsed owns matched found
    have small := (sound.recorded t ip port mem).1
    rw [flow_accepted parsed matched result (parse_masquerade valid small)]
    exact (sound.of_table tracked.consistent tracked.more tracked.old).again mem
  | mapped rule port next_port matched absent allocated =>
    obtain ⟨small,_,free⟩ := allocate_port_spec sport allocated
    rw [flow_accepted parsed matched result (parse_masquerade valid small)]
    exact sound.map_flow tracked sport small free
lemma sound_step {event : Event} (valid : Valid event.packet l4 len) (owns : s.Owns event) : (s.step event).Sound := by
  cases event with
  | out now iface_out packet => exact sound_out sound valid owns
  | back packet => exact sound
end
lemma sound_reaches {s' : Session} (run : Reaches s s') (sound : s.Sound) : s'.Sound := by
  induction run with
  | refl => exact sound
  | tail _ last before =>
    obtain ⟨event,⟨_,_,valid⟩,owns,rfl⟩ := last
    exact sound_step before valid owns
/-- The offsets of the address and of the port that an event rewrites. -/
def Event.fields : Event → Nat × Nat
  | .out .. => (12,0)
  | .back _ => (16,2)
lemma emit_translated (sound : s.Sound) {event : Event} (valid : Valid event.packet l4 len) {out : List Byte}
    (emitted : s.emit event = some out) :
    out = event.packet ∨ Translated event.packet out l4 len (Event.fields event).1 (Event.fields event).2 := by
  cases event with
  | back packet =>
    change Valid packet l4 len at valid
    rw [emit,Gateway.dnat_prerouting,valid.parse] at emitted
    dsimp only at emitted
    split at emitted
    · exact .inl (some.inj emitted).symm
    · next ip port found =>
      have done := (@translated packet l4 len 16 2 port valid (.inr ⟨rfl,rfl⟩) ip (sound.ports _ ip port found)).1
      exact .inr (some.inj emitted ▸ done)
  | out now iface_out packet =>
    change Valid packet l4 len at valid
    have outcome := @snat_outcome packet now iface_out _ s.gateway valid.parse
    have sport := word_of_lt packet l4
    have done {ip : Ipv4Addr} {port : Nat} (small : port < 65536) : Translated packet (masquerade packet ip port) l4 len 12 0 :=
      (@translated packet l4 len 12 0 port valid (.inl ⟨rfl,rfl⟩) ip small).1
    rw [emit] at emitted
    generalize s.gateway.snat_postrouting now iface_out packet = result at outcome emitted
    cases outcome with
    | untouched missing => exact .inl (some.inj emitted).symm
    | dropped rule matched absent => cases emitted
    | reused rule ip port matched found =>
      obtain ⟨_,t,mem,_⟩ := sound.mapped _ ip port found
      exact .inr (some.inj emitted ▸ done (sound.recorded t ip port mem).1)
    | mapped rule port next_port matched absent allocated =>
      exact .inr (some.inj emitted ▸ done (allocate_port_spec sport allocated).1)
lemma answer_returns (sound : s.Sound) (mem : (t,(ip,port)) ∈ s.flows) (sport : t.src_port < 65536) (valid : Valid packet l4 len)
    (answer : parse_tuple_ipv4 packet = some ⟨t.dst_ip,ip,t.dst_port,port,t.proto⟩) :
    ∃ out, s.emit (.back packet) = some out ∧ Translated packet out l4 len 16 2 ∧ addr_of out 16 = t.src_ip ∧
      word_of out (l4 + 2) = t.src_port := by
  have leads : s.gateway.nat.lookup_ingress ip port t.proto = some (t.src_ip,t.src_port) := (sound.recorded t ip port mem).2
  refine ⟨_,?_,@translated packet l4 len 16 2 t.src_port valid (.inr ⟨rfl,rfl⟩) t.src_ip sport⟩
  rw [emit,Gateway.dnat_prerouting,answer]
  dsimp only
  rw [leads]
  rfl
/-- A packet that takes over a mapping gets the pair of another tuple. -/
lemma shares_pair (sound : s.Sound) (valid : Valid packet l4 len) (takes : ¬ s.Owns (.out now iface_out packet)) :
    ∃ t t' pair, (t,pair) ∈ (s.step (.out now iface_out packet)).flows ∧ (t',pair) ∈ (s.step (.out now iface_out packet)).flows ∧
      t.proto = t'.proto ∧ t ≠ t' := by
  simp only [Owns,not_forall] at takes
  obtain ⟨t,rule,e,ip,port,parsed,matched,known,found,differs⟩ := takes
  obtain ⟨_,t₀,mem,reply⟩ := sound.mapped e.id ip port found
  obtain ⟨id,leads,entry⟩ := Conntrack.get_of_lookup known
  have here := (sound.table.entry_id id e entry).1
  have made := reply e (here ▸ entry)
  have proto : t.proto = t₀.proto := by rw [sound.table.proto t id e leads entry,made]
  have track : s.gateway.track t now = (e,s.gateway.ct) := by rw [Gateway.track,known]
  have result : s.gateway.snat_postrouting now iface_out packet =
      ({ s.gateway with ct := s.gateway.ct },.Accept,masquerade packet ip port) := by
    rw [Gateway.snat_postrouting,parsed]
    dsimp only
    rw [matched]
    dsimp only
    rw [track]
    dsimp only
    rw [found]
    rfl
  have small := (sound.recorded t₀ ip port mem).1
  refine ⟨t,t₀,(ip,port),?_,?_,proto,?_⟩
  · rw [step,flow_accepted parsed matched result (parse_masquerade valid small)]
    exact mem_cons_self
  · exact mem_append_right _ mem
  · rintro rfl
    refine differs ⟨(sound.recorded t ip port mem).2,?_,?_⟩
    · rw [made]
    · rw [made]
/-- In every run of valid packets that keep `Owns`: what goes on is the packet or a valid packet that differs in one
    endpoint and the checksums; no two tuples of one protocol have been given one pair; and an answer to a pair goes
    back to the source that was given it. Any other valid packet is given the pair of another tuple. -/
theorem masquerade_transparent (rules : List MasqRule) (max_entries : Nat) (s : Session) (run : Reaches (new rules max_entries) s) :
    (∀ event l4 len out, Valid event.packet l4 len → s.emit event = some out →
      out = event.packet ∨ Translated event.packet out l4 len (Event.fields event).1 (Event.fields event).2) ∧
    (∀ t t' pair, (t,pair) ∈ s.flows → (t',pair) ∈ s.flows → t.proto = t'.proto → t = t') ∧
    (∀ t ip port packet l4 len, (t,(ip,port)) ∈ s.flows → Valid packet l4 len →
      parse_tuple_ipv4 packet = some ⟨t.dst_ip,ip,t.dst_port,port,t.proto⟩ →
      ∃ out, s.emit (.back packet) = some out ∧ addr_of out 16 = t.src_ip ∧ word_of out (l4 + 2) = t.src_port) ∧
    (∀ now iface_out packet l4 len, Valid packet l4 len → ¬ s.Owns (.out now iface_out packet) →
      ∃ t t' pair, (t,pair) ∈ (s.step (.out now iface_out packet)).flows ∧
        (t',pair) ∈ (s.step (.out now iface_out packet)).flows ∧ t.proto = t'.proto ∧ t ≠ t') := by
  have sound := sound_reaches run (sound_new rules max_entries)
  refine ⟨fun event l4 len out valid emitted => emit_translated sound valid emitted,sound.apart,?_,
    fun now iface_out packet l4 len valid takes => shares_pair sound valid takes⟩
  intro t ip port packet l4 len member valid answer
  have sport := sound.ports _ _ _ (sound.recorded t ip port member).2
  obtain ⟨out,emitted,_,addr,word⟩ := answer_returns sound member sport valid answer
  exact ⟨out,emitted,addr,word⟩
/-- Two UDP packets without a checksum: an internal host asks another, which sends to the translated source. -/
def asks : List Byte :=
  [69,0,0,28,0,0,0,0,64,17,102,199,10,0,0,2,10,0,0,9,3,232,0,80,0,8,0,0]
def answers : List Byte :=
  [69,0,0,28,0,0,0,0,64,17,108,195,10,0,0,9,1,2,3,4,0,80,3,232,0,8,0,0]
def inside_rule : MasqRule := ⟨"wan",⟨10,0,0,0⟩,8,⟨1,2,3,4⟩⟩
lemma asks_valid : Valid asks 20 8 :=
  ⟨by decide,by decide,.inr ⟨by decide,by decide,by decide⟩,by decide,by decide,.inl ⟨by decide,by decide⟩⟩
lemma answers_valid : Valid answers 20 8 :=
  ⟨by decide,by decide,.inr ⟨by decide,by decide,by decide⟩,by decide,by decide,.inl ⟨by decide,by decide⟩⟩
lemma asks_owns : (new [inside_rule] 4096).Owns (.out 0 "wan" asks) := by
  intro t rule e ip port _ _ known _
  cases known
/-- The answer to the first packet goes back to its source. -/
theorem masquerade_transparent_udp : ∃ out, ((new [inside_rule] 4096).step (.out 0 "wan" asks)).emit (.back answers) = some out ∧
      addr_of out 16 = ⟨10,0,0,2⟩ ∧ word_of out 22 = 1000 := by
  have run : Reaches (new [inside_rule] 4096) ((new [inside_rule] 4096).step (.out 0 "wan" asks)) :=
    .single ⟨.out 0 "wan" asks,⟨20,8,asks_valid⟩,asks_owns,rfl⟩
  obtain ⟨_,_,returns,_⟩ := masquerade_transparent [inside_rule] 4096 _ run
  exact returns ⟨⟨10,0,0,2⟩,⟨10,0,0,9⟩,1000,80,17⟩ ⟨1,2,3,4⟩ 1000 answers 20 8 (by decide) answers_valid (by decide)
/-- The same packet handed to the outgoing hook is taken for the first flow and shares its pair. -/
theorem masquerade_shares :
    Valid asks 20 8 ∧ Valid answers 20 8 ∧ ∃ t t' pair, (t,pair) ∈ (((new [inside_rule] 4096).step (.out 0 "wan" asks)).step (.out 1 "wan" answers)).flows ∧
      (t',pair) ∈ (((new [inside_rule] 4096).step (.out 0 "wan" asks)).step (.out 1 "wan" answers)).flows ∧ t.proto = t'.proto ∧ t ≠ t' :=
  ⟨asks_valid,answers_valid,⟨⟨10,0,0,2⟩,⟨10,0,0,9⟩,1000,80,17⟩,⟨⟨10,0,0,9⟩,⟨1,2,3,4⟩,80,1000,17⟩,(⟨1,2,3,4⟩,1000),by decide,by decide,rfl,by decide⟩
end Session
end Narf.Net.Netfilter
