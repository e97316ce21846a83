import Narf.Net.Conntrack

namespace Narf.Net.Netfilter
open Lib List Option

/-! How long masquerading mappings live. Nothing takes a mapping out of the port table, so it stays
    when its connection is evicted or reaped; as long as no mapped connection goes, every mapping
    serves a live one. -/

inductive HookEvent where
  | conntrack (now : Nat) (packet : List Byte)
  | snat (now : Nat) (iface_out : String) (packet : List Byte)
  | dnat (packet : List Byte)
  | reap (now : Nat)

namespace Conntrack
def evicted (ct : Conntrack) (t : Tuple) : List Nat :=
  if ct.lookup t = none ∧ ct.max_entries ≤ ct.by_id.entries.length then ct.victim.toList else []
end Conntrack

namespace Gateway
def step (g : Gateway) : HookEvent → Option Gateway
  | .conntrack now packet => some (g.conntrack_hook now packet)
  | .snat now iface_out packet => some (g.snat_postrouting now iface_out packet).1
  | .dnat _ => some g
  | .reap now => some { g with ct := (g.ct.reap_expired now).1 }
def tracks (g : Gateway) : HookEvent → Option Tuple
  | .conntrack _ packet => parse_tuple_ipv4 packet
  | .snat _ iface_out packet => (parse_tuple_ipv4 packet).filter (fun t => (g.nat.lookup_rule iface_out t.src_ip).isSome)
  | .dnat _ => none
  | .reap _ => none
def removed (g : Gateway) : HookEvent → List Nat
  | .reap now => g.ct.stale_ids now
  | event => (g.tracks event).elim [] g.ct.evicted
def Spares (g : Gateway) (event : HookEvent) : Prop := ∀ id ∈ g.removed event, g.nat.by_ct.get id = none
instance (g : Gateway) (event : HookEvent) : Decidable (g.Spares event) :=
  inferInstanceAs (Decidable (∀ id ∈ g.removed event, _))
/-- The connection answers to the address and the port. -/
def Serves (g : Gateway) (id : Nat) (ip : Ipv4Addr) (port : Nat) (proto : Byte) : Prop :=
  ∃ e, g.ct.by_id.get id = some e ∧ e.reply.dst_ip = ip ∧ e.reply.dst_port = port ∧ e.reply.proto = proto
/-- Every entry of the two maps belongs to a live connection. -/
def Alive (g : Gateway) : Prop :=
  (∀ id ip port, g.nat.by_ct.get id = some (ip,port) → ∃ proto, g.Serves id ip port proto) ∧
  (∀ ip port proto pair, g.nat.egress_map.get (ip,port,proto) = some pair →
    ∃ id, g.nat.by_ct.get id = some (ip,port) ∧ g.Serves id ip port proto)
end Gateway

/-! ## What tracking keeps -/
namespace Conntrack
variable {ct : Conntrack} {t : Tuple} {id now : Nat} {e : ConntrackEntry}
lemma make_room_get (ct : Conntrack) (id : Nat) (absent : ct.lookup t = none) :
    ct.make_room.by_id.get id = if id ∈ ct.evicted t then none else ct.by_id.get id := by
  by_cases full : ct.max_entries ≤ ct.by_id.entries.length
  · have goes : ct.evicted t = ct.victim.toList := if_pos ⟨absent,full⟩
    rw [make_room,if_pos full,goes]
    rcases evict_oldest_eq ct with ⟨empty,same⟩ | ⟨victim,e,_,same,chosen⟩
    · have nobody : ct.victim = none := by rw [Conntrack.victim,empty]; rfl
      rw [same,nobody,toList_none,if_neg not_mem_nil]
    · rw [same,chosen,forget_get]
      simp
  · have stays : ct.evicted t = [] := if_neg (full ·.2)
    rw [make_room,if_neg full,stays,if_neg not_mem_nil]
end Conntrack

namespace Gateway
open Conntrack
variable {g : Gateway} {t : Tuple} {id now : Nat} {e : ConntrackEntry}
/-- Tracking a tuple takes out the evicted connection and no other. -/
lemma track_get (consistent : g.ct.Consistent) (entry : g.ct.by_id.get id = some e) :
    (g.track t now).2.by_id.get id = if id ∈ g.ct.evicted t then none else some e := by
  cases known : g.ct.lookup t with
  | some x =>
    have stays : g.ct.evicted t = [] := if_neg fun both => by rw [known] at both; cases both.1
    rw [track,known,stays,if_neg not_mem_nil]
    exact entry
  | none =>
    have below := (consistent.entry_id id e entry).2
    have made : (g.track t now).2 = (g.ct.insert_new t now).2 := by rw [track,known]
    rw [made,insert_new_eq known]
    rw [Table.get_set,if_neg (by rw [(make_room_fields g.ct).2]; omega),make_room_get g.ct id known,entry]
lemma note_packet_same (e : ConntrackEntry) (t : Tuple) (packet : List Byte) (now : Nat) :
    (note_packet e t packet now).id = e.id ∧ (note_packet e t packet now).reply = e.reply := by
  unfold note_packet
  split
  · split
    · exact ⟨rfl,rfl⟩
    · split
      · exact ⟨rfl,rfl⟩
      · exact ⟨rfl,rfl⟩
  · exact ⟨(reply_seen_same _ _).1,(reply_seen_same _ _).2.2⟩
  · exact ⟨(reply_seen_same _ _).1,(reply_seen_same _ _).2.2⟩
  · exact ⟨rfl,rfl⟩
end Gateway

variable {ct : Conntrack}
lemma Conntrack.Consistent.note {e x : ConntrackEntry} (consistent : ct.Consistent)
    (entry : ct.by_id.get e.id = some e) (same : x.id = e.id) (reply : x.reply = e.reply) :
    Conntrack.Consistent { ct with by_id := ct.by_id.set e.id x } := by
  have before (id : Nat) (y : ConntrackEntry) (found : (ct.by_id.set e.id x).get id = some y) :
      ∃ z, ct.by_id.get id = some z ∧ y.id = z.id ∧ y.reply = z.reply := by
    rcases Table.get_set_iff.mp found with ⟨rfl,rfl⟩ | ⟨_,found⟩
    · exact ⟨e,entry,same,reply⟩
    · exact ⟨y,found,rfl,rfl⟩
  refine ⟨consistent.tuple_id,?_,?_⟩
  · intro id y found
    obtain ⟨z,there,number,_⟩ := before id y found
    rw [number]
    exact consistent.entry_id id z there
  · intro k id y known found
    obtain ⟨z,there,_,answer⟩ := before id y found
    rw [answer]
    exact consistent.proto k id z known there
lemma Conntrack.Consistent.reap (consistent : ct.Consistent) (now : Nat) : (ct.reap_expired now).1.Consistent := by
  have all (ids : List Nat) (ct : Conntrack) (consistent : ct.Consistent) : (ids.foldl Conntrack.forget ct).Consistent := by
    induction ids generalizing ct with
    | nil => exact consistent
    | cons id rest ih => exact ih (ct.forget id) (consistent.forget id)
  exact all _ ct consistent
lemma Conntrack.reap_get (ct : Conntrack) (now id : Nat) :
    (ct.reap_expired now).1.by_id.get id = if id ∈ ct.stale_ids now then none else ct.by_id.get id := by
  have all (ids : List Nat) (ct : Conntrack) : (ids.foldl forget ct).by_id.get id = if id ∈ ids then none else ct.by_id.get id := by
    induction ids generalizing ct with
    | nil => rw [if_neg not_mem_nil]; rfl
    | cons first rest ih =>
      rw [foldl_cons,ih,forget_get]
      by_cases later : id ∈ rest
      · rw [if_pos later,if_pos (mem_cons_of_mem _ later)]
      · rw [if_neg later]
        by_cases here : id = first
        · rw [if_pos here,if_pos (by rw [here]; exact mem_cons_self)]
        · rw [if_neg here,if_neg (by simp [here,later])]
  exact all _ ct

/-! ## Mappings and their connections -/
namespace NatTable
variable {nat : NatTable} {ip : Ipv4Addr} {proto : Byte} {original : Nat}
lemma scan_ports_full {free : Nat → Bool} {start i left : Nat} (full : scan_ports free start i left = none) : ∀ k, i ≤ k → k < i + left →
      free (NAT_PORT_RANGE_LO + (start - NAT_PORT_RANGE_LO + k) % (NAT_PORT_RANGE_HI - NAT_PORT_RANGE_LO + 1)) = false := by
  induction left generalizing i with
  | zero =>
    intro k low high
    omega
  | succ left ih =>
    unfold scan_ports at full
    dsimp only at full
    split at full
    · cases full
    · next taken =>
      intro k low high
      by_cases here : k = i
      · rw [here]
        exact Bool.eq_false_iff.mpr taken
      · exact ih full k (by omega) (by omega)
/-- A port is refused only if the packet's own and every port of the range are taken. -/
lemma allocate_port_full (full : nat.allocate_port ip proto original = none) :
    ∀ p, NAT_PORT_RANGE_LO ≤ p → p ≤ NAT_PORT_RANGE_HI → ∃ pair, nat.egress_map.get (ip,p,proto) = some pair := by
  unfold allocate_port at full
  dsimp only at full
  split at full
  · cases full
  · intro p low high
    have none_free := scan_ports_full (map_eq_none_iff.mp full)
    rw [NAT_PORT_RANGE_LO] at low
    rw [NAT_PORT_RANGE_HI] at high
    -- the scan starts at the cursor and wraps, so some turn of it looks at `p`
    obtain ⟨k,small,turn⟩ : ∃ k, k < 28232 ∧ 32768 + (nat.next_port - 32768 + k) % 28232 = p :=
      ⟨(p - 32768 + 28232 - (nat.next_port - 32768) % 28232) % 28232,Nat.mod_lt _ (by decide),by omega⟩
    have taken := none_free k (Nat.zero_le _) (by rw [zero_add]; exact small)
    rw [NAT_PORT_RANGE_LO,NAT_PORT_RANGE_HI] at taken
    rw [turn] at taken
    exact ne_none_iff_exists'.mp fun free => by rw [free] at taken; cases taken
end NatTable
/-- The maps serve live connections, over a consistent table. -/
structure Gateway.Serving (g : Gateway) : Prop where
  table : g.ct.Consistent
  alive : g.Alive

namespace Gateway
open Conntrack
variable {g : Gateway} {t : Tuple} {id now port next_port : Nat} {e : ConntrackEntry} {ct : Conntrack} {rule : MasqRule}
lemma Serves.mono {proto : Byte} {ip : Ipv4Addr} (serves : g.Serves id ip port proto)
    (kept : ∀ e, g.ct.by_id.get id = some e → ∃ x, ct.by_id.get id = some x ∧ x.reply = e.reply) :
    Serves { g with ct } id ip port proto := by
  obtain ⟨e,entry,answer⟩ := serves
  obtain ⟨x,still,same⟩ := kept e entry
  exact ⟨x,still,by rw [same]; exact answer⟩
/-- Only the connection table changes, and every mapped connection stays with its reply. -/
lemma Alive.of_table (alive : g.Alive)
    (kept : ∀ id pair e, g.nat.by_ct.get id = some pair → g.ct.by_id.get id = some e → ∃ x, ct.by_id.get id = some x ∧ x.reply = e.reply) :
    Alive { g with ct } := by
  constructor
  · intro id ip port mapped
    obtain ⟨proto,serves⟩ := alive.1 id ip port mapped
    exact ⟨proto,serves.mono fun e entry => kept id (ip,port) e mapped entry⟩
  · intro ip port proto pair egress
    obtain ⟨id,mapped,serves⟩ := alive.2 ip port proto pair egress
    exact ⟨id,mapped,serves.mono fun e entry => kept id (ip,port) e mapped entry⟩
/-- Tracking a tuple spares the mapped connections if the evicted one is none of them. -/
lemma Serving.track (serving : g.Serving) (now : Nat) (spared : ∀ id ∈ g.ct.evicted t, g.nat.by_ct.get id = none) :
    Serving { g with ct := (g.track t now).2 } := by
  refine ⟨(tracked g serving.table).consistent,serving.alive.of_table ?_⟩
  intro id pair e mapped entry
  refine ⟨e,?_,rfl⟩
  rw [track_get serving.table entry,if_neg]
  intro goes
  rw [spared id goes] at mapped
  cases mapped
lemma Serving.note {x : ConntrackEntry} (serving : g.Serving) (entry : g.ct.by_id.get e.id = some e) (same : x.id = e.id)
    (reply : x.reply = e.reply) : Serving { g with ct := { g.ct with by_id := g.ct.by_id.set e.id x } } := by
  refine ⟨serving.table.note entry same reply,serving.alive.of_table ?_⟩
  intro id pair y _ there
  rw [Table.get_set]
  by_cases here : id = e.id
  · rw [here,entry] at there
    cases there
    exact ⟨x,if_pos here,reply⟩
  · exact ⟨y,by rw [if_neg here]; exact there,rfl⟩
lemma Serving.map (serving : g.Serving) (entry : g.ct.by_id.get e.id = some e) (proto : t.proto = e.reply.proto)
    (absent : g.nat.by_ct.get e.id = none) :
    Serving ⟨{ g.nat with next_port }.insert_mapping e.id rule.iface_ip port t.src_ip t.src_port t.proto, Conntrack.update_reply_tuple
        { g.ct with by_id := g.ct.by_id.set e.id (e.set_nat_reply ⟨t.dst_ip,rule.iface_ip,t.dst_port,port,t.proto⟩) }
        e.id e.reply ⟨t.dst_ip,rule.iface_ip,t.dst_port,port,t.proto⟩⟩ := by
  have others (id : Nat) (x : ConntrackEntry) (different : id ≠ e.id) (there : g.ct.by_id.get id = some x) :
      (g.ct.by_id.set e.id (e.set_nat_reply ⟨t.dst_ip,rule.iface_ip,t.dst_port,port,t.proto⟩)).get id = some x := by
    rw [Table.get_set,if_neg different,there]
  have mapped_id (id : Nat) (pair : Endpoint) (mapped : g.nat.by_ct.get id = some pair) : id ≠ e.id := by
    rintro rfl
    rw [absent] at mapped
    cases mapped
  refine ⟨serving.table.set_reply entry proto,?_,?_⟩
  · intro id ip p mapped
    rcases Table.get_set_iff.mp mapped with ⟨here,⟨⟩⟩ | ⟨here,mapped⟩
    · refine ⟨t.proto,e.set_nat_reply ⟨t.dst_ip,rule.iface_ip,t.dst_port,port,t.proto⟩,?_,rfl,rfl,rfl⟩
      show (g.ct.by_id.set e.id _).get id = _
      rw [Table.get_set,if_pos here]
    · obtain ⟨kind,x,there,answer⟩ := serving.alive.1 id ip p mapped
      exact ⟨kind,x,others id x here there,answer⟩
  · intro ip p kind pair egress
    simp only [NatTable.insert_mapping,Table.get_set] at egress ⊢
    by_cases here : (ip,p,kind) = (rule.iface_ip,port,t.proto)
    · cases here
      refine ⟨e.id,by rw [if_pos rfl],e.set_nat_reply ⟨t.dst_ip,rule.iface_ip,t.dst_port,port,t.proto⟩,?_,rfl,rfl,rfl⟩
      show (g.ct.by_id.set e.id _).get e.id = _
      rw [Table.get_set,if_pos rfl]
    · rw [if_neg here] at egress
      obtain ⟨id,mapped,x,there,answer⟩ := serving.alive.2 ip p kind pair egress
      have different := mapped_id id (ip,p) mapped
      exact ⟨id,by rw [if_neg different]; exact mapped,x,others id x different there,answer⟩
variable {event : HookEvent} {g' : Gateway}
lemma Serving.step (serving : g.Serving) (spares : g.Spares event) (taken : g.step event = some g') : g'.Serving := by
  cases event with
  | conntrack now packet =>
    cases taken
    cases parsed : parse_tuple_ipv4 packet with
    | none =>
      rw [conntrack_hook,parsed]
      exact serving
    | some t =>
      have spared : ∀ id ∈ g.ct.evicted t, g.nat.by_ct.get id = none := by
        intro id goes
        refine spares id ?_
        simpa [removed,tracks,parsed] using goes
      have kept := serving.track now spared
      have known : Tracked _ t _ (g.track t now).2 := tracked g serving.table
      have entry := known.entry
      obtain ⟨same,reply⟩ := note_packet_same (g.track t now).1 t packet now
      rw [conntrack_hook,parsed]
      exact kept.note entry same reply
  | snat now iface_out packet =>
    cases taken
    cases parsed : parse_tuple_ipv4 packet with
    | none =>
      rw [snat_postrouting,parsed]
      exact serving
    | some t =>
      have spared (rule : MasqRule) (matched : g.nat.lookup_rule iface_out t.src_ip = some rule) :
          ∀ id ∈ g.ct.evicted t, g.nat.by_ct.get id = none := by
        intro id goes
        refine spares id ?_
        simpa [removed,tracks,parsed,matched,Option.filter] using goes
      have known : Tracked _ t _ (g.track t now).2 := tracked g serving.table
      generalize result : g.snat_postrouting now iface_out packet = outcome
      have done : Session.Outcome g now iface_out packet t outcome := result ▸ Session.snat_outcome g parsed
      cases done with
      | untouched missing => exact serving
      | reused rule ip port matched found | dropped rule matched absent => exact serving.track now (spared rule matched)
      | mapped rule port next_port matched absent allocated =>
        exact (serving.track now (spared rule matched)).map known.entry known.proto absent
  | dnat packet =>
    cases taken
    exact serving
  | reap now =>
    cases taken
    refine ⟨serving.table.reap now,serving.alive.of_table ?_⟩
    intro id pair e mapped entry
    refine ⟨e,?_,rfl⟩
    rw [reap_get,if_neg,entry]
    intro stale
    rw [spares id stale] at mapped
    cases mapped

/-! ## Whole runs -/
lemma serving_new (rules : List MasqRule) (max_entries : Nat) : (new rules max_entries).Serving where
  table := consistent_new max_entries
  alive := ⟨fun _ _ _ mapped => (by cases mapped),fun _ _ _ _ egress => (by cases egress)⟩
lemma Alive.not_of_gone (id : Nat) (pair : Endpoint) (mapped : g.nat.by_ct.get id = some pair) (gone : g.ct.by_id.get id = none) : ¬ g.Alive := by
  intro alive
  obtain ⟨_,e,entry,_⟩ := alive.1 id pair.1 pair.2 mapped
  rw [gone] at entry
  cases entry
/-- A mapped connection that is evicted is gone, and so it is after its successor is changed. -/
lemma Serving.evicted_gone {pair : Endpoint} (serving : g.Serving) (now : Nat) (mapped : g.nat.by_ct.get id = some pair)
    (goes : id ∈ g.ct.evicted t) : (g.track t now).2.by_id.get id = none ∧ id ≠ (g.track t now).1.id ∧
    ∀ x, ((g.track t now).2.by_id.set (g.track t now).1.id x).get id = none := by
  obtain ⟨_,e,entry,_⟩ := serving.alive.1 id pair.1 pair.2 mapped
  have gone : (g.track t now).2.by_id.get id = none := by rw [track_get serving.table entry,if_pos goes]
  have other : id ≠ (g.track t now).1.id := by
    intro same
    have known : Tracked _ t _ (g.track t now).2 := tracked g serving.table
    have there := known.entry
    rw [← same,gone] at there
    cases there
  exact ⟨gone,other,fun x => by rw [Table.get_set,if_neg other,gone]⟩
/-- Only an event that spares the mapped connections leaves every mapping with a live one. -/
lemma Serving.spares_of_alive (serving : g.Serving) (taken : g.step event = some g') (alive : g'.Alive) : g.Spares event := by
  intro id goes
  by_contra kept
  obtain ⟨pair,mapped⟩ := ne_none_iff_exists'.mp kept
  cases event with
  | conntrack now packet =>
    cases taken
    cases parsed : parse_tuple_ipv4 packet with
    | none => simp [removed,tracks,parsed] at goes
    | some t =>
      simp only [removed,tracks,parsed,elim_some] at goes
      obtain ⟨_,_,gone⟩ := serving.evicted_gone now mapped goes
      refine Alive.not_of_gone id pair ?_ ?_ alive
      · rw [conntrack_hook,parsed]
        exact mapped
      · rw [conntrack_hook,parsed]
        exact gone _
  | snat now iface_out packet =>
    cases taken
    cases parsed : parse_tuple_ipv4 packet with
    | none => simp [removed,tracks,parsed] at goes
    | some t =>
      have evicted (rule : MasqRule) (matched : g.nat.lookup_rule iface_out t.src_ip = some rule) : id ∈ g.ct.evicted t := by
        simpa [removed,tracks,parsed,matched,Option.filter] using goes
      generalize result : g.snat_postrouting now iface_out packet = outcome at alive
      have done : Session.Outcome g now iface_out packet t outcome := result ▸ Session.snat_outcome g parsed
      cases done with
      | untouched missing => simp [removed,tracks,parsed,missing,Option.filter] at goes
      | reused rule ip port matched found =>
        obtain ⟨gone,_⟩ := serving.evicted_gone now mapped (evicted rule matched)
        exact Alive.not_of_gone id pair (g := { g with ct := (g.track t now).2 }) mapped gone alive
      | dropped rule matched absent =>
        obtain ⟨gone,_⟩ := serving.evicted_gone now mapped (evicted rule matched)
        exact Alive.not_of_gone id pair (g := { g with ct := (g.track t now).2 }) mapped gone alive
      | mapped rule port next_port matched absent allocated =>
        obtain ⟨_,other,gone⟩ := serving.evicted_gone now mapped (evicted rule matched)
        refine Alive.not_of_gone id pair ?_ (gone _) alive
        simp only [NatTable.insert_mapping,Table.get_set]
        rw [if_neg other,mapped]
  | dnat packet => simp [removed,tracks] at goes
  | reap now =>
    cases taken
    have gone : (g.ct.reap_expired now).1.by_id.get id = none := by
      rw [reap_get]
      exact if_pos goes
    exact Alive.not_of_gone id pair (g := { g with ct := (g.ct.reap_expired now).1 }) mapped gone alive
lemma snat_refused {iface_out : String} {packet : List Byte} (parsed : parse_tuple_ipv4 packet = some t)
    (matched : g.nat.lookup_rule iface_out t.src_ip = some rule) (refused : (g.snat_postrouting now iface_out packet).2.1 = .Drop) :
    g.nat.allocate_port rule.iface_ip t.proto t.src_port = none := by
  unfold snat_postrouting at refused
  rw [parsed] at refused
  simp only [matched] at refused
  cases found : g.nat.lookup_ct (g.track t now).1.id with
  | some pair =>
    simp only [found] at refused
    cases refused
  | none =>
    cases allocated : g.nat.allocate_port rule.iface_ip t.proto t.src_port with
    | none => rfl
    | some out =>
      simp only [found,allocated] at refused
      cases refused
/-- As long as no mapped connection is evicted or reaped, every mapping belongs to a live connection,
    and a flow is refused only if each port of the range serves one. The first event that takes a
    mapped connection out leaves a mapping behind. -/
theorem mappings_live (rules : List MasqRule) (max_entries : Nat) (events : List HookEvent) (g : Gateway)
    (meets : Runs.Meets step Spares (new rules max_entries) events) (reached : Runs.run step (new rules max_entries) events = some g) :
    g.Alive ∧ (∀ now iface_out packet t rule, parse_tuple_ipv4 packet = some t → g.nat.lookup_rule iface_out t.src_ip = some rule →
      (g.snat_postrouting now iface_out packet).2.1 = .Drop → ∀ port, NAT_PORT_RANGE_LO ≤ port → port ≤ NAT_PORT_RANGE_HI →
        ∃ id, g.nat.by_ct.get id = some (rule.iface_ip,port) ∧ g.Serves id rule.iface_ip port t.proto) ∧
    ∀ event g', g.step event = some g' → (g'.Alive ↔ g.Spares event) := by
  have serving : g.Serving := Runs.invariant_of_meets (I := Serving) (fun _ _ _ serving spares taken => serving.step spares taken)
    (serving_new rules max_entries) meets reached
  refine ⟨serving.alive,?_,?_⟩
  · intro now iface_out packet t rule parsed matched refused port low high
    obtain ⟨pair,egress⟩ := NatTable.allocate_port_full (snat_refused parsed matched refused) port low high
    exact serving.alive.2 rule.iface_ip port t.proto pair egress
  · intro event g' taken
    exact ⟨serving.spares_of_alive taken,fun spares => (serving.step spares taken).alive⟩
/-- A flow is masqueraded and stays while an older one that is not is reaped. -/
theorem mappings_live_masqueraded : ∃ g, Runs.run step (new [Session.inside_rule] 4096)
    [.conntrack 0 (Session.asks.set 23 81),.snat 400000000000 "wan" Session.asks,.reap 400000000001] = some g ∧
      g.ct.by_id.get 1 = none ∧ g.nat.by_ct.get 2 = some (⟨1,2,3,4⟩,1000) ∧ g.Alive :=
  ⟨_,rfl,by decide,by decide,(mappings_live [Session.inside_rule] 4096
    [.conntrack 0 (Session.asks.set 23 81),.snat 400000000000 "wan" Session.asks,.reap 400000000001] _ (by decide) rfl).1⟩
/-- The flow is silent until it is reaped, and its mapping stays. -/
theorem mapping_outlives : ∃ g, Runs.run step (new [Session.inside_rule] 4096)
    [.snat 0 "wan" Session.asks,.reap 400000000000] = some g ∧ g.nat.by_ct.get 1 = some (⟨1,2,3,4⟩,1000) ∧
    g.nat.egress_map.get (⟨1,2,3,4⟩,1000,17) = some (⟨10,0,0,2⟩,1000) ∧ g.ct.by_id.get 1 = none ∧ ¬ g.Alive :=
  ⟨_,rfl,by decide,by decide,by decide,Alive.not_of_gone 1 (⟨1,2,3,4⟩,1000) (by decide) (by decide)⟩
end Gateway
end Narf.Net.Netfilter
