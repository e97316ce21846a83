import Narf.Lib.Runs
import Narf.Net.NatRun

namespace Narf.Net.Netfilter
open Lib Option
open Table (get_remove get_set get_remove_iff get_set_iff)

/-! The connection table over whole runs of insertions, rewritten replies, evictions and expiry:
    when its index by tuple and its entries name each other. -/

/-- What happens to the table: a packet's tuple is tracked, the reply of a connection is rewritten
    with its key, a connection sees a packet, or the expired ones are reaped. -/
inductive CtEvent where
  | insert_new (original : Tuple) (now_ns : Nat)
  | update_reply_tuple (id : Nat) (new_reply : Tuple)
  | tcp_advance (id : Nat) (flags : Byte) (is_reply : Bool) (now_ns : Nat)
  | refresh (id : Nat) (is_reply : Bool) (now_ns : Nat)
  | reap_expired (now_ns : Nat)

namespace Conntrack
def step (ct : Conntrack) : CtEvent → Option Conntrack
  | .insert_new original now_ns => some (ct.insert_new original now_ns).2
  | .update_reply_tuple id new_reply =>
    (ct.by_id.get id).map (fun e =>
      { ct with by_id := ct.by_id.set id (e.set_nat_reply new_reply) }.update_reply_tuple id e.reply new_reply)
  | .tcp_advance id flags is_reply now_ns => ct.modify id (fun e => Netfilter.tcp_advance e flags is_reply now_ns)
  | .refresh id is_reply now_ns => ct.modify id (fun e => (reply_seen e is_reply).refresh_expiry now_ns)
  | .reap_expired now_ns => some (ct.reap_expired now_ns).1

structure Coherent (ct : Conntrack) : Prop where
  found : ∀ id e, ct.by_id.get id = some e → ct.lookup e.original = some e ∧ ct.lookup e.reply = some e
  named : ∀ t id, ct.by_tuple.get t = some id → ∃ e, ct.by_id.get id = some e ∧ (t = e.original ∨ t = e.reply)
  bounded : ct.by_id.entries.length ≤ ct.max_entries
/-- The event takes no tuple away from a connection: a new connection's answer is no key yet once
    room is made, and a reply is rewritten to no other connection's tuple, nor away from a tuple that
    is its own answer. -/
def Separate (ct : Conntrack) : CtEvent → Prop
  | .insert_new t _ => ct.lookup t = none → 0 < ct.max_entries ∧ ct.make_room.by_tuple.get t.invert = none
  | .update_reply_tuple id new_reply =>
    (ct.by_tuple.get new_reply = none ∨ ct.by_tuple.get new_reply = some id) ∧
    ((ct.by_id.get id).all (fun e => e.reply ≠ e.original ∨ new_reply = e.original)) = true
  | _ => True
instance (ct : Conntrack) : DecidablePred ct.Separate := fun e => by
  unfold Separate; split <;> infer_instance

/-! ## One entry goes -/
/-- The entries under their ids, with both their tuples in the index. -/
structure Indexed (ct : Conntrack) : Prop where
  id : ∀ id e, ct.by_id.get id = some e → e.id = id ∧ id < ct.next_id
  keys : ∀ id e, ct.by_id.get id = some e → ct.by_tuple.get e.original = some id ∧ ct.by_tuple.get e.reply = some id
  named : ∀ t id, ct.by_tuple.get t = some id → ∃ e, ct.by_id.get id = some e ∧ (t = e.original ∨ t = e.reply)

variable {ct ct' : Conntrack} {id : Nat} {e : ConntrackEntry} {t : Tuple}
lemma indexed_new (max_entries : Nat) : (new max_entries).Indexed where
  id _ _ found := by cases found
  keys _ _ found := by cases found
  named _ _ found := by cases found
lemma lookup_of_key (key : ct.by_tuple.get t = some id) (entry : ct.by_id.get id = some e) : ct.lookup t = some e := by
  rw [lookup,key,bind_some,entry]
section
variable (indexed : ct.Indexed)
include indexed
lemma Indexed.lookup_none : ct.lookup t = none ↔ ct.by_tuple.get t = none := by
  constructor
  · intro absent
    cases key : ct.by_tuple.get t with
    | none => rfl
    | some id =>
      obtain ⟨e,entry,_⟩ := indexed.named t id key
      rw [lookup_of_key key entry] at absent
      cases absent
  · intro absent
    rw [lookup,absent,bind_none]
lemma Indexed.unused : ct.by_id.get ct.next_id = none := by
  cases there : ct.by_id.get ct.next_id with
  | none => rfl
  | some e => exact absurd (indexed.id _ e there).2 (lt_irrefl _)
lemma Indexed.coherent (bounded : ct.by_id.entries.length ≤ ct.max_entries) : ct.Coherent where
  found id e entry :=
    ⟨lookup_of_key (indexed.keys id e entry).1 entry,lookup_of_key (indexed.keys id e entry).2 entry⟩
  named := indexed.named
  bounded := bounded
lemma Indexed.forget (id : Nat) : (ct.forget id).Indexed := by
  cases entry : ct.by_id.get id with
  | none =>
    rw [Conntrack.forget,entry]
    exact indexed
  | some e =>
    rw [forget_eq entry]
    -- a tuple of another connection is none of the two that go
    have apart (other : Nat) (k : Tuple) (different : other ≠ id) (key : ct.by_tuple.get k = some other) :
        ((ct.by_tuple.remove e.original).remove e.reply).get k = some other := by
      rw [get_remove_iff,get_remove_iff]
      refine ⟨?_,?_,key⟩
      · rintro rfl
        exact different (some.inj (key.symm.trans (indexed.keys id e entry).2))
      · rintro rfl
        exact different (some.inj (key.symm.trans (indexed.keys id e entry).1))
    refine ⟨?_,?_,?_⟩
    · intro other x found
      exact indexed.id other x (get_remove_iff.mp found).2
    · intro other x found
      obtain ⟨different,there⟩ := get_remove_iff.mp found
      obtain ⟨original,reply⟩ := indexed.keys other x there
      exact ⟨apart other x.original different original,apart other x.reply different reply⟩
    · intro k other key
      simp only [get_remove_iff] at key
      obtain ⟨reply,original,key⟩ := key
      obtain ⟨x,there,tuple⟩ := indexed.named k other key
      have different : other ≠ id := by
        rintro rfl
        obtain rfl : x = e := some.inj (there.symm.trans entry)
        exact tuple.elim original reply
      exact ⟨x,get_remove_iff.mpr ⟨different,there⟩,tuple⟩
end
lemma size_eq (ids : Table Nat ConntrackEntry) : ids.entries.length = ids.total (fun _ => 1) := by
  simp [Table.total]
lemma size_remove (entry : ct.by_id.get id = some e) : (ct.by_id.remove id).entries.length + 1 = ct.by_id.entries.length := by
  have split := Table.total_remove (fun _ => 1) ct.by_id id
  rw [entry] at split
  simp only [elim_some] at split
  rw [size_eq,size_eq]
  omega
variable {ids : Table Nat ConntrackEntry} {event : CtEvent}
lemma size_set (entry : ids.get id = some e) (x : ConntrackEntry) : (ids.set id x).entries.length = ids.entries.length := by
  have split := Table.total_remove (fun _ => 1) ids id
  rw [entry] at split
  simp only [elim_some] at split
  rw [size_eq,size_eq,Table.total_set]
  omega
lemma size_set_new (fresh : ids.get id = none) (x : ConntrackEntry) : (ids.set id x).entries.length = ids.entries.length + 1 := by
  have split := Table.total_remove (fun _ => 1) ids id
  rw [fresh] at split
  simp only [elim_none] at split
  rw [size_eq,size_eq,Table.total_set]
  omega
lemma forget_size (ct : Conntrack) (id : Nat) : (ct.forget id).by_id.entries.length ≤ ct.by_id.entries.length := by
  cases entry : ct.by_id.get id with
  | none =>
    have same : ct.forget id = ct := by simp only [forget,entry]
    exact le_of_eq (congrArg (·.by_id.entries.length) same)
  | some e =>
    rw [forget_eq entry]
    have := size_remove entry
    dsimp only
    omega
lemma Indexed.evict_oldest (indexed : ct.Indexed) : ct.evict_oldest.Indexed := by
  rcases evict_oldest_eq ct with ⟨_,same⟩ | ⟨id,_,_,same,_⟩
  · rw [same]; exact indexed
  · rw [same]; exact indexed.forget id
lemma Indexed.make_room (indexed : ct.Indexed) : ct.make_room.Indexed := by
  unfold Conntrack.make_room
  split
  · exact indexed.evict_oldest
  · exact indexed
lemma make_room_fields (ct : Conntrack) : ct.make_room.max_entries = ct.max_entries ∧ ct.make_room.next_id = ct.next_id := by
  unfold make_room
  split
  · rcases evict_oldest_eq ct with ⟨_,same⟩ | ⟨id,_,_,same,_⟩
    · rw [same]; exact ⟨rfl,rfl⟩
    · rw [same]; exact forget_fields ct id
  · exact ⟨rfl,rfl⟩
lemma make_room_key (key : ct.make_room.by_tuple.get t = some id) : ct.by_tuple.get t = some id := by
  unfold make_room at key
  split at key
  · rcases evict_oldest_eq ct with ⟨_,same⟩ | ⟨victim,e,entry,same,_⟩
    · rw [same] at key; exact key
    · rw [same,forget_eq entry] at key
      exact (get_remove_iff.mp (get_remove_iff.mp key).2).2
  · exact key
lemma make_room_size (positive : 0 < ct.max_entries) (bounded : ct.by_id.entries.length ≤ ct.max_entries) :
    ct.make_room.by_id.entries.length < ct.max_entries := by
  unfold make_room
  by_cases full : ct.max_entries ≤ ct.by_id.entries.length
  · rw [if_pos full]
    rcases evict_oldest_eq ct with ⟨empty,_⟩ | ⟨id,e,entry,same,_⟩
    · rw [empty,List.length_nil] at full
      omega
    · have := size_remove entry
      rw [same,forget_eq entry]
      dsimp only
      omega
  · rw [if_neg full]
    omega

/-! ## Each event -/
lemma insert_new_eq (absent : ct.lookup t = none) (now : Nat) : (ct.insert_new t now).2 = { ct.make_room with
      next_id := ct.make_room.next_id + 1,
      by_tuple := (ct.make_room.by_tuple.set t ct.make_room.next_id).set t.invert ct.make_room.next_id,
      by_id := ct.make_room.by_id.set ct.make_room.next_id (ConntrackEntry.new ct.make_room.next_id t now) } := by
  rw [insert_new,absent]
  rfl
lemma Indexed.insert (indexed : ct.Indexed) {now : Nat} (fresh : ct.by_tuple.get t = none) (answer : ct.by_tuple.get t.invert = none) :
    Indexed { ct with
      next_id := ct.next_id + 1,by_tuple := (ct.by_tuple.set t ct.next_id).set t.invert ct.next_id,
      by_id := ct.by_id.set ct.next_id (ConntrackEntry.new ct.next_id t now) } := by
  have key (k : Tuple) : ((ct.by_tuple.set t ct.next_id).set t.invert ct.next_id).get k =
      if k = t.invert ∨ k = t then some ct.next_id else ct.by_tuple.get k := by
    rw [get_set,get_set]
    by_cases first : k = t.invert
    · rw [if_pos first,if_pos (.inl first)]
    · rw [if_neg first]
      by_cases second : k = t
      · rw [if_pos second,if_pos (.inr second)]
      · rw [if_neg second,if_neg (by tauto)]
  have old (k : Tuple) (id : Nat) (there : ct.by_tuple.get k = some id) :
      ((ct.by_tuple.set t ct.next_id).set t.invert ct.next_id).get k = some id := by
    rw [key,if_neg,there]
    rintro (rfl | rfl)
    · rw [answer] at there; cases there
    · rw [fresh] at there; cases there
  refine ⟨?_,?_,?_⟩
  · intro id e entry
    dsimp only at entry ⊢
    rcases get_set_iff.mp entry with ⟨same,rfl⟩ | ⟨_,entry⟩
    · exact ⟨same.symm,by omega⟩
    · have := indexed.id id e entry
      exact ⟨this.1,by omega⟩
  · intro id e entry
    rcases get_set_iff.mp entry with ⟨same,rfl⟩ | ⟨_,entry⟩
    · constructor
      · rw [key,if_pos (.inr rfl),same]
      · rw [key,if_pos (.inl rfl),same]
    · obtain ⟨original,reply⟩ := indexed.keys id e entry
      exact ⟨old _ _ original,old _ _ reply⟩
  · intro k id there
    rw [key] at there
    by_cases mine : k = t.invert ∨ k = t
    · rw [if_pos mine] at there
      cases there
      exact ⟨_,by rw [get_set,if_pos rfl],mine.symm⟩
    · rw [if_neg mine] at there
      obtain ⟨e,entry,tuple⟩ := indexed.named k id there
      refine ⟨e,?_,tuple⟩
      rw [get_set,if_neg]
      · exact entry
      · rintro rfl
        exact absurd (indexed.id _ e entry).2 (lt_irrefl _)
lemma Indexed.rewrite (indexed : ct.Indexed) (entry : ct.by_id.get id = some e) {reply : Tuple}
    (free : ct.by_tuple.get reply = none ∨ ct.by_tuple.get reply = some id) (kept : e.reply ≠ e.original ∨ reply = e.original) :
    Indexed ({ ct with by_id := ct.by_id.set id (e.set_nat_reply reply) }.update_reply_tuple id e.reply reply) := by
  obtain ⟨original,old_reply⟩ := indexed.keys id e entry
  have key (k : Tuple) : ((ct.by_tuple.remove e.reply).set reply id).get k =
      if k = reply then some id else if k = e.reply then none else ct.by_tuple.get k := by
    rw [get_set,get_remove]
  have others (k : Tuple) (other : Nat) (different : other ≠ id) (there : ct.by_tuple.get k = some other) :
      ((ct.by_tuple.remove e.reply).set reply id).get k = some other := by
    rw [key,if_neg,if_neg,there]
    · rintro rfl
      exact different (some.inj (there.symm.trans old_reply))
    · rintro rfl
      rcases free with none | mine
      · rw [none] at there; cases there
      · exact different (some.inj (there.symm.trans mine))
  refine ⟨?_,?_,?_⟩
  · intro other x found
    rcases get_set_iff.mp found with ⟨rfl,rfl⟩ | ⟨_,found⟩
    · exact indexed.id other e entry
    · exact indexed.id other x found
  · intro other x found
    rcases get_set_iff.mp found with ⟨rfl,rfl⟩ | ⟨same,found⟩
    · constructor
      · -- the original keeps its key: it is the new reply, or was not the old one
        show ((ct.by_tuple.remove e.reply).set reply other).get e.original = some other
        rw [key]
        by_cases now : e.original = reply
        · rw [if_pos now]
        · rw [if_neg now,if_neg,original]
          intro was
          rcases kept with differs | equals
          · exact differs was.symm
          · exact now equals.symm
      · show ((ct.by_tuple.remove e.reply).set reply other).get reply = some other
        rw [key,if_pos rfl]
    · obtain ⟨first,second⟩ := indexed.keys other x found
      exact ⟨others _ _ same first,others _ _ same second⟩
  · intro k other there
    simp only [update_reply_tuple,get_set_iff,get_remove_iff] at there
    rcases there with ⟨new,rfl⟩ | ⟨_,gone,there⟩
    · exact ⟨_,get_set_iff.mpr (.inl ⟨rfl,rfl⟩),.inr new⟩
    obtain ⟨x,found,tuple⟩ := indexed.named k other there
    by_cases same : other = id
    · subst same
      obtain rfl : x = e := some.inj (found.symm.trans entry)
      exact ⟨_,get_set_iff.mpr (.inl ⟨rfl,rfl⟩),.inl (tuple.resolve_right gone)⟩
    · exact ⟨x,get_set_iff.mpr (.inr ⟨same,found⟩),tuple⟩
lemma Indexed.modify {f : ConntrackEntry → ConntrackEntry} (indexed : ct.Indexed)
    (same : ∀ e, (f e).id = e.id ∧ (f e).original = e.original ∧ (f e).reply = e.reply) (taken : ct.modify id f = some ct') :
    ct'.Indexed := by
  obtain ⟨e,entry,rfl⟩ := map_eq_some_iff.mp taken
  have before (other : Nat) (x : ConntrackEntry) (found : (ct.by_id.set id (f e)).get other = some x) :
      ∃ y, ct.by_id.get other = some y ∧ x.id = y.id ∧ x.original = y.original ∧ x.reply = y.reply := by
    rcases get_set_iff.mp found with ⟨rfl,rfl⟩ | ⟨_,found⟩
    · exact ⟨e,entry,same e⟩
    · exact ⟨x,found,rfl,rfl,rfl⟩
  refine ⟨?_,?_,?_⟩
  · intro other x found
    obtain ⟨y,there,number,_,_⟩ := before other x found
    rw [number]
    exact indexed.id other y there
  · intro other x found
    obtain ⟨y,there,_,original,reply⟩ := before other x found
    rw [original,reply]
    exact indexed.keys other y there
  · intro k other there
    obtain ⟨x,found,tuple⟩ := indexed.named k other there
    by_cases here : other = id
    · subst here
      obtain rfl : x = e := some.inj (found.symm.trans entry)
      refine ⟨f x,get_set_iff.mpr (.inl ⟨rfl,rfl⟩),?_⟩
      rw [(same x).2.1,(same x).2.2]
      exact tuple
    · exact ⟨x,get_set_iff.mpr (.inr ⟨here,found⟩),tuple⟩
lemma advance_same (e : ConntrackEntry) (flags : Byte) (is_reply : Bool) (now : Nat) :
    (tcp_advance e flags is_reply now).id = e.id ∧ (tcp_advance e flags is_reply now).original = e.original ∧
    (tcp_advance e flags is_reply now).reply = e.reply :=
  ⟨rfl,rfl,rfl⟩
lemma reply_seen_same (e : ConntrackEntry) (is_reply : Bool) :
    (reply_seen e is_reply).id = e.id ∧ (reply_seen e is_reply).original = e.original ∧ (reply_seen e is_reply).reply = e.reply := by
  unfold reply_seen
  split
  · exact ⟨rfl,rfl,rfl⟩
  · exact ⟨rfl,rfl,rfl⟩
lemma Indexed.reap (indexed : ct.Indexed) (now : Nat) : (ct.reap_expired now).1.Indexed := by
  have all (ids : List Nat) (ct : Conntrack) (indexed : ct.Indexed) : (ids.foldl Conntrack.forget ct).Indexed := by
    induction ids generalizing ct with
    | nil => exact indexed
    | cons id rest ih => exact ih (ct.forget id) (indexed.forget id)
  exact all _ ct indexed
lemma reap_size (ct : Conntrack) (now : Nat) :
    (ct.reap_expired now).1.by_id.entries.length ≤ ct.by_id.entries.length ∧ (ct.reap_expired now).1.max_entries = ct.max_entries := by
  have all (ids : List Nat) (ct : Conntrack) : (ids.foldl forget ct).by_id.entries.length ≤ ct.by_id.entries.length ∧
      (ids.foldl forget ct).max_entries = ct.max_entries := by
    induction ids generalizing ct with
    | nil => exact ⟨le_refl _,rfl⟩
    | cons id rest ih =>
      obtain ⟨smaller,same⟩ := ih (ct.forget id)
      exact ⟨le_trans smaller (forget_size ct id),same.trans (forget_fields ct id).1⟩
  exact all _ ct

/-! ## Whole runs -/
/-- The index names its entries, and there are not too many. -/
def Kept (ct : Conntrack) : Prop := ct.Indexed ∧ ct.by_id.entries.length ≤ ct.max_entries
lemma Kept.coherent (kept : ct.Kept) : ct.Coherent := kept.1.coherent kept.2
lemma Kept.step (kept : ct.Kept) (separate : ct.Separate event) (taken : ct.step event = some ct') : ct'.Kept := by
  obtain ⟨indexed,bounded⟩ := kept
  cases event with
  | insert_new t now =>
    cases taken
    cases known : ct.lookup t with
    | some e =>
      rw [insert_new,known]
      exact ⟨indexed,bounded⟩
    | none =>
      obtain ⟨positive,answer⟩ := separate known
      have fresh : ct.make_room.by_tuple.get t = none := by
        cases there : ct.make_room.by_tuple.get t with
        | none => rfl
        | some id =>
          have before := make_room_key there
          rw [indexed.lookup_none.mp known] at before
          cases before
      have room := make_room_size positive bounded
      have unused := indexed.make_room.unused
      rw [insert_new_eq known]
      refine ⟨indexed.make_room.insert fresh answer,?_⟩
      dsimp only
      rw [size_set_new unused,(make_room_fields ct).1]
      exact room
  | update_reply_tuple id reply =>
    obtain ⟨e,entry,rfl⟩ := map_eq_some_iff.mp taken
    obtain ⟨free,keeps⟩ := separate
    rw [entry] at keeps
    refine ⟨indexed.rewrite entry free (by simpa using keeps),?_⟩
    show (ct.by_id.set id _).entries.length ≤ _
    rw [size_set entry]
    exact bounded
  | tcp_advance id flags is_reply now =>
    refine ⟨indexed.modify (advance_same · flags is_reply now) taken,?_⟩
    obtain ⟨e,entry,rfl⟩ := map_eq_some_iff.mp taken
    show (ct.by_id.set id _).entries.length ≤ _
    rw [size_set entry]
    exact bounded
  | refresh id is_reply now =>
    refine ⟨indexed.modify (f := fun e => (reply_seen e is_reply).refresh_expiry now) (reply_seen_same · is_reply) taken,?_⟩
    obtain ⟨e,entry,rfl⟩ := map_eq_some_iff.mp taken
    show (ct.by_id.set id _).entries.length ≤ _
    rw [size_set entry]
    exact bounded
  | reap_expired now =>
    cases taken
    refine ⟨indexed.reap now,?_⟩
    obtain ⟨smaller,same⟩ := reap_size ct now
    rw [same]
    exact le_trans smaller bounded
/-- An event that takes a tuple away from a connection leaves it lost to the index. -/
lemma Kept.separate_of_coherent (kept : ct.Kept) (taken : ct.step event = some ct') (coherent : ct'.Coherent) : ct.Separate event := by
  obtain ⟨indexed,bounded⟩ := kept
  cases event with
  | insert_new t now =>
    intro known
    have result : (ct.insert_new t now).2 = ct' := some.inj taken
    rw [insert_new_eq known] at result
    have unused := indexed.make_room.unused
    constructor
    · have fits := coherent.bounded
      rw [← result] at fits
      dsimp only at fits
      rw [size_set_new unused,(make_room_fields ct).1] at fits
      omega
    · cases there : ct.make_room.by_tuple.get t.invert with
      | none => rfl
      | some id =>
        -- the connection that had this tuple is not found under it any more
        exfalso
        obtain ⟨e,entry,tuple⟩ := indexed.make_room.named _ id there
        obtain ⟨number,below⟩ := indexed.make_room.id id e entry
        have still : ct'.by_id.get id = some e := by
          rw [← result]
          dsimp only
          rw [get_set,if_neg (by omega),entry]
        have taken_over : ct'.lookup t.invert = some (ConntrackEntry.new ct.make_room.next_id t now) := by
          rw [← result]
          refine @lookup_of_key _ ct.make_room.next_id _ _ ?_ ?_
          · dsimp only
            rw [get_set,if_pos rfl]
          · dsimp only
            rw [get_set,if_pos rfl]
        obtain ⟨original,reply⟩ := coherent.found id e still
        have same : e = ConntrackEntry.new ct.make_room.next_id t now := by
          rcases tuple with first | second
          · rw [← first] at original
            exact some.inj (original.symm.trans taken_over)
          · rw [← second] at reply
            exact some.inj (reply.symm.trans taken_over)
        have named : e.id = ct.make_room.next_id := by rw [same]; rfl
        omega
  | update_reply_tuple id reply =>
    obtain ⟨e,entry,rfl⟩ := map_eq_some_iff.mp taken
    have mine : Conntrack.lookup ({ ct with by_id := ct.by_id.set id (e.set_nat_reply reply) }.update_reply_tuple id e.reply reply)
        reply = some (e.set_nat_reply reply) := by
      refine @lookup_of_key _ id _ _ ?_ ?_
      · show ((ct.by_tuple.remove e.reply).set reply id).get reply = _
        rw [get_set,if_pos rfl]
      · show (ct.by_id.set id _).get id = _
        rw [get_set,if_pos rfl]
    constructor
    · cases there : ct.by_tuple.get reply with
      | none => exact .inl rfl
      | some other =>
        by_cases same : other = id
        · exact .inr (by rw [same])
        exfalso
        obtain ⟨x,found,tuple⟩ := indexed.named _ other there
        obtain ⟨original,answer⟩ := coherent.found other x (by
          show (ct.by_id.set id _).get other = _
          rw [get_set,if_neg same,found])
        have equal : x = e.set_nat_reply reply := by
          rcases tuple with first | second
          · rw [← first] at original
            exact some.inj (original.symm.trans mine)
          · rw [← second] at answer
            exact some.inj (answer.symm.trans mine)
        have number : x.id = e.id := by rw [equal]; rfl
        rw [(indexed.id other x found).1,(indexed.id id e entry).1] at number
        exact same number
    · rw [entry]
      simp only [all_some,decide_eq_true_eq]
      by_contra lost
      have self : e.reply = e.original := by tauto
      have moved : reply ≠ e.original := by tauto
      have still := (coherent.found id (e.set_nat_reply reply) (by
        show (ct.by_id.set id _).get id = _
        rw [get_set,if_pos rfl])).1
      obtain ⟨other,key,_⟩ := get_of_lookup still
      have gone : ((ct.by_tuple.remove e.reply).set reply id).get e.original = none := by
        rw [get_set,if_neg (moved ·.symm),get_remove,if_pos self.symm]
      exact absurd (gone.symm.trans key) nofun
  | tcp_advance | refresh | reap_expired => exact trivial
/-- In every run whose events take no tuple away from a connection, the index stays coherent; an event
    that does not keep to this breaks it at once. -/
theorem index_coherent (max_entries : Nat) (es : List CtEvent) (ct : Conntrack)
    (meets : Runs.Meets step Separate (new max_entries) es) (reached : Runs.run step (new max_entries) es = some ct) :
    ct.Coherent ∧ ∀ event ct', ct.step event = some ct' → (ct'.Coherent ↔ ct.Separate event) := by
  have kept : ct.Kept := Runs.invariant_of_meets (I := Kept) (fun _ _ _ kept separate taken => kept.step separate taken)
    ⟨indexed_new max_entries,Nat.zero_le _⟩ meets reached
  exact ⟨kept.coherent,fun event ct' taken => ⟨kept.separate_of_coherent taken,fun separate => (kept.step separate taken).coherent⟩⟩
/-- A query leaves, its reply is rewritten by masquerading, and the peer then sends to the inside
    address itself. -/
def query : Tuple := ⟨⟨10,0,0,2⟩,⟨8,8,8,8⟩,5000,53,17⟩
def masqueraded : Tuple := ⟨⟨8,8,8,8⟩,⟨1,2,3,4⟩,53,5000,17⟩
theorem index_coherent_masqueraded :
    ∃ ct, Runs.run step (new 4096) [.insert_new query 0,.update_reply_tuple 1 masqueraded] = some ct ∧ ct.Coherent :=
  ⟨_,rfl,(index_coherent 4096 [.insert_new query 0,.update_reply_tuple 1 masqueraded] _ (by decide) rfl).1⟩
/-- The first connection is then no longer found under its own tuple. -/
theorem index_incoherent : ∃ ct e, Runs.run step (new 4096)
    [.insert_new query 0,.update_reply_tuple 1 masqueraded,.insert_new query.invert 1] = some ct ∧
    ct.by_id.get 1 = some e ∧ e.original = query ∧ ct.lookup e.original ≠ some e :=
  ⟨_,_,rfl,rfl,rfl,by decide⟩
end Conntrack
end Narf.Net.Netfilter
