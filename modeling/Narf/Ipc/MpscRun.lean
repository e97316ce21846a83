import Narf.Ipc.MpscRing

namespace Narf.Ipc.MpscRing
open Lib Lib.RingIndex Lib.SeqRing List Option Function
variable {α : Type}

/-! The ring of many producers delivers every message once, each producer's in its order, as long as it
    has two slots or more and no producer sleeps while the positions go half round. -/

/-- The message of a claim that its producer has not published. -/
def Producer.held : Producer α → Option α
  | .sending msg (.write _ _) => some msg
  | .sending msg (.store_seq _ _) => some msg
  | _ => none
/-- A message is out of its slot and the slot not given back. -/
def Consumer.busy : Consumer → Bool
  | .receiving (.store_head _) => true
  | .receiving (.store_seq _) => true
  | _ => false
def SendOk (k : Nat) (log : List (Entry α)) (c : Nat) : Producer α → Prop
  | .sending _ (.load_seq pos since) => pos = since % 2 ^ 64 ∧ since ≤ log.length
  | .sending _ (.compare_exchange pos since) => pos = since % 2 ^ 64 ∧ since ≤ log.length ∧ (since = log.length → Free k log)
  | .sending msg (.write pos place) => pos = place % 2 ^ 64 ∧ log[place]? = some ⟨msg,c,.reserved⟩
  | .sending msg (.store_seq pos place) => pos = place % 2 ^ 64 ∧ log[place]? = some ⟨msg,c,.written⟩
  | _ => True
/-- What the consumer knows, `r` messages being received. -/
def RecvOk (log : List (Entry α)) (r : Nat) : Consumer → Prop
  | .receiving (.load_seq pos) => pos = r % 2 ^ 64
  | .receiving (.read pos) => pos = r % 2 ^ 64 ∧ ∃ e, log[r]? = some e ∧ e.phase = .published
  | .receiving (.store_head pos) => ∃ p, r = p + 1 ∧ pos = p % 2 ^ 64 ∧ ∃ e, log[p]? = some e ∧ e.phase = .taken
  | .receiving (.store_seq pos) => ∃ p, r = p + 1 ∧ pos = p % 2 ^ 64 ∧ ∃ e, log[p]? = some e ∧ e.phase = .taken
  | _ => True
/-- The head word, which the consumer stores after it has read the payload. -/
def HeadOk (head r : Nat) : Consumer → Prop
  | .receiving (.store_head _) => ∃ p, r = p + 1 ∧ head = p % 2 ^ 64
  | _ => head = r % 2 ^ 64
/-- Each claim that is not published is in the hands of the producer that made it, and its last. -/
structure Writers (k : Nat) (log : List (Entry α)) (producers : Nat → Producer α) (sent : Nat → List α) : Prop where
  sends : ∀ c, SendOk k log c (producers c)
  order : ∀ c, ((tags log).filter (fun x => x.1 = c)).map Prod.snd = sent c ++ (producers c).held.toList
  reserved : ∀ p e, log[p]? = some e → e.phase = .reserved → producers e.party = .sending e.msg (.write (p % 2 ^ 64) p)
  written : ∀ p e, log[p]? = some e → e.phase = .written → producers e.party = .sending e.msg (.store_seq (p % 2 ^ 64) p)
/-- The claims up to the last message received are released, those after it are on their way. -/
structure Readers (log : List (Entry α)) (received : List (Option α)) (consumer : Consumer) : Prop where
  recv : RecvOk log received.length consumer
  order : received = ((tags log).take received.length).map (fun x => some x.2)
  within : received.length ≤ log.length
  done : ∀ p e, log[p]? = some e → p < received.length → e.phase = .released ∨ (consumer.busy = true ∧ p + 1 = received.length)
  todo : ∀ p e, log[p]? = some e → received.length ≤ p → e.phase = .reserved ∨ e.phase = .written ∨ e.phase = .published

variable {k c : Nat} {log log' : List (Entry α)} {producers : Nat → Producer α} {sent : Nat → List α} {received : List (Option α)}
  {consumer : Consumer} {p : Producer α} {e : Entry α} {msg : α} {place : Nat}

/-! ## Producers -/
lemma SendOk.mono (ok : SendOk k log c p) (longer : log.length ≤ log'.length)
    (kept : ∀ (q : Nat) (e : Entry α), log[q]? = some e → e.party = c → e.phase = .reserved ∨ e.phase = .written → log'[q]? = some e)
    (free : log'.length = log.length → Free k log → Free k log') : SendOk k log' c p := by
  cases p with
  | sending msg at_ =>
    cases at_ with
    | load_gone | load_tail => trivial
    | load_seq pos since => exact ⟨ok.1,le_trans ok.2 longer⟩
    | compare_exchange pos since =>
      refine ⟨ok.1,le_trans ok.2.1 longer,?_⟩
      rintro rfl
      have same : log'.length = log.length := le_antisymm ok.2.1 longer
      exact free same (ok.2.2 same)
    | write pos place => exact ⟨ok.1,kept _ _ ok.2 rfl (.inl rfl)⟩
    | store_seq pos place => exact ⟨ok.1,kept _ _ ok.2 rfl (.inr rfl)⟩
  | _ => trivial
section
variable (writers : Writers k log producers sent)
include writers
lemma Writers.move (before : (producers c).held = none) (after : p.held = none)
    (own : SendOk k log c p) : Writers k log (update producers c p) sent := by
  have other (e : Entry α) {q : Producer α} (holds : producers e.party = q) (some : q.held ≠ none) :
      update producers c p e.party = q := by
    rw [update_of_ne,holds]
    rintro rfl
    rw [holds] at before
    exact some before
  refine ⟨?_,?_,?_,?_⟩
  · intro d
    by_cases same : d = c
    · rw [same,update_self]
      exact own
    · rw [update_of_ne same]
      exact writers.sends d
  · intro d
    rw [writers.order d]
    by_cases same : d = c
    · rw [same,update_self,before,after]
    · rw [update_of_ne same]
  · intro q e here phase
    exact other e (writers.reserved q e here phase) (some_ne_none _)
  · intro q e here phase
    exact other e (writers.written q e here phase) (some_ne_none _)
lemma Writers.reserve (before : (producers c).held = none) (msg : α) : Writers k (log ++ [⟨msg,c,.reserved⟩])
      (update producers c (.sending msg (.write (log.length % 2 ^ 64) log.length))) sent := by
  have holder (e : Entry α) {q : Producer α} (holds : producers e.party = q) (some : q.held ≠ none) : e.party ≠ c := by
    rintro rfl
    rw [holds] at before
    exact some before
  refine ⟨?_,?_,?_,?_⟩
  · intro d
    by_cases same : d = c
    · rw [same,update_self]
      exact ⟨rfl,getElem?_concat_length ..⟩
    · rw [update_of_ne same]
      refine SendOk.mono (writers.sends d) ?_ ?_ ?_
      · rw [length_append]
        exact Nat.le_add_right _ _
      · intro q e here _ _
        rw [getElem?_append_left (lt_of_get here)]
        exact here
      · intro shorter _
        rw [length_append,length_singleton] at shorter
        omega
  · intro d
    rw [tags_append,filter_append,map_append,writers.order d]
    by_cases same : d = c
    · rw [same,update_self,before,filter_cons_of_pos (by simp)]
      simp [Producer.held]
    · rw [update_of_ne same,filter_cons_of_neg (by simpa using Ne.symm same)]
      simp
  · intro q e here phase
    rcases get_concat here with old | ⟨rfl,rfl⟩
    · have holds := writers.reserved q e old phase
      rw [update_of_ne (holder e holds (some_ne_none _)),holds]
    · rw [update_self]
  · intro q e here phase
    rcases get_concat here with old | ⟨_,rfl⟩
    · have holds := writers.written q e old phase
      rw [update_of_ne (holder e holds (some_ne_none _)),holds]
    · cases phase
lemma Writers.advance {phase phase' : Phase} {sent' : Nat → List α} (here : log[place]? = some ⟨msg,c,phase⟩) (held : phase ≠ .released)
    (mine : ∀ q e, log[q]? = some e → e.party = c → e.phase = .reserved ∨ e.phase = .written → q = place)
    (own : SendOk k (advance log place phase') c p) (later : phase' ≠ .reserved)
    (written : phase' = .written → p = .sending msg (.store_seq (place % 2 ^ 64) place))
    (counts : sent' c ++ p.held.toList = sent c ++ (producers c).held.toList) (others : ∀ d, d ≠ c → sent' d = sent d) :
    Writers k (SeqRing.advance log place phase') (update producers c p) sent' := by
  refine ⟨?_,?_,?_,?_⟩
  · intro d
    by_cases same : d = c
    · rw [same,update_self]
      exact own
    · rw [update_of_ne same]
      refine SendOk.mono (writers.sends d) (le_of_eq (length_advance ..).symm) ?_ ?_
      · intro q e there party _
        rw [get_advance_ne]
        · exact there
        · rintro rfl
          rw [here] at there
          cases there
          exact same party.symm
      · intro _ free
        exact free.advance (fun e there => by rw [here] at there; cases there; exact held) phase'
  · intro d
    rw [tags_advance,writers.order d]
    by_cases same : d = c
    · rw [same,update_self,counts]
    · rw [update_of_ne same,others d same]
  · intro q e there phase
    rcases get_advance there with ⟨_,x,_,rfl⟩ | ⟨different,old⟩
    · exact absurd phase later
    · rw [update_of_ne]
      · exact writers.reserved q e old phase
      · exact fun party => different (mine q e old party (.inl phase))
  · intro q e there phase
    rcases get_advance there with ⟨rfl,x,known,rfl⟩ | ⟨different,old⟩
    · rw [here] at known
      cases known
      rw [update_self]
      exact written phase
    · rw [update_of_ne]
      · exact writers.written q e old phase
      · exact fun party => different (mine q e old party (.inr phase))
lemma Writers.write {pos : Nat} (here : producers c = .sending msg (.write pos place)) :
    Writers k (SeqRing.advance log place .written) (update producers c (.sending msg (.store_seq pos place))) sent := by
  have own := writers.sends c
  rw [here] at own
  obtain ⟨rfl,entry⟩ := own
  refine writers.advance entry (by decide) ?_ ⟨rfl,get_advance_self entry _⟩ (by decide) (fun _ => rfl) (by rw [here]; rfl) fun _ _ => rfl
  rintro q e there rfl phase
  rcases phase with reserved | written
  · have holds := writers.reserved q e there reserved
    rw [here] at holds
    simp only [Producer.sending.injEq,SendAt.write.injEq] at holds
    exact holds.2.2.symm
  · have holds := writers.written q e there written
    rw [here] at holds
    cases holds
lemma Writers.publish {pos : Nat} (here : producers c = .sending msg (.store_seq pos place)) :
    Writers k (SeqRing.advance log place .published) (update producers c .idle) (update sent c (sent c ++ [msg])) := by
  have own := writers.sends c
  rw [here] at own
  obtain ⟨rfl,entry⟩ := own
  refine writers.advance entry (by decide) ?_ trivial (by decide) (fun published => by cases published) ?_
    fun d different => update_of_ne different ..
  · rintro q e there rfl phase
    rcases phase with reserved | written
    · have holds := writers.reserved q e there reserved
      rw [here] at holds
      cases holds
    · have holds := writers.written q e there written
      rw [here] at holds
      simp only [Producer.sending.injEq,SendAt.store_seq.injEq] at holds
      exact holds.2.2.symm
  · rw [update_self,here]
    simp [Producer.held]
lemma Writers.read {phase : Phase} (here : log[place]? = some e)
    (seen : e.phase = .published ∨ e.phase = .taken) (later : phase = .taken ∨ phase = .released) :
    Writers k (SeqRing.advance log place phase) producers sent := by
  have held : e.phase ≠ .released := by rcases seen with h | h <;> rw [h] <;> decide
  refine ⟨?_,?_,?_,?_⟩
  · intro d
    refine SendOk.mono (writers.sends d) (le_of_eq (length_advance ..).symm) ?_ ?_
    · intro q x there _ early
      rw [get_advance_ne]
      · exact there
      · rintro rfl
        rw [here] at there
        cases there
        rcases seen with h | h <;> rw [h] at early <;> rcases early with h | h <;> cases h
    · intro _ free
      exact free.advance (fun x there => by rw [here] at there; cases there; exact held) phase
  · intro d
    rw [tags_advance]
    exact writers.order d
  · intro q x there early
    rcases get_advance there with ⟨_,y,_,rfl⟩ | ⟨_,old⟩
    · rcases later with rfl | rfl <;> cases early
    · exact writers.reserved q x old early
  · intro q x there early
    rcases get_advance there with ⟨_,y,_,rfl⟩ | ⟨_,old⟩
    · rcases later with rfl | rfl <;> cases early
    · exact writers.written q x old early
lemma Writers.in_hand (held : (producers c).held = some msg) :
    ∃ (place : Nat) (e : Entry α), log[place]? = some e ∧ e.party = c ∧ (e.phase = .reserved ∨ e.phase = .written) := by
  have own := writers.sends c
  cases at_ : producers c with
  | sending m step =>
    rw [at_] at held own
    cases step with
    | write pos place => exact ⟨place,_,own.2,rfl,.inl rfl⟩
    | store_seq pos place => exact ⟨place,_,own.2,rfl,.inr rfl⟩
    | _ => cases held
  | _ => rw [at_] at held; cases held
end

/-! ## The consumer -/
lemma RecvOk.mono {r : Nat} (ok : RecvOk log r consumer)
    (kept : ∀ (q : Nat) (e : Entry α), log[q]? = some e → e.phase = .published ∨ e.phase = .taken → log'[q]? = some e) :
    RecvOk log' r consumer := by
  cases consumer with
  | receiving at_ =>
    cases at_ with
    | load_seq pos => exact ok
    | read pos =>
      obtain ⟨same,e,here,phase⟩ := ok
      exact ⟨same,e,kept r e here (.inl phase),phase⟩
    | store_head pos | store_seq pos =>
      obtain ⟨p,last,same,e,here,phase⟩ := ok
      exact ⟨p,last,same,e,kept p e here (.inr phase),phase⟩
    | _ => trivial
  | _ => trivial
section
variable (readers : Readers log received consumer)
include readers
lemma Readers.reserve (msg : α) (c : Nat) : Readers (log ++ [⟨msg,c,.reserved⟩]) received consumer := by
  have within := readers.within
  refine ⟨RecvOk.mono readers.recv ?_,?_,?_,?_,?_⟩
  · intro q e here _
    rw [getElem?_append_left (lt_of_get here)]
    exact here
  · rw [tags_append,take_append_of_le_length (by rw [length_tags]; exact within)]
    exact readers.order
  · rw [length_append]
    omega
  · intro q e there early
    rcases get_concat there with old | ⟨rfl,_⟩
    · exact readers.done q e old early
    · omega
  · intro q e there late
    rcases get_concat there with old | ⟨_,rfl⟩
    · exact readers.todo q e old late
    · exact .inl rfl
lemma Readers.advance {phase : Phase} (here : log[place]? = some e)
    (early : e.phase = .reserved ∨ e.phase = .written) (later : phase = .written ∨ phase = .published) :
    Readers (SeqRing.advance log place phase) received consumer := by
  -- a claim on its way is behind the last message received
  have behind (q : Nat) (x : Entry α) (there : log[q]? = some x) (done : x.phase = .published ∨ x.phase = .taken) : q ≠ place := by
    rintro rfl
    rw [here] at there
    cases there
    rcases early with h | h <;> rw [h] at done <;> rcases done with h | h <;> cases h
  refine ⟨RecvOk.mono readers.recv ?_,?_,?_,?_,?_⟩
  · intro q x there done
    rw [get_advance_ne (behind q x there done)]
    exact there
  · rw [tags_advance]
    exact readers.order
  · rw [length_advance]
    exact readers.within
  · intro q x there first
    rcases get_advance there with ⟨rfl,y,known,rfl⟩ | ⟨_,old⟩
    · rcases readers.done q y known first with released | busy
      · rw [here] at known
        cases known
        rcases early with h | h <;> rw [h] at released <;> cases released
      · exact .inr busy
    · exact readers.done q x old first
  · intro q x there late
    rcases get_advance there with ⟨rfl,y,known,rfl⟩ | ⟨_,old⟩
    · exact .inr later
    · exact readers.todo q x old late
lemma Readers.move {consumer' : Consumer} (same : consumer'.busy = consumer.busy)
    (recv : RecvOk log received.length consumer') : Readers log received consumer' := by
  refine ⟨recv,readers.order,readers.within,?_,readers.todo⟩
  intro q e here early
  rw [same]
  exact readers.done q e here early
lemma Readers.released (rests : consumer.busy = false) {q : Nat}
    (here : log[q]? = some e) (early : q < received.length) : e.phase = .released := by
  rcases readers.done q e here early with released | ⟨busy,_⟩
  · exact released
  · rw [rests] at busy
    cases busy
lemma Readers.out {q : Nat} (here : log[q]? = some e) (early : q < received.length) : e.phase = .released ∨ e.phase = .taken := by
  rcases readers.done q e here early with released | ⟨busy,last⟩
  · exact .inl released
  have recv := readers.recv
  cases consumer with
  | receiving step =>
    cases step with
    | store_head pos | store_seq pos =>
      obtain ⟨r,count,_,x,there,taken⟩ := recv
      have same : q = r := by omega
      rw [same,there] at here
      cases here
      exact .inr taken
    | _ => cases busy
  | _ => cases busy
lemma Readers.read {pos : Nat} (rests : consumer.busy = false)
    (same : pos = received.length % 2 ^ 64) (here : log[received.length]? = some e) :
    Readers (SeqRing.advance log received.length .taken) (received ++ [some e.msg]) (.receiving (.store_head pos)) := by
  have longer : (received ++ [some e.msg]).length = received.length + 1 := by rw [length_append,length_singleton]
  refine ⟨?_,?_,?_,?_,?_⟩
  · exact ⟨received.length,longer,same,_,get_advance_self here .taken,rfl⟩
  · have next : (tags log)[received.length]? = some (e.party,e.msg) := by rw [tags,getElem?_map,here]; rfl
    rw [tags_advance,longer,take_add_one,map_append,← readers.order,next]
    rfl
  · rw [longer,length_advance]
    exact lt_of_get here
  · intro q x there early
    rw [longer] at early ⊢
    rcases get_advance there with ⟨rfl,_⟩ | ⟨different,old⟩
    · exact .inr ⟨rfl,rfl⟩
    · exact .inl (readers.released rests old (by omega))
  · intro q x there late
    rcases get_advance there with ⟨rfl,_⟩ | ⟨_,old⟩
    · omega
    · exact readers.todo q x old (by omega)
end
lemma Readers.release {pos r : Nat} (readers : Readers log received (.receiving (.store_seq pos))) (last : received.length = r + 1) :
    Readers (SeqRing.advance log r .released) received .idle := by
  refine ⟨trivial,?_,?_,?_,?_⟩
  · rw [tags_advance]
    exact readers.order
  · rw [length_advance]
    exact readers.within
  · intro q x there early
    rcases get_advance there with ⟨_,y,_,rfl⟩ | ⟨different,old⟩
    · exact .inl rfl
    · rcases readers.done q x old early with released | ⟨_,only⟩
      · exact .inl released
      · omega
  · intro q x there late
    rcases get_advance there with ⟨rfl,_⟩ | ⟨_,old⟩
    · omega
    · exact readers.todo q x old late
/-- Nothing from the oldest claim that is not released on is released. -/
lemma Readers.in_order (readers : Readers log received consumer) {p q : Nat} {x : Entry α} (here : log[p]? = some e)
    (held : e.phase ≠ .released) (later : p ≤ q) (there : log[q]? = some x) : x.phase ≠ .released := by
  by_cases same : q = p
  · rw [same,here] at there
    cases there
    exact held
  · have late : received.length ≤ q := by
      by_contra early
      rcases readers.done p e here (by omega) with released | ⟨_,last⟩
      · exact held released
      · omega
    rcases readers.todo q x there late with phase | phase | phase <;> rw [phase] <;> decide

namespace World
variable {s t : World α} {event : Event α}

structure Safe (k : Nat) (s : World α) : Prop where
  slots : Sound 64 k s.ring.slots s.log
  tail : s.ring.tail = s.log.length % 2 ^ 64
  head : HeadOk s.ring.head s.received.length s.consumer
  writers : Writers k s.log s.producers s.sent
  readers : Readers s.log s.received s.consumer
  fulls : ∀ n ∈ s.fulls, 2 ^ k ≤ n
lemma safe_new (small : k < 64) : (new : World α).Safe k where
  slots := sound_new (le_of_lt small)
  tail := rfl
  head := rfl
  writers := by
    refine ⟨?_,?_,fun p e here => (by cases here),fun p e here => (by cases here)⟩
    · intro c
      show SendOk k [] c (if c = 0 then .idle else .gone)
      split
      · trivial
      · trivial
    · intro c
      show [] = [] ++ (Producer.held (if c = 0 then .idle else .gone)).toList
      split
      · rfl
      · rfl
  readers := ⟨trivial,rfl,le_rfl,fun p e here => (by cases here),fun p e here => (by cases here)⟩
  fulls n mem := absurd mem not_mem_nil
section
variable (safe : s.Safe k)
include safe
lemma Safe.move (before : (s.producers c).held = none) (after : p.held = none) (own : SendOk k s.log c p) : (s.set_producer c p).Safe k :=
  ⟨safe.slots,safe.tail,safe.head,safe.writers.move before after own,safe.readers,safe.fulls⟩
lemma Safe.inspect {since : Nat} (two : 0 < k) (small : k < 64) (known : since ≤ s.log.length)
    (in_time : s.log.length + 2 ^ k ≤ since + 2 ^ 63) :
    (wrapping_sub 64 (s.ring.slots (since % 2 ^ k)).seq (since % 2 ^ 64) = 0 → since = s.log.length → Free k s.log) ∧
    (negative 64 (wrapping_sub 64 (s.ring.slots (since % 2 ^ k)).seq (since % 2 ^ 64)) →
      wrapping_sub 64 (s.ring.slots (since % 2 ^ k)).seq (since % 2 ^ 64) ≠ 0 → since = s.log.length ∧ ¬ Free k s.log) := by
  constructor
  · rintro zero rfl
    exact (safe.slots.free_iff two small).mp zero
  · intro sign differs
    by_cases last : since = s.log.length
    · refine ⟨last,?_⟩
      intro free
      rw [last] at differs
      exact differs ((safe.slots.free_iff two small).mpr free)
    · obtain ⟨q,e,here,turn,near,slot⟩ := safe.slots.inspect (Nat.lt_of_le_of_ne known last)
      have inside := lt_of_get here
      obtain ⟨low,high⟩ := Phase.seq_bounds (k := k) e.phase q
      have ahead := negative_ahead (w := 64) (p := since) (q := e.phase.seq (2 ^ k) q) (by omega) (by omega)
      rw [slot,Entry.slot,ahead] at sign
      cases sign
lemma Safe.slot_of {pos : Nat} (small : k < 64) (same : pos = place % 2 ^ 64) (here : s.log[place]? = some e) (held : e.phase ≠ .released) :
    pos &&& (2 ^ k - 1) = place % 2 ^ k ∧ s.ring.slots (pos &&& (2 ^ k - 1)) = e.slot 64 k place := by
  have index : pos &&& (2 ^ k - 1) = place % 2 ^ k := by rw [same,mask_word (le_of_lt small)]
  exact ⟨index,by rw [index]; exact safe.slots.live place e here (safe.slots.near here held)⟩
lemma Safe.send_step {at_ : SendAt} (two : 0 < k) (small : k < 64) (here : s.producers c = .sending msg at_)
    (in_time : (s.producers c).InTime k s.log.length) (fails : Bool) : (s.send_step k c fails msg at_).Safe k := by
  have own := safe.writers.sends c
  rw [here] at own in_time
  cases at_ with
  | load_gone =>
    rw [World.send_step]
    by_cases gone : s.ring.consumer_gone
    · rw [if_pos gone]
      exact safe.move (by rw [here]; rfl) rfl trivial
    · rw [if_neg gone]
      exact safe.move (by rw [here]; rfl) rfl trivial
  | load_tail => exact safe.move (by rw [here]; rfl) rfl ⟨safe.tail,le_rfl⟩
  | load_seq pos since =>
    obtain ⟨rfl,known⟩ := own
    obtain ⟨free,full⟩ := safe.inspect two small known in_time
    rw [World.send_step]
    dsimp only
    rw [mask_word (le_of_lt small)]
    by_cases zero : wrapping_sub 64 (s.ring.slots (since % 2 ^ k)).seq (since % 2 ^ 64) = 0
    · rw [if_pos zero]
      exact safe.move (by rw [here]; rfl) rfl ⟨rfl,known,free zero⟩
    rw [if_neg zero]
    by_cases sign : negative 64 (wrapping_sub 64 (s.ring.slots (since % 2 ^ k)).seq (since % 2 ^ 64))
    · rw [if_pos sign]
      obtain ⟨_,busy⟩ := full sign zero
      obtain ⟨enough,e,oldest,held,_⟩ := safe.slots.next_held busy
      have moved := safe.move (c := c) (p := .idle) (by rw [here]; rfl) rfl trivial
      refine ⟨moved.slots,moved.tail,moved.head,moved.writers,moved.readers,?_⟩
      intro n mem
      rcases mem_append.mp mem with old | new
      · exact safe.fulls n old
      · rw [mem_singleton.mp new]
        have := unreleased_suffix fun q x later there => safe.readers.in_order oldest held later there
        omega
    · rw [if_neg sign]
      exact safe.move (by rw [here]; rfl) rfl trivial
  | compare_exchange pos since =>
    obtain ⟨rfl,known,free⟩ := own
    rw [World.send_step]
    by_cases wins : s.ring.tail = since % 2 ^ 64 ∧ fails = false
    · rw [if_pos wins]
      -- the positions have not gone round, so the word is the position
      have exact : since = s.log.length := residue_inj known in_time (wins.1.symm.trans safe.tail)
      subst exact
      have longer : (s.log ++ [(⟨msg,c,.reserved⟩ : Entry α)]).length = s.log.length + 1 := by
        rw [length_append,length_singleton]
      have slot := safe.slots.next_slot (free rfl)
      have slots := safe.slots.append (free rfl) ⟨msg,c,.reserved⟩
      have unchanged : (Entry.slot 64 k s.log.length ⟨msg,c,.reserved⟩ : Slot α) = s.ring.slots (s.log.length % 2 ^ k) := slot.symm
      rw [unchanged,update_eq_self] at slots
      refine ⟨slots,?_,safe.head,safe.writers.reserve (by rw [here]; rfl) msg,safe.readers.reserve msg c,safe.fulls⟩
      show wrapping_add 64 (s.log.length % 2 ^ 64) 1 = (s.log ++ [(⟨msg,c,.reserved⟩ : Entry α)]).length % 2 ^ 64
      rw [wrapping_succ,longer]
    · rw [if_neg wins]
      exact safe.move (by rw [here]; rfl) rfl ⟨safe.tail,le_rfl⟩
  | write pos place =>
    obtain ⟨index,slot⟩ := safe.slot_of small own.1 own.2 (fun done => by cases done)
    have slots := safe.slots.advance own.2 (fun done => by cases done) .written
    refine ⟨?_,?_,safe.head,safe.writers.write here,safe.readers.advance own.2 (.inl rfl) (.inl rfl),safe.fulls⟩
    · show Sound 64 k (update s.ring.slots (pos &&& (2 ^ k - 1)) ⟨(s.ring.slots (pos &&& (2 ^ k - 1))).seq,some msg⟩) _
      rw [slot,index]
      exact slots
    · show s.ring.tail = (advance s.log place .written).length % 2 ^ 64
      rw [length_advance]
      exact safe.tail
  | store_seq pos place =>
    obtain ⟨index,slot⟩ := safe.slot_of small own.1 own.2 (fun done => by cases done)
    have slots := safe.slots.advance own.2 (fun done => by cases done) .published
    refine ⟨?_,?_,safe.head,safe.writers.publish here,safe.readers.advance own.2 (.inr rfl) (.inr rfl),safe.fulls⟩
    · show Sound 64 k (update s.ring.slots (pos &&& (2 ^ k - 1)) ⟨wrapping_add 64 pos 1,(s.ring.slots (pos &&& (2 ^ k - 1))).val⟩) _
      rw [slot,index,own.1,wrapping_succ]
      exact slots
    · show s.ring.tail = (advance s.log place .published).length % 2 ^ 64
      rw [length_advance]
      exact safe.tail
lemma Safe.recv_step {at_ : RecvAt} (small : k < 64) (here : s.consumer = .receiving at_) : (s.recv_step k at_).Safe k := by
  obtain ⟨ring,producers,consumer,log,sent,received,fulls⟩ := s
  cases here
  obtain ⟨slots,tail,head,writers,readers,fulls⟩ := safe
  have own := readers.recv
  cases at_ with
  | load_head => exact ⟨slots,tail,head,writers,readers.move rfl head,fulls⟩
  | load_seq pos =>
    obtain rfl : pos = received.length % 2 ^ 64 := own
    rw [World.recv_step]
    dsimp only
    rw [mask_word (le_of_lt small),wrapping_succ]
    by_cases zero : wrapping_sub 64 (ring.slots (received.length % 2 ^ k)).seq ((received.length + 1) % 2 ^ 64) = 0
    · rw [if_pos zero]
      refine ⟨slots,tail,head,writers,readers.move rfl ⟨rfl,?_⟩,fulls⟩
      have within : received.length ≤ log.length := readers.within
      by_cases all : received.length = log.length
      · rw [all] at zero
        exact absurd zero (slots.next_unpublished small (by decide))
      · have inside : received.length < log.length := by omega
        refine ⟨_,getElem?_eq_getElem inside,?_⟩
        have phase := readers.todo _ _ (getElem?_eq_getElem inside) le_rfl
        have slot := slots.live _ _ (getElem?_eq_getElem inside)
          (slots.near (getElem?_eq_getElem inside) (by rcases phase with h | h | h <;> rw [h] <;> decide))
        rw [slot,Entry.slot] at zero
        rcases phase with early | early | published
        · rw [early,Phase.seq] at zero
          exact absurd zero (wrapping_sub_succ_ne (by decide) _)
        · rw [early,Phase.seq] at zero
          exact absurd zero (wrapping_sub_succ_ne (by decide) _)
        · exact published
    · rw [if_neg zero]
      exact ⟨slots,tail,head,writers,readers.move rfl trivial,fulls⟩
  | read pos =>
    obtain ⟨same,e,entry,phase⟩ := own
    have index : pos &&& (2 ^ k - 1) = received.length % 2 ^ k := by rw [same,mask_word (le_of_lt small)]
    have held : e.phase ≠ .released := by rw [phase]; decide
    have slot := slots.live _ _ entry (slots.near entry held)
    have value : (ring.slots (pos &&& (2 ^ k - 1))) = ⟨(received.length + 1) % 2 ^ 64,some e.msg⟩ := by
      rw [index,slot,Entry.slot,Entry.val,phase]
      rfl
    have after := slots.advance entry held .taken
    have longer : (received ++ [some e.msg]).length = received.length + 1 := by rw [length_append,length_singleton]
    rw [World.recv_step]
    dsimp only
    rw [value]
    refine ⟨?_,?_,⟨received.length,longer,head⟩,writers.read entry (.inl phase) (.inl rfl),readers.read rfl same entry,fulls⟩
    · show Sound 64 k (update ring.slots (pos &&& (2 ^ k - 1)) ⟨(received.length + 1) % 2 ^ 64,none⟩) _
      rw [index]
      exact after
    · show ring.tail = (advance log received.length .taken).length % 2 ^ 64
      rw [length_advance]
      exact tail
  | store_head pos =>
    obtain ⟨r,last,same,entry⟩ := own
    refine ⟨slots,tail,?_,writers,readers.move rfl ⟨r,last,same,entry⟩,fulls⟩
    show wrapping_add 64 pos 1 = received.length % 2 ^ 64
    rw [same,wrapping_succ,last]
  | store_seq pos =>
    obtain ⟨r,last,same,e,entry,phase⟩ := own
    have index : pos &&& (2 ^ k - 1) = r % 2 ^ k := by rw [same,mask_word (le_of_lt small)]
    have held : e.phase ≠ .released := by rw [phase]; decide
    have slot := slots.live _ _ entry (slots.near entry held)
    have value : (ring.slots (pos &&& (2 ^ k - 1))) = ⟨(r + 1) % 2 ^ 64,none⟩ := by
      rw [index,slot,Entry.slot,Entry.val,phase]
      rfl
    have after := slots.advance entry held .released
    have place : received.length - 1 = r := by rw [last]; rfl
    rw [World.recv_step]
    dsimp only
    rw [value,place]
    refine ⟨?_,?_,head,writers.read entry (.inr phase) (.inr rfl),readers.release last,fulls⟩
    · show Sound 64 k (update ring.slots (pos &&& (2 ^ k - 1)) ⟨wrapping_add 64 pos (2 ^ k),none⟩) _
      rw [index,same,wrapping_add_word]
      exact after
    · show ring.tail = (advance log r .released).length % 2 ^ 64
      rw [length_advance]
      exact tail
  | load_producers pos =>
    rw [World.recv_step]
    by_cases nobody : ring.producers = 0
    · rw [if_pos nobody]
      exact ⟨slots,tail,head,writers,readers.move rfl trivial,fulls⟩
    · rw [if_neg nobody]
      exact ⟨slots,tail,head,writers,readers.move rfl trivial,fulls⟩
  | load_seq_again pos => exact ⟨slots,tail,head,writers,readers.move rfl trivial,fulls⟩
lemma Safe.handle {ring : Ring α} {p' : Producer α} (before : s.producers c = p) (p_held : p.held = none)
    (p'_held : p'.held = none) (fresh : SendOk k s.log c p') (slots : ring.slots = s.ring.slots) (tail : ring.tail = s.ring.tail)
    (head : ring.head = s.ring.head) : Safe k { s.set_producer c p' with ring } := by
  have moved := safe.move (by rw [before]; exact p_held) p'_held fresh
  refine ⟨?_,tail.trans safe.tail,?_,moved.writers,moved.readers,moved.fulls⟩
  · show Sound 64 k ring.slots s.log
    rw [slots]
    exact safe.slots
  · show HeadOk ring.head s.received.length s.consumer
    rw [head]
    exact safe.head
lemma Safe.step (two : 0 < k) (small : k < 64) (in_time : s.InTime k event) (taken : s.step k event = some t) : t.Safe k := by
  revert taken
  fun_cases World.step k s event <;> intro taken <;> cases taken
  case case13 here => exact safe.send_step two small here in_time _
  case case17 here => exact safe.recv_step small here
  case case15 here | case19 here =>
    have head := safe.head
    rw [here] at head
    exact ⟨safe.slots,safe.tail,head,safe.writers,safe.readers.move (by rw [here]; rfl) trivial,safe.fulls⟩
  all_goals exact safe.handle (by assumption) rfl rfl trivial rfl rfl rfl
end

def AtRest (s : World α) : Prop :=
  (∀ c, s.producers c = .gone ∨ s.producers c = .idle) ∧ (s.consumer = .gone ∨ s.consumer = .idle)
/-- Every claim is a message of its producer, in that producer's order; the messages received are the
    first claims; a message sent and not received is in its slot, and the slot that a send writes is
    empty; `Full` came with `2 ^ k` claims not released; dropping the ring destroys what was not received. -/
structure ExactlyOnce (k : Nat) (s : World α) : Prop where
  sends : ∀ c, ((tags s.log).filter (fun x => x.1 = c)).map Prod.snd = s.sent c ++ (s.producers c).held.toList
  receives : s.received = ((tags s.log).take s.received.length).map (fun x => some x.2)
  order : ∀ c, (((tags s.log).take s.received.length).filter (fun x => x.1 = c)).map Prod.snd <+: s.sent c
  kept : ∀ p e, s.log[p]? = some e → e.phase = .published → (s.ring.slots (p % 2 ^ k)).val = some e.msg
  clean : ∀ c msg pos place, s.producers c = .sending msg (.write pos place) → (s.ring.slots (pos &&& (2 ^ k - 1))).val = none
  full : ∀ n ∈ s.fulls, 2 ^ k ≤ n
  drop : s.AtRest → s.ring.drop k = ((tags s.log).drop s.received.length).map (fun x => some x.2)
/-- What is received of a producer is published, so it is not the claim in the producer's hands. -/
lemma Safe.order (safe : s.Safe k) (c : Nat) : (((tags s.log).take s.received.length).filter (·.1 = c)).map Prod.snd <+: s.sent c := by
  have sends := safe.writers.order c
  have split : (tags s.log).filter (·.1 = c) =
      ((tags s.log).take s.received.length).filter (·.1 = c) ++
        ((tags s.log).drop s.received.length).filter (·.1 = c) := by
    rw [← filter_append,take_append_drop]
  rw [split,map_append] at sends
  cases held : (s.producers c).held with
  | none =>
    rw [held,toList_none,append_nil] at sends
    exact ⟨_,sends⟩
  | some msg =>
    rw [held,toList_some] at sends
    -- the claim in hand is behind the last message received
    obtain ⟨place,e,here,party,phase⟩ := safe.writers.in_hand held
    have late : s.received.length ≤ place := by
      by_contra early
      rcases safe.readers.out here (by omega) with done | done <;> rw [done] at phase <;> rcases phase with h | h <;> cases h
    have mem : (c,e.msg) ∈ ((tags s.log).drop s.received.length).filter (·.1 = c) := by
      refine mem_filter.mpr ⟨?_,by simp⟩
      refine mem_of_getElem? (i := place - s.received.length) ?_
      rw [getElem?_drop,Nat.add_sub_cancel' late,tags,getElem?_map,here,← party]
      rfl
    rcases eq_nil_or_concat ((((tags s.log).drop s.received.length).filter (·.1 = c)).map Prod.snd) with none | ⟨most,last,shape⟩
    · rw [map_eq_nil_iff] at none
      rw [none] at mem
      cases mem
    rw [shape,concat_eq_append,← append_assoc] at sends
    exact ⟨most,(append_inj' sends rfl).1⟩
lemma Safe.exactly_once (small : k < 64) (safe : s.Safe k) : s.ExactlyOnce k where
  sends := safe.writers.order
  receives := safe.readers.order
  order := safe.order
  kept p e here phase := by
    have held : e.phase ≠ .released := by rw [phase]; decide
    rw [safe.slots.live p e here (safe.slots.near here held),Entry.slot,Entry.val,phase]
  clean c msg pos place here := by
    have own := safe.writers.sends c
    rw [here] at own
    obtain ⟨_,slot⟩ := safe.slot_of small own.1 own.2 (fun done => by cases done)
    rw [slot]
    rfl
  full := safe.fulls
  drop := by
    rintro ⟨producers,consumer⟩
    have head : s.ring.head = s.received.length % 2 ^ 64 := by
      have head := safe.head
      rcases consumer with gone | idle
      · rw [gone] at head
        exact head
      · rw [idle] at head
        exact head
    have published (q : Nat) (e : Entry α) (late : s.received.length ≤ q) (here : s.log[q]? = some e) : e.phase = .published := by
      rcases safe.readers.todo q e here late with early | early | done
      · have holds := safe.writers.reserved q e here early
        rcases producers e.party with h | h <;> rw [h] at holds <;> cases holds
      · have holds := safe.writers.written q e here early
        rcases producers e.party with h | h <;> rw [h] at holds <;> cases holds
      · exact done
    rw [Ring.drop,head,safe.tail,safe.slots.drain small safe.readers.within published,tags,← List.map_drop,List.map_map]
    rfl
lemma exactly_once_of_run {es : List (Event α)} (two : 0 < k) (small : k < 64) (meets : Runs.Meets (step k) (InTime k) new es)
    (reached : Runs.run (step k) new es = some s) : s.ExactlyOnce k :=
  Safe.exactly_once small (Runs.invariant_of_meets (I := Safe k) (fun _ _ _ safe in_time taken => safe.step two small in_time taken)
    (safe_new small) meets reached)
end World
end Narf.Ipc.MpscRing
