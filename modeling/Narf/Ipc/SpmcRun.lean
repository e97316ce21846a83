import Narf.Ipc.SpmcRing

namespace Narf.Ipc.SpmcRing
open Lib Lib.RingIndex Lib.SeqRing List Function
variable {α : Type}

/-! The ring of many consumers hands every message to one of them, to each in the order sent, as long as
    it has two slots or more and no consumer sleeps while the positions go once round. -/

/-- A message is in its slot and not published. -/
def Producer.busy : Producer α → Bool
  | .sending _ (.store_tail _) => true
  | .sending _ (.store_seq _) => true
  | _ => false
/-- The position that a consumer has in its hands. -/
def Consumer.place : Consumer → Option Nat
  | .receiving (.read _ place) => some place
  | .receiving (.store_seq _ place) => some place
  | _ => none
def SendOk (k : Nat) (log : List (Entry α)) : Producer α → Prop
  | .sending _ (.load_seq pos) => pos = log.length % 2 ^ 64
  | .sending _ (.write pos) => pos = log.length % 2 ^ 64 ∧ Free k log
  | .sending msg (.store_tail pos) => ∃ p, log.length = p + 1 ∧ pos = p % 2 ^ 64 ∧ log[p]? = some ⟨msg,0,.written⟩
  | .sending msg (.store_seq pos) => ∃ p, log.length = p + 1 ∧ pos = p % 2 ^ 64 ∧ log[p]? = some ⟨msg,0,.written⟩
  | _ => True
/-- The tail word, which the producer stores after it has written the payload. -/
def TailOk (tail length : Nat) : Producer α → Prop
  | .sending _ (.store_tail _) => ∃ p, length = p + 1 ∧ tail = p % 2 ^ 64
  | _ => tail = length % 2 ^ 64
def RecvOk (log : List (Entry α)) (claimed : Nat) : Consumer → Prop
  | .receiving (.load_seq pos since) => pos = since % 2 ^ 64 ∧ since ≤ claimed
  | .receiving (.compare_exchange pos since) =>
    pos = since % 2 ^ 64 ∧ since ≤ claimed ∧ (since = claimed → ∃ e, log[claimed]? = some e ∧ e.phase = .published)
  | .receiving (.read pos place) => pos = place % 2 ^ 64 ∧ ∃ e, log[place]? = some e ∧ e.phase = .claimed
  | .receiving (.store_seq pos place) => pos = place % 2 ^ 64 ∧ ∃ e, log[place]? = some e ∧ e.phase = .taken
  | .receiving (.load_gone pos since) => pos = since % 2 ^ 64 ∧ since ≤ claimed
  | .receiving (.load_seq_again pos since) => pos = since % 2 ^ 64 ∧ since ≤ claimed
  | _ => True
/-- The messages up to the last claim are with the consumers or released, those after it wait. -/
structure Line (log : List (Entry α)) (claimed : Nat) (producer : Producer α) : Prop where
  within : claimed ≤ log.length
  early : ∀ p e, log[p]? = some e → p < claimed → e.phase = .claimed ∨ e.phase = .taken ∨ e.phase = .released
  late : ∀ p e, log[p]? = some e → claimed ≤ p → e.phase = .published ∨ (e.phase = .written ∧ producer.busy = true ∧ p + 1 = log.length)
/-- Every consumer has its own position, and has read those before it in their order. -/
structure Takers (log : List (Entry α)) (claimed : Nat) (consumers : Nat → Consumer) (got : List (Nat × Nat × Option α)) : Prop where
  recv : ∀ c, RecvOk log claimed (consumers c)
  apart : ∀ c d p, (consumers c).place = some p → (consumers d).place = some p → c = d
  read : ∀ x ∈ got, ∃ e, log[x.2.1]? = some e ∧ x.2.2 = some e.msg ∧ (e.phase = .taken ∨ e.phase = .released)
  once : (got.map (fun x => x.2.1)).Nodup
  order : ∀ c, ((got.filter (fun x => x.1 = c)).map (fun x => x.2.1)).Pairwise (· < ·)
  ahead : ∀ c p, (consumers c).place = some p → (∃ e, log[p]? = some e ∧ e.phase = .claimed) → ∀ x ∈ got, x.1 = c → x.2.1 < p
  out : ∀ p e, log[p]? = some e → e.phase = .taken ∨ e.phase = .released → ∃ x ∈ got, x.2.1 = p
  hands : ∀ p e, log[p]? = some e → e.phase = .claimed → ∃ c pos, consumers c = .receiving (.read pos p)

variable {k c claimed : Nat} {log log' : List (Entry α)} {producer producer' : Producer α} {consumers : Nat → Consumer}
  {got : List (Nat × Nat × Option α)} {p : Consumer} {e : Entry α} {msg : α} {place : Nat}

lemma RecvOk.mono {claimed' : Nat} (ok : RecvOk log claimed p) (more : claimed ≤ claimed')
    (next : claimed' = claimed → ∀ e, log[claimed]? = some e → e.phase = .published → log'[claimed]? = some e)
    (own : ∀ q, p.place = some q → log'[q]? = log[q]?) : RecvOk log' claimed' p := by
  cases p with
  | receiving at_ =>
    cases at_ with
    | load_head => trivial
    | load_seq | load_gone | load_seq_again => exact ⟨ok.1,le_trans ok.2 more⟩
    | compare_exchange pos since =>
      refine ⟨ok.1,le_trans ok.2.1 more,?_⟩
      rintro rfl
      have same : since = claimed := le_antisymm ok.2.1 more
      obtain ⟨e,here,phase⟩ := ok.2.2 same
      subst same
      exact ⟨e,next rfl e here phase,phase⟩
    | read pos place | store_seq pos place =>
      obtain ⟨same,e,here,phase⟩ := ok
      exact ⟨same,e,by rw [own place rfl]; exact here,phase⟩
  | _ => trivial
lemma RecvOk.in_hand {q : Nat} (ok : RecvOk log claimed p) (holds : p.place = some q) :
    ∃ e, log[q]? = some e ∧ (e.phase = .claimed ∨ e.phase = .taken) := by
  unfold Consumer.place at holds
  split at holds
  · cases holds
    obtain ⟨_,e,here,phase⟩ := ok
    exact ⟨e,here,.inl phase⟩
  · cases holds
    obtain ⟨_,e,here,phase⟩ := ok
    exact ⟨e,here,.inr phase⟩
  · cases holds

/-! ## The producer's steps -/
section
variable (takers : Takers log claimed consumers got)
include takers
lemma Takers.of_producer (kept : ∀ (q : Nat) (e : Entry α), log[q]? = some e → e.phase ≠ .written → log'[q]? = some e)
    (only : ∀ (q : Nat) (e : Entry α), log'[q]? = some e → e.phase ≠ .written → e.phase ≠ .published → log[q]? = some e) :
    Takers log' claimed consumers got := by
  have own (c q : Nat) (holds : (consumers c).place = some q) : log'[q]? = log[q]? := by
    obtain ⟨e,here,phase⟩ := RecvOk.in_hand (takers.recv c) holds
    rw [here,kept q e here (by rcases phase with h | h <;> rw [h] <;> decide)]
  refine ⟨?_,takers.apart,?_,takers.once,takers.order,?_,?_,?_⟩
  · intro c
    exact RecvOk.mono (takers.recv c) le_rfl (fun _ e here phase => kept _ e here (by rw [phase]; decide)) (own c)
  · intro x mem
    obtain ⟨e,here,value,phase⟩ := takers.read x mem
    exact ⟨e,kept _ e here (by rcases phase with h | h <;> rw [h] <;> decide),value,phase⟩
  · rintro c q holds ⟨e,here,phase⟩
    exact takers.ahead c q holds ⟨e,only q e here (by rw [phase]; decide) (by rw [phase]; decide),phase⟩
  · intro q e here phase
    exact takers.out q e (only q e here (by rcases phase with h | h <;> rw [h] <;> decide)
      (by rcases phase with h | h <;> rw [h] <;> decide)) phase
  · intro q e here phase
    exact takers.hands q e (only q e here (by rw [phase]; decide) (by rw [phase]; decide)) phase
lemma Takers.append (msg : α) : Takers (log ++ [⟨msg,0,.written⟩]) claimed consumers got := by
  refine takers.of_producer ?_ ?_
  · intro q e here _
    rw [getElem?_append_left (lt_of_get here)]
    exact here
  · intro q e there unlike _
    rcases get_concat there with old | ⟨_,rfl⟩
    · exact old
    · exact absurd rfl unlike
lemma Takers.publish (here : log[place]? = some e) (phase : e.phase = .written) :
    Takers (advance log place .published) claimed consumers got := by
  refine takers.of_producer ?_ ?_
  · intro q x there unlike
    rw [get_advance_ne]
    · exact there
    · rintro rfl
      rw [here] at there
      cases there
      exact unlike phase
  · intro q x there _ unlike
    rcases get_advance there with ⟨_,y,_,rfl⟩ | ⟨_,old⟩
    · exact absurd rfl unlike
    · exact old
end
lemma Line.append {msg : α} (line : Line log claimed producer) (rests : producer.busy = false) (busy : producer'.busy) :
    Line (log ++ [⟨msg,0,.written⟩]) claimed producer' := by
  have within := line.within
  refine ⟨?_,?_,?_⟩
  · rw [length_append]
    omega
  · intro q e there first
    rcases get_concat there with old | ⟨rfl,_⟩
    · exact line.early q e old first
    · omega
  · intro q e there waits
    rcases get_concat there with old | ⟨rfl,rfl⟩
    · rcases line.late q e old waits with published | ⟨_,was,_⟩
      · exact .inl published
      · rw [rests] at was
        cases was
    · exact .inr ⟨rfl,busy,by rw [length_append,length_singleton]⟩
lemma Line.move (line : Line log claimed producer) (same : producer'.busy = producer.busy) : Line log claimed producer' := by
  refine ⟨line.within,line.early,?_⟩
  rw [same]
  exact line.late
lemma Line.publish {p : Nat} (line : Line log claimed producer) (last : log.length = p + 1) (here : log[p]? = some e)
    (phase : e.phase = .written) : Line (advance log p .published) claimed producer' := by
  refine ⟨by rw [length_advance]; exact line.within,?_,?_⟩
  · intro q x there first
    rcases get_advance there with ⟨rfl,y,known,rfl⟩ | ⟨_,old⟩
    · rw [here] at known
      cases known
      rcases line.early q e here first with h | h | h <;> rw [phase] at h <;> cases h
    · exact line.early q x old first
  · intro q x there waits
    rcases get_advance there with ⟨_,y,_,rfl⟩ | ⟨different,old⟩
    · exact .inl rfl
    · rcases line.late q x old waits with published | ⟨_,_,only⟩
      · exact .inl published
      · omega

/-! ## The consumers' steps -/
section
variable (takers : Takers log claimed consumers got)
include takers

/-- A position that a consumer reads is still read after another consumer has moved. -/
lemma Takers.still_reads {q : Nat} (there : log[q]? = some e) (phase : e.phase = .claimed)
    (not_mine : (consumers c).place ≠ some q) : ∃ d pos, update consumers c p d = .receiving (.read pos q) := by
  obtain ⟨d,pos,reads⟩ := takers.hands q e there phase
  refine ⟨d,pos,?_⟩
  rw [update_of_ne,reads]
  rintro rfl
  exact not_mine (by rw [reads]; rfl)
/-- A consumer moves with the position that is its own, and the others know and hold what they did. -/
lemma Takers.turn {claimed' : Nat} {phase : Phase} (entry : log[place]? = some e)
    (others : ∀ d q, d ≠ c → (consumers d).place = some q → q ≠ place) (own : RecvOk (advance log place phase) claimed' p)
    (mine : ∀ q, p.place = some q → q = place) (more : claimed ≤ claimed') (next : claimed' = claimed → e.phase ≠ .published) :
    (∀ d, RecvOk (advance log place phase) claimed' (update consumers c p d)) ∧
    (∀ d d' q, (update consumers c p d).place = some q → (update consumers c p d').place = some q → d = d') ∧
    ∀ d q, d ≠ c → (update consumers c p d).place = some q → (consumers d).place = some q ∧ (advance log place phase)[q]? = log[q]? := by
  have back (d q : Nat) (different : d ≠ c) (holds : (update consumers c p d).place = some q) :
      (consumers d).place = some q ∧ (advance log place phase)[q]? = log[q]? := by
    rw [update_of_ne different] at holds
    exact ⟨holds,get_advance_ne (others d q different holds)⟩
  refine ⟨?_,?_,back⟩
  · rw [forall_update_iff consumers (fun _ x => RecvOk (advance log place phase) claimed' x)]
    refine ⟨own,fun d different => RecvOk.mono (takers.recv d) more ?_ fun q holds => get_advance_ne (others d q different holds)⟩
    intro same x there published
    rw [get_advance_ne]
    · exact there
    · intro clash
      rw [clash,entry] at there
      cases there
      exact next same published
  · intro d d' q holds holds'
    by_cases different : d = c
    · by_cases different' : d' = c
      · rw [different,different']
      · rw [different,update_self] at holds
        exact absurd (mine q holds) (others d' q different' (back d' q different' holds').1)
    · have first := (back d q different holds).1
      by_cases different' : d' = c
      · rw [different',update_self] at holds'
        exact absurd (mine q holds') (others d q different first)
      · exact takers.apart d d' q first (back d' q different' holds').1
lemma Takers.move (before : (consumers c).place = none) (after : p.place = none)
    (own : RecvOk log claimed p) : Takers log claimed (update consumers c p) got := by
  have place (d q : Nat) (holds : (update consumers c p d).place = some q) : (consumers d).place = some q := by
    by_cases same : d = c
    · rw [same,update_self,after] at holds
      cases holds
    · rw [update_of_ne same] at holds
      exact holds
  refine ⟨?_,?_,takers.read,takers.once,takers.order,?_,takers.out,?_⟩
  · exact (forall_update_iff consumers fun _ x => RecvOk log claimed x).mpr ⟨own,fun d _ => takers.recv d⟩
  · intro d d' q holds holds'
    exact takers.apart d d' q (place d q holds) (place d' q holds')
  · intro d q holds
    exact takers.ahead d q (place d q holds)
  · intro q e here phase
    exact takers.still_reads here phase (by rw [before]; exact Option.some_ne_none q |>.symm)
lemma Takers.read_ne {x : Nat × Nat × Option α} (here : log[place]? = some e)
    (held : e.phase = .published ∨ e.phase = .claimed) (mem : x ∈ got) : x.2.1 ≠ place := by
  rintro rfl
  obtain ⟨y,there,_,phase⟩ := takers.read x mem
  rw [here] at there
  cases there
  rcases held with h | h <;> rw [h] at phase <;> rcases phase with h | h <;> cases h
lemma Takers.others (here : (consumers c).place = some place) (d q : Nat) (different : d ≠ c)
    (holds : (consumers d).place = some q) : q ≠ place := by
  rintro rfl
  exact different (takers.apart d c q holds here)
lemma Takers.reads_on {phase : Phase} {q : Nat} {y : Entry α} (here : (consumers c).place = some place) (moved : phase ≠ .claimed)
    (there : (advance log place phase)[q]? = some y) (claim : y.phase = .claimed) :
    ∃ d pos, update consumers c p d = .receiving (.read pos q) := by
  rcases get_advance there with ⟨_,z,_,rfl⟩ | ⟨different,old⟩
  · exact absurd claim moved
  · exact takers.still_reads old claim (by rw [here]; exact fun same => different (Option.some.inj same).symm)
variable {pos : Nat}
lemma Takers.claim (line : Line log claimed producer) (before : (consumers c).place = none)
    (same : pos = claimed % 2 ^ 64) (here : log[claimed]? = some e) (phase : e.phase = .published) :
    Takers (advance log claimed .claimed) (claimed + 1) (update consumers c (.receiving (.read pos claimed))) got := by
  have others (d q : Nat) (_ : d ≠ c) (holds : (consumers d).place = some q) : q ≠ claimed := by
    rintro rfl
    obtain ⟨x,there,hand⟩ := RecvOk.in_hand (takers.recv d) holds
    rw [here] at there
    cases there
    rw [phase] at hand
    rcases hand with h | h <;> cases h
  obtain ⟨recv,apart,back⟩ := takers.turn (p := .receiving (.read pos claimed)) here others ⟨same,_,get_advance_self here .claimed,rfl⟩
    (fun q holds => (Option.some.inj holds).symm) (Nat.le_succ _) (absurd · (Nat.succ_ne_self _))
  refine ⟨recv,apart,?_,takers.once,takers.order,?_,?_,?_⟩
  · intro x mem
    obtain ⟨y,there,value,out⟩ := takers.read x mem
    exact ⟨y,by rw [get_advance_ne (takers.read_ne here (.inl phase) mem)]; exact there,value,out⟩
  · rintro d q holds ⟨y,there,claim⟩ x mem party
    by_cases mine : d = c
    · rw [mine,update_self] at holds
      cases holds
      -- what was read before is claimed, so it is in front of the claim
      by_contra beyond
      obtain ⟨z,old,_,out⟩ := takers.read x mem
      rcases line.late _ z old (by omega) with h | ⟨h,_⟩ <;> rw [h] at out <;> rcases out with h | h <;> cases h
    · obtain ⟨held,kept⟩ := back d q mine holds
      exact takers.ahead d q held ⟨y,kept.symm.trans there,claim⟩ x mem party
  · intro q y there gone
    rcases get_advance there with ⟨_,z,_,rfl⟩ | ⟨_,old⟩
    · rcases gone with h | h <;> cases h
    · exact takers.out q y old gone
  · intro q y there claim
    rcases get_advance there with ⟨rfl,_⟩ | ⟨_,old⟩
    · exact ⟨c,pos,update_self ..⟩
    · exact takers.still_reads old claim (by rw [before]; exact Option.some_ne_none q |>.symm)
lemma Takers.take (here : consumers c = .receiving (.read pos place)) (entry : log[place]? = some e) (phase : e.phase = .claimed) :
    Takers (advance log place .taken) claimed (update consumers c (.receiving (.store_seq pos place))) (got ++ [(c,place,some e.msg)]) := by
  have own := takers.recv c
  rw [here] at own
  have mine_place : (consumers c).place = some place := by rw [here]; rfl
  have others := takers.others mine_place
  obtain ⟨recv,apart,back⟩ := takers.turn (p := .receiving (.store_seq pos place)) entry others ⟨own.1,_,get_advance_self entry .taken,rfl⟩
    (fun q holds => (Option.some.inj holds).symm) le_rfl (fun _ published => by rw [phase] at published; cases published)
  refine ⟨recv,apart,?_,?_,?_,?_,?_,?_⟩
  · intro x mem
    rcases mem_append.mp mem with old | new
    · obtain ⟨y,there,value,out⟩ := takers.read x old
      exact ⟨y,by rw [get_advance_ne (takers.read_ne entry (.inr phase) old)]; exact there,value,out⟩
    · rw [mem_singleton.mp new]
      exact ⟨_,get_advance_self entry .taken,rfl,.inl rfl⟩
  · rw [map_append]
    refine nodup_append.mpr ⟨takers.once,pairwise_singleton _ _,?_⟩
    intro q first q' second
    obtain ⟨x,mem,rfl⟩ := mem_map.mp first
    rw [map_singleton,mem_singleton] at second
    rw [second]
    exact takers.read_ne entry (.inr phase) mem
  · intro d
    rw [filter_append,map_append]
    by_cases mine : c = d
    · subst mine
      rw [filter_cons_of_pos (by simp),filter_nil]
      refine pairwise_append.mpr ⟨takers.order c,pairwise_singleton _ _,?_⟩
      intro q first q' second
      obtain ⟨x,mem,rfl⟩ := mem_map.mp first
      obtain ⟨inside,party⟩ := mem_filter.mp mem
      rw [map_singleton,mem_singleton] at second
      rw [second]
      exact takers.ahead c place mine_place ⟨e,entry,phase⟩ x inside (by simpa using party)
    · rw [filter_cons_of_neg (by simpa using mine),filter_nil,map_nil,append_nil]
      exact takers.order d
  · rintro d q holds ⟨y,there,claim⟩ x mem party
    by_cases mine : d = c
    · rw [mine,update_self] at holds
      cases holds
      rw [get_advance_self entry .taken] at there
      cases there
      cases claim
    · obtain ⟨held,kept⟩ := back d q mine holds
      rcases mem_append.mp mem with old | new
      · exact takers.ahead d q held ⟨y,kept.symm.trans there,claim⟩ x old party
      · rw [mem_singleton.mp new] at party
        exact absurd party.symm mine
  · intro q y there gone
    rcases get_advance there with ⟨rfl,_⟩ | ⟨_,old⟩
    · exact ⟨_,mem_append_right _ (mem_singleton_self _),rfl⟩
    · obtain ⟨x,mem,same⟩ := takers.out q y old gone
      exact ⟨x,mem_append_left _ mem,same⟩
  · intro q y there claim
    exact takers.reads_on mine_place (by decide) there claim
lemma Takers.release (here : consumers c = .receiving (.store_seq pos place)) (entry : log[place]? = some e) (phase : e.phase = .taken) :
    Takers (advance log place .released) claimed (update consumers c .idle) got := by
  have mine_place : (consumers c).place = some place := by rw [here]; rfl
  have others := takers.others mine_place
  obtain ⟨recv,apart,back⟩ := takers.turn (p := .idle) entry others trivial (fun q holds => by cases holds) le_rfl
    (fun _ published => by rw [phase] at published; cases published)
  refine ⟨recv,apart,?_,takers.once,takers.order,?_,?_,?_⟩
  · intro x mem
    obtain ⟨y,there,value,out⟩ := takers.read x mem
    by_cases same : x.2.1 = place
    · rw [same] at there ⊢
      rw [entry] at there
      cases there
      exact ⟨_,get_advance_self entry .released,value,.inr rfl⟩
    · exact ⟨y,by rw [get_advance_ne same]; exact there,value,out⟩
  · rintro d q holds ⟨y,there,claim⟩ x mem party
    have mine : d ≠ c := by
      rintro rfl
      rw [update_self] at holds
      cases holds
    obtain ⟨held,kept⟩ := back d q mine holds
    exact takers.ahead d q held ⟨y,kept.symm.trans there,claim⟩ x mem party
  · intro q y there gone
    rcases get_advance there with ⟨rfl,_⟩ | ⟨_,old⟩
    · exact takers.out q e entry (.inl phase)
    · exact takers.out q y old gone
  · intro q y there claim
    exact takers.reads_on mine_place (by decide) there claim
end
lemma Line.claim (line : Line log claimed producer) (here : log[claimed]? = some e) : Line (advance log claimed .claimed) (claimed + 1) producer := by
  refine ⟨by rw [length_advance]; exact lt_of_get here,?_,?_⟩
  · intro q x there first
    rcases get_advance there with ⟨_,y,_,rfl⟩ | ⟨different,old⟩
    · exact .inl rfl
    · exact line.early q x old (by omega)
  · intro q x there waits
    rw [length_advance]
    rcases get_advance there with ⟨rfl,_⟩ | ⟨_,old⟩
    · omega
    · exact line.late q x old (by omega)
variable {phase : Phase}
lemma Line.advance (line : Line log claimed producer) (here : log[place]? = some e)
    (held : e.phase = .claimed ∨ e.phase = .taken) (later : phase = .taken ∨ phase = .released) :
    Line (SeqRing.advance log place phase) claimed producer := by
  refine ⟨by rw [length_advance]; exact line.within,?_,?_⟩
  · intro q x there first
    rcases get_advance there with ⟨_,y,_,rfl⟩ | ⟨_,old⟩
    · exact .inr later
    · exact line.early q x old first
  · intro q x there waits
    rw [length_advance]
    rcases get_advance there with ⟨rfl,y,known,rfl⟩ | ⟨_,old⟩
    · rw [here] at known
      cases known
      rcases line.late q e here waits with h | ⟨h,_⟩ <;> rw [h] at held <;> rcases held with h | h <;> cases h
    · exact line.late q x old waits
/-- The consumers change neither the number of messages nor one that is not published. -/
lemma SendOk.advance (ok : SendOk k log producer) (here : log[place]? = some e)
    (seen : e.phase ≠ .written ∧ e.phase ≠ .released) : SendOk k (SeqRing.advance log place phase) producer := by
  have kept (p : Nat) (x : Entry α) (there : log[p]? = some x) (written : x.phase = .written) :
      (SeqRing.advance log place phase)[p]? = some x := by
    rw [get_advance_ne]
    · exact there
    · rintro rfl
      rw [here] at there
      cases there
      exact seen.1 written
  cases producer with
  | gone | idle => trivial
  | sending msg at_ =>
    cases at_ with
    | load_consumers | load_tail => trivial
    | load_seq pos =>
      show pos = _ % 2 ^ 64
      rw [length_advance]
      exact ok
    | write pos =>
      refine ⟨by rw [length_advance]; exact ok.1,ok.2.advance (fun x there => ?_) phase⟩
      rw [here] at there
      cases there
      exact seen.2
    | store_tail pos =>
      obtain ⟨p,last,same,entry⟩ := ok
      exact ⟨p,by rw [length_advance]; exact last,same,kept p _ entry rfl⟩
    | store_seq pos =>
      obtain ⟨p,last,same,entry⟩ := ok
      exact ⟨p,by rw [length_advance]; exact last,same,kept p _ entry rfl⟩

namespace World
variable {s t : World α} {event : Event α}

structure Safe (k : Nat) (s : World α) : Prop where
  slots : Sound 64 k s.ring.slots s.log
  tail : TailOk s.ring.tail s.log.length s.producer
  head : s.ring.head = s.claimed % 2 ^ 64
  send : SendOk k s.log s.producer
  line : Line s.log s.claimed s.producer
  takers : Takers s.log s.claimed s.consumers s.got
  gone : s.ring.producer_gone = true → s.producer = .gone
lemma safe_new (small : k < 64) : (new : World α).Safe k where
  slots := sound_new (le_of_lt small)
  tail := rfl
  head := rfl
  send := trivial
  line := ⟨le_rfl,fun p e here => (by cases here),fun p e here => (by cases here)⟩
  takers := by
    have place (c : Nat) : Consumer.place ((new : World α).consumers c) = none := by
      show Consumer.place (if c = 0 then .idle else .gone) = none
      split
      · rfl
      · rfl
    refine ⟨?_,?_,nofun,nodup_nil,fun _ => Pairwise.nil,?_,fun p e here => (by cases here),fun p e here => (by cases here)⟩
    · intro c
      show RecvOk [] 0 (if c = 0 then .idle else .gone)
      split
      · trivial
      · trivial
    · intro c d p holds
      rw [place] at holds
      cases holds
    · intro c p holds
      rw [place] at holds
      cases holds
  gone dropped := by cases dropped
variable {ring : Ring α} {es : List (Event α)}

section
variable (small : k < 64) (safe : s.Safe k)
include small safe
lemma Safe.send_step {at_ : SendAt} (two : 0 < k) (here : s.producer = .sending msg at_) : (s.send_step k msg at_).Safe k := by
  obtain ⟨ring,producer,consumers,log,claimed,got,fulls,ends⟩ := s
  cases here
  obtain ⟨slots,tail,head,own,line,takers,gone⟩ := safe
  have present : ring.producer_gone → ∀ p : Producer α, p = .gone := fun dropped => by cases gone dropped
  cases at_ with
  | load_consumers =>
    rw [World.send_step]
    by_cases nobody : ring.consumers = 0
    · rw [if_pos nobody]
      exact ⟨slots,tail,head,trivial,line.move rfl,takers,fun dropped => present dropped _⟩
    · rw [if_neg nobody]
      exact ⟨slots,tail,head,trivial,line.move rfl,takers,fun dropped => present dropped _⟩
  | load_tail => exact ⟨slots,tail,head,tail,line.move rfl,takers,fun dropped => present dropped _⟩
  | load_seq pos =>
    obtain rfl : pos = log.length % 2 ^ 64 := own
    rw [World.send_step]
    dsimp only
    rw [mask_word (le_of_lt small)]
    by_cases zero : wrapping_sub 64 (ring.slots (log.length % 2 ^ k)).seq (log.length % 2 ^ 64) = 0
    · rw [if_neg (not_not.mpr zero)]
      exact ⟨slots,tail,head,⟨rfl,(slots.free_iff two small).mp zero⟩,line.move rfl,takers,fun dropped => present dropped _⟩
    · rw [if_pos zero]
      exact ⟨slots,tail,head,trivial,line.move rfl,takers,fun dropped => present dropped _⟩
  | write pos =>
    obtain rfl : pos = log.length % 2 ^ 64 := own.1
    have free : Free k log := own.2
    have slot := slots.next_slot free
    have after := slots.append free ⟨msg,0,.written⟩
    have longer : (log ++ [(⟨msg,0,.written⟩ : Entry α)]).length = log.length + 1 := by rw [length_append,length_singleton]
    rw [World.send_step]
    dsimp only
    rw [mask_word (le_of_lt small),slot]
    refine ⟨after,⟨log.length,longer,tail⟩,head,⟨log.length,longer,rfl,getElem?_concat_length ..⟩,line.append rfl rfl,
      takers.append msg,fun dropped => present dropped _⟩
  | store_tail pos =>
    obtain ⟨p,last,same,entry⟩ := own
    refine ⟨slots,?_,head,⟨p,last,same,entry⟩,line.move rfl,takers,fun dropped => present dropped _⟩
    show wrapping_add 64 pos 1 = log.length % 2 ^ 64
    rw [same,wrapping_succ,last]
  | store_seq pos =>
    obtain ⟨p,last,same,entry⟩ := own
    have index : pos &&& (2 ^ k - 1) = p % 2 ^ k := by rw [same,mask_word (le_of_lt small)]
    have slot := slots.live p _ entry (slots.near entry (fun done => by cases done))
    have after := slots.advance entry (fun done => by cases done) .published
    have place : log.length - 1 = p := by rw [last]; rfl
    rw [World.send_step]
    dsimp only
    rw [index,slot,place,same,wrapping_succ]
    refine ⟨after,?_,head,trivial,line.publish last entry rfl,takers.publish entry rfl,fun dropped => present dropped _⟩
    show ring.tail = (advance log p .published).length % 2 ^ 64
    rw [length_advance]
    exact tail

omit small in
lemma Safe.move (before : (s.consumers c).place = none) (after : p.place = none) (own : RecvOk s.log s.claimed p) :
    (s.set_consumer c p).Safe k :=
  ⟨safe.slots,safe.tail,safe.head,safe.send,safe.line,safe.takers.move before after own,safe.gone⟩
/-- The slot word at the next position to claim: one more than it exactly if a message waits there. -/
lemma Safe.next_word : wrapping_sub 64 (s.ring.slots (s.claimed % 2 ^ k)).seq ((s.claimed + 1) % 2 ^ 64) = 0 ↔
      ∃ e, s.log[s.claimed]? = some e ∧ e.phase = .published := by
  have within := safe.line.within
  by_cases all : s.claimed = s.log.length
  · have nothing : ¬ ∃ e, s.log[s.claimed]? = some e ∧ e.phase = .published := by
      rintro ⟨e,here,_⟩
      have := lt_of_get here
      omega
    refine ⟨fun zero => absurd zero ?_,fun some => absurd some nothing⟩
    rw [all]
    exact safe.slots.next_unpublished small (by decide)
  · have inside : s.claimed < s.log.length := by omega
    have here := getElem?_eq_getElem inside
    have phase := safe.line.late _ _ here le_rfl
    have held : (s.log[s.claimed]).phase ≠ .released := by rcases phase with h | ⟨h,_⟩ <;> rw [h] <;> decide
    rw [safe.slots.live _ _ here (safe.slots.near here held),Entry.slot]
    rcases phase with published | ⟨written,_⟩
    · refine ⟨fun _ => ⟨_,here,published⟩,fun _ => ?_⟩
      rw [published]
      exact (wrapping_sub_eq_zero le_rfl (by omega)).mpr rfl
    · refine ⟨fun zero => absurd zero ?_,?_⟩
      · rw [written]
        exact wrapping_sub_succ_ne (by decide) _
      · rintro ⟨e,there,published⟩
        rw [here] at there
        cases there
        rw [written] at published
        cases published
lemma Safe.recv_step {at_ : RecvAt} (here : s.consumers c = .receiving at_) (fails : Bool)
    (in_time : s.InTime (.consumer c fails)) : (s.recv_step k c fails at_).Safe k := by
  have own := safe.takers.recv c
  rw [here] at own
  cases at_ with
  | load_head => exact safe.move (by rw [here]; rfl) rfl ⟨safe.head,le_rfl⟩
  | load_seq pos since =>
    obtain ⟨rfl,known⟩ := own
    rw [World.recv_step,mask_word (le_of_lt small),wrapping_succ]
    by_cases zero : wrapping_sub 64 (s.ring.slots (since % 2 ^ k)).seq ((since + 1) % 2 ^ 64) = 0
    · rw [if_pos zero]
      refine safe.move (by rw [here]; rfl) rfl ⟨rfl,known,?_⟩
      rintro rfl
      exact (safe.next_word small).mp zero
    rw [if_neg zero]
    by_cases sign : negative 64 (wrapping_sub 64 (s.ring.slots (since % 2 ^ k)).seq ((since + 1) % 2 ^ 64))
    · rw [if_pos sign]
      exact safe.move (by rw [here]; rfl) rfl ⟨rfl,known⟩
    · rw [if_neg sign]
      exact safe.move (by rw [here]; rfl) rfl trivial
  | compare_exchange pos since =>
    obtain ⟨rfl,known,waits⟩ := own
    rw [World.recv_step]
    by_cases wins : s.ring.head = since % 2 ^ 64 ∧ fails = false
    · rw [if_pos wins]
      -- the positions have not gone round, so the word is the position
      have near : s.claimed < since + 2 ^ 64 := by
        change (s.consumers c).InTime s.claimed at in_time
        rw [here] at in_time
        exact in_time
      obtain rfl : since = s.claimed := residue_inj known near (wins.1.symm.trans safe.head)
      obtain ⟨e,entry,phase⟩ := waits rfl
      have held : e.phase ≠ .released := by rw [phase]; decide
      have slots := safe.slots.advance entry held .claimed
      have unchanged : Entry.slot 64 k s.claimed { e with phase := .claimed } = s.ring.slots (s.claimed % 2 ^ k) := by
        rw [safe.slots.live _ _ entry (safe.slots.near entry held),Entry.slot,Entry.slot,Entry.val,Entry.val,phase]
        rfl
      rw [unchanged,update_eq_self] at slots
      refine ⟨slots,?_,?_,safe.send.advance entry ⟨by rw [phase]; decide,held⟩,safe.line.claim entry,
        safe.takers.claim safe.line (by rw [here]; rfl) rfl entry phase,safe.gone⟩
      · show TailOk s.ring.tail (advance s.log s.claimed .claimed).length s.producer
        rw [length_advance]
        exact safe.tail
      · show wrapping_add 64 (s.claimed % 2 ^ 64) 1 = (s.claimed + 1) % 2 ^ 64
        rw [wrapping_succ]
    · rw [if_neg wins]
      exact safe.move (by rw [here]; rfl) rfl ⟨safe.head,le_rfl⟩
  | read pos place =>
    obtain ⟨same,e,entry,phase⟩ := own
    have index : pos &&& (2 ^ k - 1) = place % 2 ^ k := by rw [same,mask_word (le_of_lt small)]
    have held : e.phase ≠ .released := by rw [phase]; decide
    have slot : s.ring.slots (place % 2 ^ k) = ⟨(place + 1) % 2 ^ 64,some e.msg⟩ := by
      rw [safe.slots.live _ _ entry (safe.slots.near entry held),Entry.slot,Entry.val,phase]
      rfl
    rw [World.recv_step]
    dsimp only
    rw [index,slot]
    refine ⟨safe.slots.advance entry held .taken,?_,safe.head,safe.send.advance entry ⟨by rw [phase]; decide,held⟩,
      safe.line.advance entry (.inl phase) (.inl rfl),safe.takers.take here entry phase,safe.gone⟩
    show TailOk s.ring.tail (advance s.log place .taken).length s.producer
    rw [length_advance]
    exact safe.tail
  | store_seq pos place =>
    obtain ⟨same,e,entry,phase⟩ := own
    have index : pos &&& (2 ^ k - 1) = place % 2 ^ k := by rw [same,mask_word (le_of_lt small)]
    have held : e.phase ≠ .released := by rw [phase]; decide
    have slot : s.ring.slots (place % 2 ^ k) = ⟨(place + 1) % 2 ^ 64,none⟩ := by
      rw [safe.slots.live _ _ entry (safe.slots.near entry held),Entry.slot,Entry.val,phase]
      rfl
    rw [World.recv_step]
    dsimp only
    rw [index,slot,same,wrapping_add_word]
    refine ⟨safe.slots.advance entry held .released,?_,safe.head,safe.send.advance entry ⟨by rw [phase]; decide,held⟩,
      safe.line.advance entry (.inr phase) (.inr rfl),safe.takers.release here entry phase,safe.gone⟩
    show TailOk s.ring.tail (advance s.log place .released).length s.producer
    rw [length_advance]
    exact safe.tail
  | load_gone pos since =>
    rw [World.recv_step]
    by_cases present : s.ring.producer_gone = false
    · rw [if_pos present]
      exact safe.move (by rw [here]; rfl) rfl trivial
    · rw [if_neg present]
      exact safe.move (by rw [here]; rfl) rfl own
  | load_seq_again pos since =>
    rw [World.recv_step]
    split
    · exact safe.move (by rw [here]; rfl) rfl own
    · have moved := safe.move (c := c) (p := .idle) (by rw [here]; rfl) rfl trivial
      exact ⟨moved.slots,moved.tail,moved.head,moved.send,moved.line,moved.takers,moved.gone⟩

omit small in
lemma Safe.handle {p p' : Consumer} (before : s.consumers c = p) (p_place : p.place = none)
    (p'_place : p'.place = none) (fresh : RecvOk s.log s.claimed p') (slots : ring.slots = s.ring.slots) (tail : ring.tail = s.ring.tail)
    (head : ring.head = s.ring.head) (gone : ring.producer_gone = s.ring.producer_gone) : Safe k { s.set_consumer c p' with ring } := by
  have moved := safe.move (by rw [before]; exact p_place) p'_place fresh
  refine ⟨?_,?_,head.trans safe.head,moved.send,moved.line,moved.takers,?_⟩
  · show Sound 64 k ring.slots s.log
    rw [slots]
    exact safe.slots
  · show TailOk ring.tail s.log.length s.producer
    rw [tail]
    exact safe.tail
  · intro dropped
    exact safe.gone (gone.symm.trans dropped)
lemma Safe.step (two : 0 < k) (in_time : s.InTime event) (taken : s.step k event = some t) : t.Safe k := by
  revert taken
  fun_cases World.step k s event <;> intro taken <;> cases taken
  case case1 msg here =>
    have tail := safe.tail
    rw [here] at tail
    refine ⟨safe.slots,tail,safe.head,trivial,safe.line.move (by rw [here]; rfl),safe.takers,fun dropped => ?_⟩
    have := safe.gone dropped
    rw [here] at this
    cases this
  case case3 here => exact safe.send_step small two here
  case case5 here =>
    have tail := safe.tail
    rw [here] at tail
    exact ⟨safe.slots,tail,safe.head,trivial,safe.line.move (by rw [here]; rfl),safe.takers,fun _ => rfl⟩
  case case19 here => exact safe.recv_step small here _ in_time
  all_goals exact safe.handle (by assumption) rfl rfl trivial rfl rfl rfl rfl
end

/-! ## `Full` and `Closed` -/
/-- What a step adds to the records: a `Full` or a `Closed`, if it returns one. -/
inductive Recorded (k : Nat) (s : World α) : Event α → List Nat → List (List α) → Prop
  | nothing (event : Event α) (calm : s.Current k event) : Recorded k s event s.fulls s.ends
  | full (msg : α) (pos : Nat) (here : s.producer = .sending msg (.load_seq pos))
      (differs : wrapping_sub 64 (s.ring.slots (pos &&& (2 ^ k - 1))).seq pos ≠ 0) :
      Recorded k s .producer (s.fulls ++ [unreleased s.log]) s.ends
  | closed (c : Nat) (fails : Bool) (pos since : Nat) (here : s.consumers c = .receiving (.load_seq_again pos since))
      (differs : wrapping_sub 64 (s.ring.slots (pos &&& (2 ^ k - 1))).seq (wrapping_add 64 pos 1) ≠ 0) :
      Recorded k s (.consumer c fails) s.fulls (s.ends ++ [(s.log.drop s.claimed).map Entry.msg])
lemma current_of {fails : Bool} (here : s.consumers c = p) (holds : p.Current k s.ring) : s.Current k (.consumer c fails) := by
  show (s.consumers c).Current k s.ring
  rw [here]
  exact holds
lemma recorded (taken : s.step k event = some t) : Recorded k s event t.fulls t.ends := by
  revert taken
  fun_cases World.step k s event <;> intro taken <;> cases taken
  case case3 msg at_ here =>
    fun_cases World.send_step k s msg at_
    case case4 differs => exact .full msg _ here differs
    all_goals exact .nothing _ trivial
  case case19 c fails at_ here =>
    fun_cases World.recv_step k s c fails at_
    case case11 same => exact .nothing _ (current_of here fun differs => absurd same differs)
    case case12 differs _ => exact .closed c fails _ _ here differs
    all_goals exact .nothing _ (current_of here trivial)
  all_goals exact .nothing _ trivial
/-- From a message that is not released on, none is. -/
lemma in_order_suffix {p q : Nat} {x : Entry α} (ordered : InOrder log) (here : log[p]? = some e) (held : e.phase ≠ .released)
    (later : p ≤ q) (there : log[q]? = some x) : x.phase ≠ .released := by
  induction log generalizing p q with
  | nil => cases here
  | cons a rest ih =>
    by_cases first : a.phase = .released
    · have rest_ordered : InOrder rest := by
        intro y mem
        refine ordered y ?_
        rw [dropWhile_cons_of_pos (by simpa using first)]
        exact mem
      cases p with
      | zero =>
        cases here
        exact absurd first held
      | succ p =>
        cases q with
        | zero => omega
        | succ q => exact ih rest_ordered here (by omega) there
    · refine ordered x ?_
      rw [dropWhile_cons_of_neg (by simpa using first)]
      exact mem_of_getElem? there
/-- The producer finds its slot held with the messages released in order: `2 ^ k` are not released. -/
lemma Safe.full (two : 0 < k) (small : k < 64) (safe : s.Safe k)
    (differs : wrapping_sub 64 (s.ring.slots (s.log.length % 2 ^ k)).seq (s.log.length % 2 ^ 64) ≠ 0) (ordered : InOrder s.log) :
    2 ^ k ≤ unreleased s.log := by
  obtain ⟨enough,e,oldest,held,_⟩ := safe.slots.next_held fun free => differs ((safe.slots.free_iff two small).mpr free)
  have := unreleased_suffix fun q x later there => in_order_suffix ordered oldest held later there
  omega
lemma Safe.fulls_step (two : 0 < k) (small : k < 64) (safe : s.Safe k) (orderly : s.Orderly k event) (taken : s.step k event = some t)
    (old : ∀ n ∈ s.fulls, 2 ^ k ≤ n) : ∀ n ∈ t.fulls, 2 ^ k ≤ n := by
  generalize fulls : t.fulls = fulls'
  generalize ends : t.ends = ends'
  have known := recorded taken
  rw [fulls,ends] at known
  cases known with
  | nothing | closed => exact old
  | full msg pos here differs =>
    change s.producer.Orderly k s.ring s.log at orderly
    have own := safe.send
    rw [here] at orderly own
    obtain rfl : pos = s.log.length % 2 ^ 64 := own
    intro n mem
    rcases mem_append.mp mem with before | new
    · exact old n before
    · rw [mem_singleton.mp new]
      have ordered := orderly differs
      rw [mask_word (le_of_lt small)] at differs
      exact safe.full two small differs ordered
/-- The producer was gone when a consumer came to look at its slot again. -/
def Closing (s : World α) : Prop :=
  ∀ c pos since, s.consumers c = .receiving (.load_seq_again pos since) → s.ring.producer_gone = true
lemma closing_new : (new : World α).Closing := by
  intro c pos since here
  change (if c = 0 then Consumer.idle else .gone) = _ at here
  split at here
  · cases here
  · cases here
lemma send_step_frame (k : Nat) (s : World α) (msg : α) (at_ : SendAt) :
    (s.send_step k msg at_).consumers = s.consumers ∧ (s.send_step k msg at_).ring.producer_gone = s.ring.producer_gone := by
  fun_cases World.send_step k s msg at_ <;> exact ⟨rfl,rfl⟩
/-- The next access of a consumer only changes its own state, and brings it to look again only when the
    producer is gone. -/
lemma recv_step_frame (k : Nat) (s : World α) (c : Nat) (fails : Bool) (at_ : RecvAt) :
    (s.recv_step k c fails at_).ring.producer_gone = s.ring.producer_gone ∧
    ∃ p, (s.recv_step k c fails at_).consumers = update s.consumers c p ∧
      ((∃ pos since, p = .receiving (.load_seq_again pos since)) → s.ring.producer_gone) := by
  fun_cases World.recv_step k s c fails at_
  case case10 gone => exact ⟨rfl,_,rfl,fun _ => Bool.eq_true_of_not_eq_false gone⟩
  all_goals exact ⟨rfl,_,rfl,fun ⟨_,_,same⟩ => by cases same⟩
lemma Closing.of_update (closing : s.Closing) (consumers : t.consumers = update s.consumers c p)
    (fresh : (∃ pos since, p = .receiving (.load_seq_again pos since)) → s.ring.producer_gone)
    (kept : t.ring.producer_gone = s.ring.producer_gone) : t.Closing := by
  intro d pos since here
  rw [kept]
  rw [consumers] at here
  by_cases same : d = c
  · rw [same,update_self] at here
    exact fresh ⟨pos,since,here⟩
  · rw [update_of_ne same] at here
    exact closing d pos since here
lemma Closing.handle (closing : s.Closing) (other : ∀ pos since, p ≠ .receiving (.load_seq_again pos since))
    (kept : ring.producer_gone = s.ring.producer_gone) : Closing { s.set_consumer c p with ring } :=
  closing.of_update rfl (fun ⟨pos,since,same⟩ => absurd same (other pos since)) kept
lemma Closing.step (closing : s.Closing) (taken : s.step k event = some t) : t.Closing := by
  revert taken
  fun_cases World.step k s event <;> intro taken <;> cases taken
  case case1 => exact closing
  case case3 msg at_ _ =>
    obtain ⟨consumers,kept⟩ := send_step_frame k s msg at_
    intro d pos since here
    rw [consumers] at here
    rw [kept]
    exact closing d pos since here
  case case5 => exact fun _ _ _ _ => rfl
  case case19 c fails at_ _ =>
    obtain ⟨kept,p,consumers,fresh⟩ := recv_step_frame k s c fails at_
    exact closing.of_update consumers fresh kept
  all_goals exact closing.handle (fun _ _ same => by cases same) rfl
lemma Safe.all_claimed (small : k < 64) (safe : s.Safe k) (gone : s.ring.producer_gone)
    (differs : wrapping_sub 64 (s.ring.slots (s.claimed % 2 ^ k)).seq ((s.claimed + 1) % 2 ^ 64) ≠ 0) : s.claimed = s.log.length := by
  by_contra some
  have within := safe.line.within
  have inside : s.claimed < s.log.length := by omega
  have here := getElem?_eq_getElem inside
  rcases safe.line.late _ _ here le_rfl with published | ⟨_,busy,_⟩
  · exact differs ((safe.next_word small).mpr ⟨_,here,published⟩)
  · rw [safe.gone gone] at busy
    cases busy
/-- A `Closed` leaves nothing unclaimed exactly if the consumer's position is current. -/
lemma Safe.ends_step (small : k < 64) (safe : s.Safe k) (closing : s.Closing) (taken : s.step k event = some t)
    (old : ∀ l ∈ s.ends, l = []) : (∀ l ∈ t.ends, l = []) ↔ s.Current k event := by
  have within := safe.line.within
  have none_left : (s.log.drop s.claimed).map Entry.msg = [] ↔ s.claimed = s.log.length := by
    rw [map_eq_nil_iff,drop_eq_nil_iff]
    omega
  have known := recorded taken
  generalize t.fulls = fulls at known
  generalize t.ends = ends at known
  cases known with
  | nothing _ calm => exact ⟨fun _ => calm,fun _ => old⟩
  | full => exact ⟨fun _ => trivial,fun _ => old⟩
  | closed c fails pos since here differs =>
    have own := safe.takers.recv c
    rw [here] at own
    obtain ⟨rfl,known⟩ := own
    refine ⟨fun all => current_of here fun _ => ?_,?_⟩
    · have last := none_left.mp (all _ (mem_append_right _ (mem_singleton_self _)))
      rw [Ring.Bare,safe.head,mask_word (le_of_lt small),wrapping_succ,last]
      exact safe.slots.next_unpublished small (by decide)
    intro holds l mem
    change (s.consumers c).Current k s.ring at holds
    rw [here] at holds
    rcases mem_append.mp mem with before | new
    · exact old l before
    · rw [mem_singleton.mp new,none_left]
      have bare := holds differs
      rw [Ring.Bare,safe.head,mask_word (le_of_lt small),wrapping_succ] at bare
      exact safe.all_claimed small (closing c _ _ here) bare

/-! ## Whole runs -/
def AtRest (s : World α) : Prop :=
  (s.producer = .gone ∨ s.producer = .idle) ∧ ∀ c, s.consumers c = .gone ∨ s.consumers c = .idle
/-- Each position is read at most once, with its message, and each consumer reads in the order sent; a
    message sent and not claimed is in its slot, and the slot that a send writes is empty; `Full` came
    with `2 ^ k` messages not released; dropping the ring destroys what was not read. -/
structure ExactlyOnce (k : Nat) (s : World α) : Prop where
  reads : ∀ x ∈ s.got, ∃ e, s.log[x.2.1]? = some e ∧ x.2.2 = some e.msg
  once : (s.got.map (fun x => x.2.1)).Nodup
  order : ∀ c, ((s.got.filter (fun x => x.1 = c)).map (fun x => x.2.1)).Pairwise (· < ·)
  kept : ∀ p e, s.log[p]? = some e → e.phase = .published → (s.ring.slots (p % 2 ^ k)).val = some e.msg
  clean : ∀ msg pos, s.producer = .sending msg (.write pos) → (s.ring.slots (pos &&& (2 ^ k - 1))).val = none
  full : ∀ n ∈ s.fulls, 2 ^ k ≤ n
  drop : s.AtRest → s.ring.drop k = (s.log.drop s.claimed).map (fun e => some e.msg) ∧
    ∀ p, p < s.log.length → ((∃ x ∈ s.got, x.2.1 = p) ↔ p < s.claimed)

lemma Safe.exactly_once (small : k < 64) (safe : s.Safe k) (fulls : ∀ n ∈ s.fulls, 2 ^ k ≤ n) : s.ExactlyOnce k where
  reads x mem := by
    obtain ⟨e,here,value,_⟩ := safe.takers.read x mem
    exact ⟨e,here,value⟩
  once := safe.takers.once
  order := safe.takers.order
  kept p e here phase := by
    have held : e.phase ≠ .released := by rw [phase]; decide
    rw [safe.slots.live p e here (safe.slots.near here held),Entry.slot,Entry.val,phase]
  clean msg pos here := by
    have own := safe.send
    rw [here] at own
    rw [own.1,mask_word (le_of_lt small),safe.slots.next_slot own.2]
  full := fulls
  drop := by
    rintro ⟨producer,consumers⟩
    have tail : s.ring.tail = s.log.length % 2 ^ 64 := by
      have tail := safe.tail
      rcases producer with h | h <;> rw [h] at tail <;> exact tail
    have rests : s.producer.busy = false := by rcases producer with h | h <;> rw [h] <;> rfl
    have published (q : Nat) (e : Entry α) (late : s.claimed ≤ q) (here : s.log[q]? = some e) : e.phase = .published := by
      rcases safe.line.late q e here late with done | ⟨_,busy,_⟩
      · exact done
      · rw [rests] at busy
        cases busy
    constructor
    · rw [Ring.drop,safe.head,tail]
      exact safe.slots.drain small safe.line.within published
    · intro p inside
      have here := getElem?_eq_getElem inside
      constructor
      · rintro ⟨x,mem,rfl⟩
        obtain ⟨e,there,_,phase⟩ := safe.takers.read x mem
        by_contra late
        rw [published _ e (by omega) there] at phase
        rcases phase with h | h <;> cases h
      · intro early
        rcases safe.line.early p _ here early with claimed | out
        · obtain ⟨c,pos,reads⟩ := safe.takers.hands p _ here claimed
          rcases consumers c with h | h <;> rw [h] at reads <;> cases reads
        · exact safe.takers.out p _ here out
lemma exactly_once_of_run (two : 0 < k) (small : k < 64) (meets : Runs.Meets (step k) (fun s e => s.InTime e ∧ s.Orderly k e) new es)
    (reached : Runs.run (step k) new es = some s) : s.ExactlyOnce k := by
  have kept : s.Safe k ∧ ∀ n ∈ s.fulls, 2 ^ k ≤ n := by
    refine Runs.invariant_of_meets (I := fun s : World α => s.Safe k ∧ ∀ n ∈ s.fulls, 2 ^ k ≤ n) ?_
      ⟨safe_new small,nofun⟩ meets reached
    rintro s e t ⟨safe,old⟩ ⟨in_time,orderly⟩ taken
    exact ⟨safe.step small two in_time taken,safe.fulls_step two small orderly taken old⟩
  exact kept.1.exactly_once small kept.2
end World
end Narf.Ipc.SpmcRing
