import Narf.Ipc.Channel

namespace Narf.Ipc.Channel
open Lib Lib.RingIndex Lib.Spsc Lib.WakeSlot List
open Line (Watched carries_refl Carries carries_take carries_wake)
variable {α : Type}

/-! The channel delivers every message once and in order, and a pending future is woken when there is
    something for it. The message queue is a `Spsc.View`, each waker slot a `WakeSlot.Line`. -/

/-- A message in its slot that the store of `head` will publish. -/
def Producer.written [Retag α] : Producer α → Option α
  | .sending _ msg (.store_head _) => some (Retag.retag msg)
  | _ => none
def Consumer.taken : Consumer → Bool
  | .receiving _ (.store_tail _) => true
  | _ => false
def Producer.hand : Producer α → Option Waker
  | .sending _ _ (.wake w) => some w
  | .dropping (.wake w) => some w
  | _ => none
def Producer.announcing : Producer α → Bool
  | .sending _ _ .take_waker => true
  | .dropping .take_waker => true
  | _ => false
def Consumer.hand : Consumer → Option Waker
  | .receiving _ (.wake w) => some w
  | .dropping (.wake w) => some w
  | _ => none
def Consumer.announcing : Consumer → Bool
  | .receiving _ .take_waker => true
  | .dropping .take_waker => true
  | _ => false
def Producer.AtRest : Producer α → Prop
  | .idle => True
  | .future _ _ => True
  | .gone => True
  | _ => False
def Consumer.AtRest : Consumer → Prop
  | .idle => True
  | .future _ => True
  | .gone => True
  | _ => False
lemma Producer.AtRest.quiet [Retag α] {p : Producer α} (rest : p.AtRest) : p.written = none ∧ p.hand = none ∧ p.announcing = false := by
  cases p with
  | idle | future | gone => exact ⟨rfl,rfl,rfl⟩
  | _ => exact rest.elim
lemma Consumer.AtRest.quiet {c : Consumer} (rest : c.AtRest) : c.taken = false ∧ c.hand = none ∧ c.announcing = false := by
  cases c with
  | idle | future | gone => exact ⟨rfl,rfl,rfl⟩
  | _ => exact rest.elim
/-- What a poll in its second try knows of its registration. -/
def Call.Holds (P : Waker → Prop) : Call → Prop
  | .second r => P r
  | _ => True
lemma Call.Holds.imp {P Q : Waker → Prop} {call : Call} (holds : call.Holds P) (more : ∀ r, P r → Q r) : call.Holds Q := by
  cases call with
  | second r => exact more r holds
  | plain | first => trivial

namespace World
variable [Retag α] {k : Nat} {s t : World α}
def view (s : World α) : View α :=
  ⟨s.ring.head,s.ring.tail,s.ring.slots,s.sent,s.received,s.producer.written,s.consumer.taken⟩
def to_consumer (s : World α) : Line Waker := ⟨s.ring.consumer_waker,s.producer.hand,s.producer.announcing,s.woken⟩
def to_producer (s : World α) : Line Waker := ⟨s.ring.producer_waker,s.consumer.hand,s.consumer.announcing,s.woken⟩
def Full (k : Nat) (s : World α) : Prop := s.view.freed + 2 ^ k ≤ s.sent.length
def SendOk (k : Nat) (s : World α) (call : Call) : SendAt → Prop
  | .load_closed => call.Holds fun r => s.to_producer.Watched r True
  | .load_head => call.Holds fun r => s.to_producer.Watched r (s.ring.closed = false)
  | .load_tail head => head = s.ring.head ∧ call.Holds fun r => s.to_producer.Watched r (s.ring.closed = false)
  | .write head => head = s.ring.head ∧ s.sent.length < s.view.freed + 2 ^ k
  | .store_head head => head = s.ring.head
  | _ => True
def RecvOk (s : World α) (call : Call) : RecvAt → Prop
  | .load_tail => call.Holds fun r => s.to_consumer.Watched r True
  | .load_head tail => tail = s.ring.tail ∧ call.Holds fun r => s.to_consumer.Watched r True
  | .load_closed head => head = s.ring.tail ∧ call.Holds fun r => s.to_consumer.Watched r (s.received.length = s.sent.length)
  | .read tail => tail = s.ring.tail ∧ s.received.length < s.sent.length
  | .store_tail tail => tail = s.ring.tail
  | _ => True
def ProducerOk (k : Nat) (s : World α) : Producer α → Prop
  | .sending call _ at_ => s.SendOk k call at_
  | .future _ (some r) => s.to_producer.Watched r (s.ring.closed = false ∧ s.Full k)
  | _ => True
def ConsumerOk (s : World α) : Consumer → Prop
  | .receiving call at_ => s.RecvOk call at_
  | .future (some r) => s.to_consumer.Watched r (s.received.length = s.sent.length ∧ s.ring.closed = false)
  | _ => True
structure Safe (k : Nat) (s : World α) : Prop where
  queue : s.view.Tidy 64 k
  producer : s.ProducerOk k s.producer
  consumer : s.ConsumerOk s.consumer
lemma safe_new : (new : World α).Safe k := ⟨View.tidy_new,trivial,trivial⟩

/-! ## What one side's steps leave to the other -/
variable {p : Producer α} {c : Consumer} {call : Call} {msg : α} {at_ : DropAt} {r : Waker}
/-- The consumer moves: places are only given back, and what may end a wait is announced. -/
lemma ProducerOk.stable (ok : s.ProducerOk k p) (head : t.ring.head = s.ring.head) (sent : t.sent = s.sent)
    (freed : s.view.freed ≤ t.view.freed) (carries : s.to_producer.Carries t.to_producer)
    (quiet : t.to_producer.announcing ∨ (t.view.freed = s.view.freed ∧ t.ring.closed = s.ring.closed)) : t.ProducerOk k p := by
  have open_kept : s.ring.closed = false → t.ring.closed = false ∨ t.to_producer.announcing := by
    intro still
    rcases quiet with announced | ⟨_,same⟩
    · exact .inr announced
    · exact .inl (same.trans still)
  have full_kept : s.ring.closed = false ∧ s.Full k → (t.ring.closed = false ∧ t.Full k) ∨ t.to_producer.announcing := by
    rintro ⟨still,full⟩
    rcases quiet with announced | ⟨places,same⟩
    · exact .inr announced
    · exact .inl ⟨same.trans still,by rw [Full,places,sent]; exact full⟩
  cases p with
  | sending call msg at_ =>
    cases at_ with
    | load_closed => exact Call.Holds.imp ok fun r watched => carries r _ _ (.inl ·) watched
    | load_head => exact Call.Holds.imp ok fun r watched => carries r _ _ open_kept watched
    | load_tail h => exact ⟨ok.1.trans head.symm,ok.2.imp fun r watched => carries r _ _ open_kept watched⟩
    | write h =>
      refine ⟨ok.1.trans head.symm,?_⟩
      have room := ok.2
      rw [sent]
      omega
    | store_head h => exact Eq.trans ok head.symm
    | take_waker | wake => trivial
  | future msg registered =>
    cases registered with
    | none => trivial
    | some r => exact carries r _ _ full_kept ok
  | idle | register | clear_waker | dropping | gone => trivial

omit [Retag α] in
/-- The producer moves: messages are only added, and what may end a wait is announced. -/
lemma ConsumerOk.stable (ok : s.ConsumerOk c) (tail : t.ring.tail = s.ring.tail) (received : t.received = s.received)
    (sent : s.sent.length ≤ t.sent.length) (carries : s.to_consumer.Carries t.to_consumer)
    (quiet : t.to_consumer.announcing ∨ (t.sent = s.sent ∧ t.ring.closed = s.ring.closed)) : t.ConsumerOk c := by
  have empty_kept : s.received.length = s.sent.length → t.received.length = t.sent.length ∨ t.to_consumer.announcing := by
    intro empty
    rcases quiet with announced | ⟨same,_⟩
    · exact .inr announced
    · exact .inl (by rw [received,same]; exact empty)
  have calm_kept : s.received.length = s.sent.length ∧ s.ring.closed = false →
      (t.received.length = t.sent.length ∧ t.ring.closed = false) ∨ t.to_consumer.announcing := by
    rintro ⟨empty,still⟩
    rcases quiet with announced | ⟨same,closed⟩
    · exact .inr announced
    · exact .inl ⟨by rw [received,same]; exact empty,closed.trans still⟩
  cases c with
  | receiving call at_ =>
    cases at_ with
    | load_tail => exact Call.Holds.imp ok fun r watched => carries r _ _ (.inl ·) watched
    | load_head h => exact ⟨ok.1.trans tail.symm,ok.2.imp fun r watched => carries r _ _ (.inl ·) watched⟩
    | load_closed h => exact ⟨ok.1.trans tail.symm,ok.2.imp fun r watched => carries r _ _ empty_kept watched⟩
    | read h =>
      refine ⟨ok.1.trans tail.symm,?_⟩
      rw [received]
      exact lt_of_lt_of_le ok.2 sent
    | store_tail h => exact Eq.trans ok tail.symm
    | take_waker | wake => trivial
  | future registered =>
    cases registered with
    | none => trivial
    | some r => exact carries r _ _ calm_kept ok
  | idle | register | clear_waker | dropping | gone => trivial

omit [Retag α] in
lemma ConsumerOk.silent (ok : s.ConsumerOk c) (p : Producer α) (hand : p.hand = s.producer.hand)
    (announcing : p.announcing = s.producer.announcing) : ConsumerOk { s with producer := p } c :=
  ok.stable rfl rfl le_rfl (Line.carries_more rfl hand announcing fun _ known => known) (.inr ⟨rfl,rfl⟩)
lemma ProducerOk.silent (ok : s.ProducerOk k p) (c : Consumer) (taken : c.taken = s.consumer.taken)
    (hand : c.hand = s.consumer.hand) (announcing : c.announcing = s.consumer.announcing) : ProducerOk k { s with consumer := c } p := by
  have freed : View.freed (view { s with consumer := c }) = s.view.freed := by simp [View.freed,view,taken]
  exact ok.stable rfl rfl (le_of_eq freed.symm) (Line.carries_more rfl hand announcing fun _ known => known) (.inr ⟨freed,rfl⟩)

/-! ## The producer's steps -/
section
variable (safe : s.Safe k)
include safe
lemma Safe.send_step {at_ : SendAt} (small : k < 64) (here : s.producer = .sending call msg at_) : (s.send_step k call msg at_).Safe k := by
  obtain ⟨ring,producer,consumer,sent,received,wakers,woken,ends⟩ := s
  cases here
  obtain ⟨queue,own,other⟩ := safe
  cases at_ with
  | load_closed =>
    rw [World.send_step]
    by_cases closed : ring.closed
    · rw [if_pos closed]
      exact ⟨queue,trivial,other.silent _ rfl rfl⟩
    · rw [if_neg closed]
      refine ⟨queue,?_,other.silent _ rfl rfl⟩
      exact Call.Holds.imp own fun r watched => watched.mono fun _ => Bool.eq_false_iff.mpr closed
  | load_head => exact ⟨queue,⟨rfl,own⟩,other.silent _ rfl rfl⟩
  | load_tail head =>
    obtain rfl : head = ring.head := own.1
    have full_iff := queue.full_iff small
    rw [World.send_step]
    by_cases full : 2 ^ k ≤ wrapping_sub 64 ring.head ring.tail
    · rw [if_pos full]
      cases call with
      | plain | first => exact ⟨queue,trivial,other.silent _ rfl rfl⟩
      | second r => exact ⟨queue,Watched.recheck own.2 (full_iff.mp full),other.silent _ rfl rfl⟩
    · rw [if_neg full]
      exact ⟨queue,⟨rfl,Nat.lt_of_not_le fun room => full (full_iff.mpr room)⟩,other.silent _ rfl rfl⟩
  | write head =>
    obtain rfl : head = ring.head := own.1
    exact ⟨queue.write small rfl own.2 (Retag.retag msg),rfl,other.stable rfl rfl le_rfl (carries_refl _) (.inr ⟨rfl,rfl⟩)⟩
  | store_head head =>
    obtain rfl : head = ring.head := own
    have longer : sent.length ≤ (sent ++ [Retag.retag msg]).length := by
      rw [length_append]
      exact Nat.le_add_right _ _
    exact ⟨queue.publish rfl,trivial,other.stable rfl rfl longer (Line.carries_announce rfl rfl rfl rfl) (.inl rfl)⟩
  | take_waker =>
    rw [World.send_step]
    cases slot : ring.consumer_waker with
    | none =>
      have carries (p : Producer α) (hand : p.hand = none) : Carries
          ⟨ring.consumer_waker,none,true,woken⟩ ⟨ring.consumer_waker,p.hand,p.announcing,woken⟩ :=
        carries_take slot (hand.trans slot.symm) rfl rfl
      cases call with
      | plain | first => exact ⟨queue,trivial,other.stable rfl rfl le_rfl (carries .idle rfl) (.inr ⟨rfl,rfl⟩)⟩
      | second r => exact ⟨queue,trivial,other.stable rfl rfl le_rfl (carries .clear_waker rfl) (.inr ⟨rfl,rfl⟩)⟩
    | some w =>
      exact ⟨queue,trivial,other.stable rfl rfl le_rfl (carries_take rfl slot.symm rfl rfl) (.inr ⟨rfl,rfl⟩)⟩
  | wake w =>
    rw [World.send_step]
    have carries (p : Producer α) (hand : p.hand = none) : Carries
        ⟨ring.consumer_waker,some w,false,woken⟩ ⟨ring.consumer_waker,p.hand,p.announcing,w :: woken⟩ :=
      carries_wake rfl rfl rfl rfl
    cases call with
    | plain | first => exact ⟨queue,trivial,other.stable rfl rfl le_rfl (carries .idle rfl) (.inr ⟨rfl,rfl⟩)⟩
    | second r => exact ⟨queue,trivial,other.stable rfl rfl le_rfl (carries .clear_waker rfl) (.inr ⟨rfl,rfl⟩)⟩
lemma Safe.drop_producer_step (here : s.producer = .dropping at_) : (s.drop_producer_step at_).Safe k := by
  obtain ⟨ring,producer,consumer,sent,received,wakers,woken,ends⟩ := s
  cases here
  obtain ⟨queue,own,other⟩ := safe
  cases at_ with
  | store_closed =>
    exact ⟨queue,trivial,other.stable rfl rfl le_rfl (Line.carries_announce rfl rfl rfl rfl) (.inl rfl)⟩
  | take_waker =>
    rw [World.drop_producer_step]
    cases slot : ring.consumer_waker with
    | none =>
      exact ⟨queue,trivial,other.stable rfl rfl le_rfl (carries_take slot slot.symm rfl rfl) (.inr ⟨rfl,rfl⟩)⟩
    | some w =>
      exact ⟨queue,trivial,other.stable rfl rfl le_rfl (carries_take rfl slot.symm rfl rfl) (.inr ⟨rfl,rfl⟩)⟩
  | wake w => exact ⟨queue,trivial,other.stable rfl rfl le_rfl (carries_wake rfl rfl rfl rfl) (.inr ⟨rfl,rfl⟩)⟩
lemma Safe.producer_step (small : k < 64) (taken : s.producer_step k = some t) : t.Safe k := by
  revert taken
  fun_cases World.producer_step k s <;> intro taken <;> cases taken
  case case1 here => exact safe.send_step small here
  case case4 here => exact safe.drop_producer_step here
  all_goals
    next here =>
    obtain ⟨ring,producer,consumer,sent,received,wakers,woken,ends⟩ := s
    cases here
    refine ⟨safe.queue,?_,safe.consumer.stable rfl rfl le_rfl (carries_refl _) (.inr ⟨rfl,rfl⟩)⟩
    first | exact Line.watched_of_register rfl | trivial

/-! ## The consumer's steps -/
lemma Safe.recv_step {at_ : RecvAt} (small : k < 64) (here : s.consumer = .receiving call at_) : (s.recv_step k call at_).Safe k := by
  obtain ⟨ring,producer,consumer,sent,received,wakers,woken,ends⟩ := s
  cases here
  obtain ⟨queue,other,own⟩ := safe
  cases at_ with
  | load_tail => exact ⟨queue,other.silent _ rfl rfl rfl,⟨rfl,own⟩⟩
  | load_head tail =>
    obtain rfl : tail = ring.tail := own.1
    have empty_iff := queue.empty_iff small rfl
    rw [World.recv_step]
    by_cases empty : ring.head = ring.tail
    · rw [if_pos empty]
      refine ⟨queue,other.silent _ rfl rfl rfl,empty,?_⟩
      exact own.2.imp fun r watched => watched.mono fun _ => empty_iff.mp empty
    · rw [if_neg empty]
      refine ⟨queue,other.silent _ rfl rfl rfl,rfl,?_⟩
      exact Nat.lt_of_le_of_ne queue.order fun all => empty (empty_iff.mpr all)
  | load_closed head =>
    rw [World.recv_step]
    by_cases closed : ring.closed
    · rw [if_pos closed]
      refine ⟨queue,?_,trivial⟩
      exact other.stable rfl rfl le_rfl (carries_refl _) (.inr ⟨rfl,rfl⟩)
    · rw [if_neg closed]
      cases call with
      | plain | first => exact ⟨queue,other.silent _ rfl rfl rfl,trivial⟩
      | second r => exact ⟨queue,other.silent _ rfl rfl rfl,Watched.recheck own.2 (Bool.eq_false_iff.mpr closed)⟩
  | read tail =>
    obtain rfl : tail = ring.tail := own.1
    have after := queue.take small rfl own.2
    have freed : received.length = (received ++ [ring.slots (ring.tail &&& (2 ^ k - 1))]).length - 1 := by
      rw [length_append,length_singleton,Nat.add_sub_cancel]
    refine ⟨after,other.stable rfl rfl (le_of_eq freed) (carries_refl _) (.inr ⟨freed.symm,rfl⟩),rfl⟩
  | store_tail tail =>
    obtain rfl : tail = ring.tail := own
    refine ⟨queue.advance rfl,?_,trivial⟩
    exact other.stable rfl rfl (Nat.sub_le _ _) (Line.carries_announce rfl rfl rfl rfl) (.inl rfl)
  | take_waker =>
    rw [World.recv_step]
    cases slot : ring.producer_waker with
    | none =>
      have carries (c : Consumer) (hand : c.hand = none) : Carries
          ⟨ring.producer_waker,none,true,woken⟩ ⟨ring.producer_waker,c.hand,c.announcing,woken⟩ :=
        carries_take slot (hand.trans slot.symm) rfl rfl
      cases call with
      | plain | first => exact ⟨queue,other.stable rfl rfl le_rfl (carries .idle rfl) (.inr ⟨rfl,rfl⟩),trivial⟩
      | second r => exact ⟨queue,other.stable rfl rfl le_rfl (carries .clear_waker rfl) (.inr ⟨rfl,rfl⟩),trivial⟩
    | some w =>
      exact ⟨queue,other.stable rfl rfl le_rfl (carries_take rfl slot.symm rfl rfl) (.inr ⟨rfl,rfl⟩),trivial⟩
  | wake w =>
    rw [World.recv_step]
    have carries (c : Consumer) (hand : c.hand = none) : Carries
        ⟨ring.producer_waker,some w,false,woken⟩ ⟨ring.producer_waker,c.hand,c.announcing,w :: woken⟩ :=
      carries_wake rfl rfl rfl rfl
    cases call with
    | plain | first => exact ⟨queue,other.stable rfl rfl le_rfl (carries .idle rfl) (.inr ⟨rfl,rfl⟩),trivial⟩
    | second r => exact ⟨queue,other.stable rfl rfl le_rfl (carries .clear_waker rfl) (.inr ⟨rfl,rfl⟩),trivial⟩
lemma Safe.drop_consumer_step (here : s.consumer = .dropping at_) : (s.drop_consumer_step at_).Safe k := by
  obtain ⟨ring,producer,consumer,sent,received,wakers,woken,ends⟩ := s
  cases here
  obtain ⟨queue,other,own⟩ := safe
  cases at_ with
  | store_closed =>
    exact ⟨queue,other.stable rfl rfl le_rfl (Line.carries_announce rfl rfl rfl rfl) (.inl rfl),trivial⟩
  | take_waker =>
    rw [World.drop_consumer_step]
    cases slot : ring.producer_waker with
    | none =>
      exact ⟨queue,other.stable rfl rfl le_rfl (carries_take slot slot.symm rfl rfl) (.inr ⟨rfl,rfl⟩),trivial⟩
    | some w =>
      exact ⟨queue,other.stable rfl rfl le_rfl (carries_take rfl slot.symm rfl rfl) (.inr ⟨rfl,rfl⟩),trivial⟩
  | wake w => exact ⟨queue,other.stable rfl rfl le_rfl (carries_wake rfl rfl rfl rfl) (.inr ⟨rfl,rfl⟩),trivial⟩
lemma Safe.consumer_step (small : k < 64) (taken : s.consumer_step k = some t) : t.Safe k := by
  revert taken
  fun_cases World.consumer_step k s <;> intro taken <;> cases taken
  case case1 here => exact safe.recv_step small here
  case case4 here => exact safe.drop_consumer_step here
  all_goals
    next here =>
    obtain ⟨ring,producer,consumer,sent,received,wakers,woken,ends⟩ := s
    cases here
    refine ⟨safe.queue,safe.producer.stable rfl rfl le_rfl (carries_refl _) (.inr ⟨rfl,rfl⟩),?_⟩
    first | exact Line.watched_of_register rfl | trivial

/-! ## Whole runs -/
/-- An operation starts: no word and no slot changes, and the half was in no operation. -/
lemma Safe.start_producer {p' : Producer α} (here : s.producer = p) (rest : p.AtRest)
    (written : p'.written = none) (hand : p'.hand = none) (quiet : p'.announcing = false) (fresh : ∀ s : World α, s.ProducerOk k p') :
    Safe k { s with producer := p' } := by
  cases here
  have before := rest.quiet
  refine ⟨?_,fresh _,safe.consumer.silent p' (hand.trans before.2.1.symm) (quiet.trans before.2.2.symm)⟩
  have same := safe.queue
  simp only [view,before.1] at same
  simp only [view,written]
  exact same
lemma Safe.start_consumer {c' : Consumer} (here : s.consumer = c) (rest : c.AtRest)
    (taken : c'.taken = false) (hand : c'.hand = none) (quiet : c'.announcing = false) (fresh : ∀ s : World α, s.ConsumerOk c') :
    Safe k { s with consumer := c' } := by
  cases here
  have before := rest.quiet
  refine ⟨?_,safe.producer.silent c' (taken.trans before.1.symm) (hand.trans before.2.1.symm) (quiet.trans before.2.2.symm),fresh _⟩
  have same := safe.queue
  simp only [view,before.1] at same
  simp only [view,taken]
  exact same
lemma Safe.step {event : Event α} (small : k < 64) (taken : s.step k event = some t) : t.Safe k := by
  revert taken
  fun_cases World.step k s event <;> intro taken
  case case11 => exact safe.producer_step small taken
  case case22 => exact safe.consumer_step small taken
  all_goals cases taken
  all_goals
    next here => first
      | exact safe.start_producer here trivial rfl rfl rfl fun _ => trivial
      | exact safe.start_consumer here trivial rfl rfl rfl fun _ => trivial

omit safe in
lemma Safe.of_run {es : List (Event α)} (small : k < 64) (reached : Runs.run (World.step k) new es = some s) : s.Safe k :=
  Runs.invariant_of_run (fun _ _ _ safe taken => safe.step small taken) safe_new reached
/-- What the slots still hold is what was sent and not received, once both halves are gone. -/
lemma Safe.drop (small : k < 64) (producer : s.producer = .gone) (consumer : s.consumer = .gone) :
    s.ring.drop k = (s.sent.drop s.received.length).map some := by
  refine safe.queue.drain small ?_ ?_
  · rw [view,producer]
    rfl
  · rw [view,consumer]
    rfl
/-- A pending `RecvFuture` has been woken if a message waits and the producer is at rest. -/
lemma Safe.recv_woken (pending : s.consumer = .future (some r)) (rest : s.producer.AtRest)
    (waits : s.received.length < s.sent.length) : s.ring.consumer_waker = none ∧ r ∈ s.woken := by
  have watched := safe.consumer
  rw [pending] at watched
  obtain ⟨_,hand,silent⟩ := rest.quiet
  rcases Watched.at_rest watched hand silent with ⟨empty,_⟩ | woken
  · omega
  · exact woken
/-- A pending `SendFuture` has been woken if there is a place or the ring is closed, and the consumer is
    at rest. -/
lemma Safe.send_woken (pending : s.producer = .future msg (some r))
    (rest : s.consumer.AtRest) (ready : s.sent.length < s.received.length + 2 ^ k ∨ s.ring.closed) :
    s.ring.producer_waker = none ∧ r ∈ s.woken := by
  have watched := safe.producer
  rw [pending] at watched
  obtain ⟨idle,hand,silent⟩ := rest.quiet
  rcases Watched.at_rest watched hand silent with ⟨still,full⟩ | woken
  · have freed : s.view.freed = s.received.length := View.freed_of_idle idle
    rw [Full,freed] at full
    rcases ready with room | closed
    · omega
    · rw [still] at closed
      cases closed
  · exact woken
end
/-- In every run: messages arrive in the order sent and each once, at most `2 ^ k` wait, the slot that a
    send writes is empty, dropping the ring destroys what was not received, and a pending future is
    woken when there is something for it. -/
theorem channel_delivers (k : Nat) (small : k < 64) (es : List (Event α)) (s : World α)
    (reached : Runs.run (World.step k) new es = some s) : s.received <+: s.sent.map some ∧ s.sent.length ≤ s.received.length + 2 ^ k ∧
    (∀ call msg head, s.producer = .sending call msg (.write head) → s.ring.slots (head &&& (2 ^ k - 1)) = none) ∧
    (s.producer = .gone → s.consumer = .gone → s.ring.drop k = (s.sent.drop s.received.length).map some) ∧
    (∀ r, s.consumer = .future (some r) → s.producer.AtRest → s.received.length < s.sent.length →
      s.ring.consumer_waker = none ∧ r ∈ s.woken) ∧ (∀ msg r, s.producer = .future msg (some r) → s.consumer.AtRest →
      s.sent.length < s.received.length + 2 ^ k ∨ s.ring.closed = true → s.ring.producer_waker = none ∧ r ∈ s.woken) := by
  have safe := Safe.of_run small reached
  refine ⟨?_,?_,?_,safe.drop small,fun r => safe.recv_woken,fun msg r => safe.send_woken⟩
  · have fifo : s.received = (s.sent.take s.received.length).map some := safe.queue.fifo
    rw [fifo,map_take]
    exact take_prefix _ _
  · have room : s.view.queued.length ≤ s.view.freed + 2 ^ k := safe.queue.room
    have queued : s.sent.length ≤ s.view.queued.length := View.length_queued s.view
    have freed : s.view.freed ≤ s.received.length := View.freed_le s.view
    omega
  · intro call msg head here
    have own := safe.producer
    rw [here] at own
    obtain ⟨same,room⟩ := own
    have idle : s.view.written = none := by rw [view,here]; rfl
    rw [same]
    exact safe.queue.empty small idle room

instance : Retag Nat := {}
/-- The consumer waits on an empty ring of one slot and a send wakes it. -/
def waits_then_sends : List (Event Nat) :=
  [.recv,.poll_recv] ++ List.replicate 7 .consumer ++ [.try_send 5] ++ List.replicate 7 .producer
lemma waits_then_sends_runs : (Runs.run (World.step 0) (new : World Nat) waits_then_sends).isSome := by decide +kernel
theorem channel_delivers_wakes : ∃ s : World Nat, Runs.run (World.step 0) new waits_then_sends = some s ∧
    s.received.length < s.sent.length ∧ s.ring.consumer_waker = none ∧ 0 ∈ s.woken := by
  refine ⟨_,(Option.some_get waits_then_sends_runs).symm,by decide +kernel,?_⟩
  exact (channel_delivers 0 (by decide) waits_then_sends _ (Option.some_get waits_then_sends_runs).symm).2.2.2.2.1 0 rfl trivial
    (by decide +kernel)
end World
end Narf.Ipc.Channel
