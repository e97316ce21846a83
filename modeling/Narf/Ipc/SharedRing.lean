import Narf.Lib.Runs
import Narf.Lib.Spsc

namespace Narf.Ipc.SharedRing
open Lib Lib.RingIndex Lib.Spsc

/-! The ring of one producer and one consumer in a page that the kernel shares with a user,
    `ipc/src/shared_ring.rs`. As in the channel each access is a step of its own; positions are 32-bit
    words, there are no wakers, and either half may close the ring and go on. -/

structure Ring (α : Type) where
  head : Nat
  tail : Nat
  /-- The word `closed` is not zero. -/
  closed : Bool
  slots : Nat → Option α
/-- `init_in`: the slots are left as they are. -/
def Ring.init_in {α : Type} : Ring α := ⟨0,0,false,fun _ => none⟩
inductive SendAt where
  | load_closed
  | load_head
  | load_tail (head : Nat)
  | write (head : Nat)
  | store_head (head : Nat)
inductive RecvAt where
  | load_tail
  | load_head (tail : Nat)
  | load_closed (head : Nat)
  | read (tail : Nat)
  | store_tail (tail : Nat)
inductive Producer (α : Type) where
  | idle
  | sending (msg : α) (at_ : SendAt)
inductive Consumer where
  | idle
  | receiving (at_ : RecvAt)
/-- The page and its two halves; `sent`, `received` and `ends` are records as in the channel. -/
structure World (α : Type) where
  ring : Ring α
  producer : Producer α
  consumer : Consumer
  sent : List α
  received : List (Option α)
  ends : List (List α)
inductive Event (α : Type) where
  | try_send (msg : α)
  | close_producer
  /-- The producer's next access. -/
  | producer
  | try_recv
  | close_consumer
  /-- The consumer's next access. -/
  | consumer

namespace World
variable {α : Type} {k : Nat} {s t : World α}
def new : World α := ⟨.init_in,.idle,.idle,[],[],[]⟩
def send_step (k : Nat) (s : World α) (msg : α) : SendAt → World α
  | .load_closed =>
    if s.ring.closed then { s with producer := .idle } else { s with producer := .sending msg .load_head }
  | .load_head => { s with producer := .sending msg (.load_tail s.ring.head) }
  | .load_tail head =>
    if 2 ^ k ≤ wrapping_sub 32 head s.ring.tail then { s with producer := .idle }
    else { s with producer := .sending msg (.write head) }
  | .write head =>
    { s with
      ring.slots := Function.update s.ring.slots (head &&& (2 ^ k - 1)) (some msg),
      producer := .sending msg (.store_head head) }
  | .store_head head =>
    { s with ring.head := wrapping_add 32 head 1,sent := s.sent ++ [msg],producer := .idle }
def recv_step (k : Nat) (s : World α) : RecvAt → World α
  | .load_tail => { s with consumer := .receiving (.load_head s.ring.tail) }
  | .load_head tail =>
    if tail = s.ring.head then { s with consumer := .receiving (.load_closed s.ring.head) }
    else { s with consumer := .receiving (.read tail) }
  | .load_closed _ =>
    if s.ring.closed then { s with consumer := .idle,ends := s.ends ++ [s.sent.drop s.received.length] }
    else { s with consumer := .idle }
  -- the payload is copied and stays in its slot
  | .read tail =>
    { s with
      received := s.received ++ [s.ring.slots (tail &&& (2 ^ k - 1))],
      consumer := .receiving (.store_tail tail) }
  | .store_tail tail => { s with ring.tail := wrapping_add 32 tail 1,consumer := .idle }
def step (k : Nat) (s : World α) : Event α → Option (World α)
  | .try_send msg => match s.producer with
    | .idle => some { s with producer := .sending msg .load_closed }
    | _ => none
  | .close_producer => match s.producer with
    | .idle => some { s with ring.closed := true }
    | _ => none
  | .producer => match s.producer with
    | .sending msg at_ => some (s.send_step k msg at_)
    | _ => none
  | .try_recv => match s.consumer with
    | .idle => some { s with consumer := .receiving .load_tail }
    | _ => none
  | .close_consumer => match s.consumer with
    | .idle => some { s with ring.closed := true }
    | _ => none
  | .consumer => match s.consumer with
    | .receiving at_ => some (s.recv_step k at_)
    | _ => none

/-! ## The two halves -/
def written (s : World α) : Option α :=
  match s.producer with
  | .sending msg (.store_head _) => some msg
  | _ => none
def taken (s : World α) : Bool :=
  match s.consumer with
  | .receiving (.store_tail _) => true
  | _ => false
def view (s : World α) : View α := ⟨s.ring.head,s.ring.tail,s.ring.slots,s.sent,s.received,s.written,s.taken⟩
def ProducerOk (k : Nat) (s : World α) : Producer α → Prop
  | .sending _ (.load_tail head) => head = s.ring.head
  | .sending _ (.write head) => head = s.ring.head ∧ s.sent.length < s.view.freed + 2 ^ k
  | .sending _ (.store_head head) => head = s.ring.head
  | _ => True
def ConsumerOk (s : World α) : Consumer → Prop
  | .receiving (.load_head tail) => tail = s.ring.tail
  | .receiving (.load_closed head) => head = s.ring.tail
  | .receiving (.read tail) => tail = s.ring.tail ∧ s.received.length < s.sent.length
  | .receiving (.store_tail tail) => tail = s.ring.tail
  | _ => True
structure Safe (k : Nat) (s : World α) : Prop where
  queue : s.view.Sound 32 k
  producer : s.ProducerOk k s.producer
  consumer : s.ConsumerOk s.consumer
lemma safe_new : (new : World α).Safe k := ⟨View.sound_new _,trivial,trivial⟩
lemma ProducerOk.stable {p : Producer α} (ok : s.ProducerOk k p) (head : t.ring.head = s.ring.head) (sent : t.sent = s.sent)
    (freed : s.view.freed ≤ t.view.freed) : t.ProducerOk k p := by
  cases p with
  | idle => trivial
  | sending msg at_ =>
    cases at_ with
    | load_closed | load_head => trivial
    | load_tail | store_head => exact Eq.trans ok head.symm
    | write h => exact ⟨ok.1.trans head.symm,by rw [sent]; exact lt_of_lt_of_le ok.2 (Nat.add_le_add_right freed _)⟩
lemma ConsumerOk.stable {c : Consumer} (ok : s.ConsumerOk c) (tail : t.ring.tail = s.ring.tail) (received : t.received = s.received)
    (sent : s.sent.length ≤ t.sent.length) : t.ConsumerOk c := by
  cases c with
  | idle => trivial
  | receiving at_ =>
    cases at_ with
    | load_tail => trivial
    | load_head | load_closed | store_tail => exact Eq.trans ok tail.symm
    | read h => exact ⟨ok.1.trans tail.symm,by rw [received]; exact lt_of_lt_of_le ok.2 sent⟩
lemma Safe.send_step {msg : α} {at_ : SendAt} (small : k < 32) (safe : s.Safe k) (here : s.producer = .sending msg at_) :
    (s.send_step k msg at_).Safe k := by
  obtain ⟨queue,own,other⟩ := safe
  obtain ⟨ring,producer,consumer,sent,received,ends⟩ := s
  cases here
  have kept : ∀ t : World α, t.ring.tail = ring.tail → t.received = received → sent.length ≤ t.sent.length → t.ConsumerOk consumer :=
    fun t => other.stable
  cases at_ with
  | load_closed =>
    rw [World.send_step]
    by_cases closed : ring.closed
    · rw [if_pos closed]
      exact ⟨queue,trivial,kept _ rfl rfl le_rfl⟩
    · rw [if_neg closed]
      exact ⟨queue,trivial,kept _ rfl rfl le_rfl⟩
  | load_head => exact ⟨queue,rfl,kept _ rfl rfl le_rfl⟩
  | load_tail head =>
    obtain rfl : head = ring.head := own
    rw [World.send_step]
    by_cases full : 2 ^ k ≤ wrapping_sub 32 ring.head ring.tail
    · rw [if_pos full]
      exact ⟨queue,trivial,kept _ rfl rfl le_rfl⟩
    · rw [if_neg full]
      exact ⟨queue,⟨rfl,Nat.lt_of_not_le fun more => full ((queue.full_iff small).mpr more)⟩,kept _ rfl rfl le_rfl⟩
  | write head =>
    obtain rfl : head = ring.head := own.1
    exact ⟨queue.write small rfl own.2 msg,rfl,kept _ rfl rfl le_rfl⟩
  | store_head head =>
    obtain rfl : head = ring.head := own
    refine ⟨queue.publish rfl,trivial,kept _ rfl rfl ?_⟩
    show sent.length ≤ (sent ++ [msg]).length
    rw [List.length_append]
    exact Nat.le_add_right _ _
lemma Safe.recv_step {at_ : RecvAt} (small : k < 32) (safe : s.Safe k) (here : s.consumer = .receiving at_) :
    (s.recv_step k at_).Safe k := by
  obtain ⟨queue,other,own⟩ := safe
  obtain ⟨ring,producer,consumer,sent,received,ends⟩ := s
  cases here
  cases at_ with
  | load_tail => exact ⟨queue,other.stable rfl rfl le_rfl,rfl⟩
  | load_head tail =>
    obtain rfl : tail = ring.tail := own
    rw [World.recv_step]
    by_cases empty : ring.tail = ring.head
    · rw [if_pos empty]
      exact ⟨queue,other.stable rfl rfl le_rfl,empty.symm⟩
    · rw [if_neg empty]
      have order : received.length ≤ sent.length := queue.order
      refine ⟨queue,other.stable rfl rfl le_rfl,rfl,Nat.lt_of_le_of_ne order ?_⟩
      intro same
      exact empty ((queue.empty_iff small rfl).mpr same).symm
  | load_closed head =>
    rw [World.recv_step]
    by_cases closed : ring.closed
    · rw [if_pos closed]
      exact ⟨queue,other.stable rfl rfl le_rfl,trivial⟩
    · rw [if_neg closed]
      exact ⟨queue,other.stable rfl rfl le_rfl,trivial⟩
  | read tail =>
    obtain rfl : tail = ring.tail := own.1
    refine ⟨queue.take small rfl own.2 fun _ _ => rfl,other.stable rfl rfl ?_,rfl⟩
    show received.length - 0 ≤ (received ++ [_]).length - 1
    rw [List.length_append,List.length_singleton]
    exact le_rfl
  | store_tail tail =>
    obtain rfl : tail = ring.tail := own
    exact ⟨queue.advance rfl,other.stable rfl rfl (Nat.sub_le_sub_left (Nat.zero_le _) _),trivial⟩
lemma Safe.step {e : Event α} (small : k < 32) (safe : s.Safe k) (taken : s.step k e = some t) : t.Safe k := by
  cases e with
  | producer =>
    cases here : s.producer with
    | idle => rw [World.step,here] at taken; cases taken
    | sending msg at_ =>
      rw [World.step,here] at taken
      cases taken
      exact safe.send_step small here
  | consumer =>
    cases here : s.consumer with
    | idle => rw [World.step,here] at taken; cases taken
    | receiving at_ =>
      rw [World.step,here] at taken
      cases taken
      exact safe.recv_step small here
  | try_send | close_producer =>
    obtain ⟨ring,producer,consumer,sent,received,ends⟩ := s
    cases producer with
    | idle => cases taken; exact ⟨safe.queue,trivial,safe.consumer.stable rfl rfl le_rfl⟩
    | sending msg at_ => cases taken
  | try_recv | close_consumer =>
    obtain ⟨ring,producer,consumer,sent,received,ends⟩ := s
    cases consumer with
    | idle => cases taken; exact ⟨safe.queue,safe.producer.stable rfl rfl le_rfl,trivial⟩
    | receiving at_ => cases taken
end World
end Narf.Ipc.SharedRing
