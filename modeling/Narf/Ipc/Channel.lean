import Narf.Lib.Runs
import Narf.Lib.Spsc
import Narf.Lib.WakeSlot

namespace Narf.Ipc.Channel
open Lib Lib.RingIndex Lib.Spsc Lib.WakeSlot

/-! The channel of one producer and one consumer, `ipc/src/lib.rs`. Every access to an atomic, to a
    waker slot or to a payload slot is a step of its own; the steps of the two sides come in any order.
    The capacity is `2 ^ k`, as `POW2_GUARD` asks, and positions are 64-bit words. -/

/-- The hook that a payload passes when it is published. -/
class Retag (α : Type) where
  retag : α → α := id
/-- A registration; each poll that registers makes a new one. -/
abbrev Waker := Nat
structure Ring (α : Type) where
  head : Nat
  tail : Nat
  closed : Bool
  producer_waker : Option Waker
  consumer_waker : Option Waker
  slots : Nat → Option α

namespace Ring
def new {α : Type} : Ring α := ⟨0,0,false,none,none,fun _ => none⟩
/-- The payloads that the destructor runs on, `none` for one that was not initialised. -/
def drop {α : Type} (k : Nat) (ring : Ring α) : List (Option α) := View.drain 64 k ring.head (2 ^ 64) ring.slots ring.tail
end Ring
/-- Who called `try_send` or `try_recv`: the owner, or a poll of a future in its first or second try. -/
inductive Call where
  | plain
  | first
  | second (registered : Waker)
inductive SendAt where
  | load_closed
  | load_head
  | load_tail (head : Nat)
  | write (head : Nat)
  | store_head (head : Nat)
  | take_waker
  | wake (w : Waker)
inductive RecvAt where
  | load_tail
  | load_head (tail : Nat)
  | load_closed (head : Nat)
  | read (tail : Nat)
  | store_tail (tail : Nat)
  | take_waker
  | wake (w : Waker)
inductive DropAt where
  | store_closed
  | take_waker
  | wake (w : Waker)
inductive Producer (α : Type) where
  | idle
  | sending (call : Call) (msg : α) (at_ : SendAt)
  /-- The first try of a poll found the ring full. -/
  | register (msg : α)
  /-- The second try of a poll has sent. -/
  | clear_waker
  /-- A `SendFuture` that is not being polled, with its registration if its last poll was pending. -/
  | future (msg : α) (registered : Option Waker)
  | dropping (at_ : DropAt)
  | gone
inductive Consumer where
  | idle
  | receiving (call : Call) (at_ : RecvAt)
  | register
  | clear_waker
  | future (registered : Option Waker)
  | dropping (at_ : DropAt)
  | gone
/-- The ring and its two halves. The messages sent (at the store of `head`) and received (at the read
    of the slot), the registrations woken, and for each `Closed` returned what was sent and not
    received are records; no step reads them. -/
structure World (α : Type) where
  ring : Ring α
  producer : Producer α
  consumer : Consumer
  sent : List α
  received : List (Option α)
  wakers : Nat
  woken : List Waker
  ends : List (List α)

inductive Event (α : Type) where
  | try_send (msg : α)
  | send (msg : α)
  | poll_send
  | drop_send
  | drop_producer
  /-- The producer's next access. -/
  | producer
  | try_recv
  | recv
  | poll_recv
  | drop_recv
  | drop_consumer
  /-- The consumer's next access. -/
  | consumer

namespace World
variable {α : Type}
def new : World α := ⟨.new,.idle,.idle,[],[],0,[],[]⟩

/-! ## The producer -/
variable (s : World α)
def sent_ok : Call → World α
  | .second _ => { s with producer := .clear_waker }
  | _ => { s with producer := .idle }
def send_full (msg : α) : Call → World α
  | .plain => { s with producer := .idle }
  | .first => { s with producer := .register msg }
  | .second r => { s with producer := .future msg (some r) }
def send_step [Retag α] (k : Nat) (s : World α) (call : Call) (msg : α) : SendAt → World α
  | .load_closed =>
    -- `Closed` ends a plain call and makes a future ready
    if s.ring.closed then { s with producer := .idle } else { s with producer := .sending call msg .load_head }
  | .load_head => { s with producer := .sending call msg (.load_tail s.ring.head) }
  | .load_tail head =>
    if 2 ^ k ≤ wrapping_sub 64 head s.ring.tail then s.send_full msg call
    else { s with producer := .sending call msg (.write head) }
  | .write head =>
    { s with
      ring.slots := Function.update s.ring.slots (head &&& (2 ^ k - 1)) (some (Retag.retag msg)),
      producer := .sending call msg (.store_head head) }
  | .store_head head =>
    { s with
      ring.head := wrapping_add 64 head 1,
      sent := s.sent ++ [Retag.retag msg],
      producer := .sending call msg .take_waker }
  | .take_waker =>
    match s.ring.consumer_waker with
    | none => s.sent_ok call
    -- the slot's lock is held until the waker is woken; that nothing waits for it here only adds runs
    | some w => { s with ring.consumer_waker := none,producer := .sending call msg (.wake w) }
  | .wake w => sent_ok { s with woken := w :: s.woken } call
def drop_producer_step : DropAt → World α
  | .store_closed => { s with ring.closed := true,producer := .dropping .take_waker }
  | .take_waker =>
    match s.ring.consumer_waker with
    | none => { s with producer := .gone }
    | some w => { s with ring.consumer_waker := none,producer := .dropping (.wake w) }
  | .wake w => { s with woken := w :: s.woken,producer := .gone }
def producer_step [Retag α] (k : Nat) (s : World α) : Option (World α) :=
  match s.producer with
  | .sending call msg at_ => some (s.send_step k call msg at_)
  | .register msg =>
    some { s with
      ring.producer_waker := some s.wakers,
      wakers := s.wakers + 1,
      producer := .sending (.second s.wakers) msg .load_closed }
  | .clear_waker => some { s with ring.producer_waker := none,producer := .idle }
  | .dropping at_ => some (s.drop_producer_step at_)
  | _ => none

/-! ## The consumer -/
def recv_ok : Call → World α
  | .second _ => { s with consumer := .clear_waker }
  | _ => { s with consumer := .idle }
def recv_empty : Call → World α
  | .plain => { s with consumer := .idle }
  | .first => { s with consumer := .register }
  | .second r => { s with consumer := .future (some r) }
def recv_step (k : Nat) (s : World α) (call : Call) : RecvAt → World α
  | .load_tail => { s with consumer := .receiving call (.load_head s.ring.tail) }
  | .load_head tail =>
    if s.ring.head = tail then { s with consumer := .receiving call (.load_closed s.ring.head) }
    else { s with consumer := .receiving call (.read tail) }
  | .load_closed _ =>
    -- `Closed` ends a plain call and makes a future ready
    if s.ring.closed then { s with consumer := .idle,ends := s.ends ++ [s.sent.drop s.received.length] }
    else s.recv_empty call
  | .read tail =>
    { s with
      ring.slots := Function.update s.ring.slots (tail &&& (2 ^ k - 1)) none,
      received := s.received ++ [s.ring.slots (tail &&& (2 ^ k - 1))],
      consumer := .receiving call (.store_tail tail) }
  | .store_tail tail => { s with ring.tail := wrapping_add 64 tail 1,consumer := .receiving call .take_waker }
  | .take_waker =>
    match s.ring.producer_waker with
    | none => s.recv_ok call
    | some w => { s with ring.producer_waker := none,consumer := .receiving call (.wake w) }
  | .wake w => recv_ok { s with woken := w :: s.woken } call
def drop_consumer_step : DropAt → World α
  | .store_closed => { s with ring.closed := true,consumer := .dropping .take_waker }
  | .take_waker =>
    match s.ring.producer_waker with
    | none => { s with consumer := .gone }
    | some w => { s with ring.producer_waker := none,consumer := .dropping (.wake w) }
  | .wake w => { s with woken := w :: s.woken,consumer := .gone }
def consumer_step (k : Nat) (s : World α) : Option (World α) :=
  match s.consumer with
  | .receiving call at_ => some (s.recv_step k call at_)
  | .register =>
    some { s with
      ring.consumer_waker := some s.wakers,
      wakers := s.wakers + 1,
      consumer := .receiving (.second s.wakers) .load_tail }
  | .clear_waker => some { s with ring.consumer_waker := none,consumer := .idle }
  | .dropping at_ => some (s.drop_consumer_step at_)
  | _ => none

/-! ## Both -/
/-- A half starts an operation only when it is in none; a future borrows its half. -/
def step [Retag α] (k : Nat) (s : World α) : Event α → Option (World α)
  | .try_send msg => match s.producer with
    | .idle => some { s with producer := .sending .plain msg .load_closed }
    | _ => none
  | .send msg => match s.producer with
    | .idle => some { s with producer := .future msg none }
    | _ => none
  | .poll_send => match s.producer with
    | .future msg _ => some { s with producer := .sending .first msg .load_closed }
    | _ => none
  | .drop_send => match s.producer with
    | .future _ _ => some { s with producer := .idle }
    | _ => none
  | .drop_producer => match s.producer with
    | .idle => some { s with producer := .dropping .store_closed }
    | _ => none
  | .producer => s.producer_step k
  | .try_recv => match s.consumer with
    | .idle => some { s with consumer := .receiving .plain .load_tail }
    | _ => none
  | .recv => match s.consumer with
    | .idle => some { s with consumer := .future none }
    | _ => none
  | .poll_recv => match s.consumer with
    | .future _ => some { s with consumer := .receiving .first .load_tail }
    | _ => none
  | .drop_recv => match s.consumer with
    | .future _ => some { s with consumer := .idle }
    | _ => none
  | .drop_consumer => match s.consumer with
    | .idle => some { s with consumer := .dropping .store_closed }
    | _ => none
  | .consumer => s.consumer_step k
end World
end Narf.Ipc.Channel
