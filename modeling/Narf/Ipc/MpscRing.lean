import Narf.Lib.Runs
import Narf.Lib.SeqRing

namespace Narf.Ipc.MpscRing
open Lib Lib.RingIndex Lib.SeqRing Function

/-! The ring of many producers and one consumer, `ipc/src/mpsc_ring.rs`. Every access to an atomic or to
    a payload is a step of its own, and the steps of all parties come in any order. The capacity is
    `2 ^ k`, as `POW2_GUARD` asks. -/

structure Ring (α : Type) where
  /-- The next position to claim, a 64-bit word as all positions. -/
  tail : Nat
  head : Nat
  producers : Nat
  consumer_gone : Bool
  slots : Nat → Slot α

namespace Ring
def new {α : Type} : Ring α := ⟨0,0,1,false,fun i => ⟨i,none⟩⟩
def drop {α : Type} (k : Nat) (ring : Ring α) : List (Option α) :=
  SeqRing.drain 64 k ring.tail (2 ^ 64) ring.slots ring.head
end Ring
/-- The next access of `try_send`, with the position word it has read. The second number is a record,
    the position as counted from the first claim on; no step reads it. -/
inductive SendAt where
  | load_gone
  | load_tail
  | load_seq (pos since : Nat)
  | compare_exchange (pos since : Nat)
  | write (pos place : Nat)
  | store_seq (pos place : Nat)
inductive Producer (α : Type) where
  | gone
  | idle
  | sending (msg : α) (at_ : SendAt)
inductive RecvAt where
  | load_head
  | load_seq (pos : Nat)
  | read (pos : Nat)
  | store_head (pos : Nat)
  | store_seq (pos : Nat)
  | load_producers (pos : Nat)
  | load_seq_again (pos : Nat)
inductive Consumer where
  | gone
  | idle
  | receiving (at_ : RecvAt)
/-- The ring and its parties. The claims with their progress, the messages each producer has sent (its
    `try_send` returned `Ok`), the messages received, and for each `Full` returned the number of claims
    not released are records; no step reads them. -/
structure World (α : Type) where
  ring : Ring α
  producers : Nat → Producer α
  consumer : Consumer
  log : List (Entry α)
  sent : Nat → List α
  received : List (Option α)
  fulls : List Nat
inductive Event (α : Type) where
  | clone (c d : Nat)
  /-- Another thread uses a handle by reference, or ends to. -/
  | share (c d : Nat)
  | unshare (c : Nat)
  | drop_producer (c : Nat)
  | try_send (c : Nat) (msg : α)
  /-- The next access of producer `c`; a weak exchange may fail for no reason. -/
  | producer (c : Nat) (fails : Bool)
  | try_recv
  | consumer
  | drop_consumer

variable {α : Type}
/-- The next access of a producer comes before the positions have gone half round since it read `tail`
    (once round for the exchange), `claims` being claimed by now. -/
def Producer.InTime (k claims : Nat) : Producer α → Prop
  | .sending _ (.load_seq _ since) => claims + 2 ^ k ≤ since + 2 ^ 63
  | .sending _ (.compare_exchange _ since) => claims < since + 2 ^ 64
  | _ => True
instance (k claims : Nat) : DecidablePred (Producer.InTime k claims (α := α)) := fun p => by
  unfold Producer.InTime; split <;> infer_instance

namespace World
def new : World α := ⟨.new,fun c => if c = 0 then .idle else .gone,.idle,[],fun _ => [],[],[]⟩
def set_producer (s : World α) (c : Nat) (p : Producer α) : World α := { s with producers := update s.producers c p }
def send_step (k : Nat) (s : World α) (c : Nat) (fails : Bool) (msg : α) : SendAt → World α
  | .load_gone =>
    -- `Closed`
    if s.ring.consumer_gone then s.set_producer c .idle else s.set_producer c (.sending msg .load_tail)
  | .load_tail => s.set_producer c (.sending msg (.load_seq s.ring.tail s.log.length))
  | .load_seq pos since =>
    let diff := wrapping_sub 64 (s.ring.slots (pos &&& (2 ^ k - 1))).seq pos
    if diff = 0 then s.set_producer c (.sending msg (.compare_exchange pos since))
    else if negative 64 diff then { s.set_producer c .idle with fulls := s.fulls ++ [unreleased s.log] }
    else s.set_producer c (.sending msg .load_tail)
  | .compare_exchange pos _ =>
    if s.ring.tail = pos ∧ fails = false then
      { s.set_producer c (.sending msg (.write pos s.log.length)) with
        ring := { s.ring with tail := wrapping_add 64 pos 1 },
        log := s.log ++ [⟨msg,c,.reserved⟩] }
    else s.set_producer c (.sending msg (.load_seq s.ring.tail s.log.length))
  | .write pos place =>
    let slot := s.ring.slots (pos &&& (2 ^ k - 1))
    { s.set_producer c (.sending msg (.store_seq pos place)) with
      ring := { s.ring with slots := update s.ring.slots (pos &&& (2 ^ k - 1)) ⟨slot.seq,some msg⟩ },
      log := advance s.log place .written }
  | .store_seq pos place =>
    let slot := s.ring.slots (pos &&& (2 ^ k - 1))
    { s.set_producer c .idle with
      ring := { s.ring with slots := update s.ring.slots (pos &&& (2 ^ k - 1)) ⟨wrapping_add 64 pos 1,slot.val⟩ },
      log := advance s.log place .published,
      sent := update s.sent c (s.sent c ++ [msg]) }
def recv_step (k : Nat) (s : World α) : RecvAt → World α
  | .load_head => { s with consumer := .receiving (.load_seq s.ring.head) }
  | .load_seq pos =>
    let diff := wrapping_sub 64 (s.ring.slots (pos &&& (2 ^ k - 1))).seq (wrapping_add 64 pos 1)
    if diff = 0 then { s with consumer := .receiving (.read pos) }
    else { s with consumer := .receiving (.load_producers pos) }
  | .read pos =>
    let slot := s.ring.slots (pos &&& (2 ^ k - 1))
    { s with
      ring := { s.ring with slots := update s.ring.slots (pos &&& (2 ^ k - 1)) ⟨slot.seq,none⟩ },
      consumer := .receiving (.store_head pos),
      log := advance s.log s.received.length .taken,
      received := s.received ++ [slot.val] }
  | .store_head pos =>
    { s with ring := { s.ring with head := wrapping_add 64 pos 1 },consumer := .receiving (.store_seq pos) }
  | .store_seq pos =>
    let slot := s.ring.slots (pos &&& (2 ^ k - 1))
    { s with
      ring := { s.ring with slots := update s.ring.slots (pos &&& (2 ^ k - 1)) ⟨wrapping_add 64 pos (2 ^ k),slot.val⟩ },
      consumer := .idle,
      log := advance s.log (s.received.length - 1) .released }
  | .load_producers pos =>
    if s.ring.producers = 0 then { s with consumer := .receiving (.load_seq_again pos) } else { s with consumer := .idle }
  -- `Ok(None)` if a message came in between, `Closed` otherwise
  | .load_seq_again _ => { s with consumer := .idle }
def step (k : Nat) (s : World α) : Event α → Option (World α)
  | .clone c d => match s.producers c,s.producers d with
    | .gone,_ => none
    | _,.gone => some { s.set_producer d .idle with ring := { s.ring with producers := wrapping_add 64 s.ring.producers 1 } }
    | _,_ => none
  | .share c d => match s.producers c,s.producers d with
    | .gone,_ => none
    | _,.gone => some (s.set_producer d .idle)
    | _,_ => none
  | .unshare c => match s.producers c with
    | .idle => some (s.set_producer c .gone)
    | _ => none
  | .drop_producer c => match s.producers c with
    | .idle => some { s.set_producer c .gone with ring := { s.ring with producers := wrapping_sub 64 s.ring.producers 1 } }
    | _ => none
  | .try_send c msg => match s.producers c with
    | .idle => some (s.set_producer c (.sending msg .load_gone))
    | _ => none
  | .producer c fails => match s.producers c with
    | .sending msg at_ => some (s.send_step k c fails msg at_)
    | _ => none
  | .try_recv => match s.consumer with
    | .idle => some { s with consumer := .receiving .load_head }
    | _ => none
  | .consumer => match s.consumer with
    | .receiving at_ => some (s.recv_step k at_)
    | _ => none
  | .drop_consumer => match s.consumer with
    | .idle => some { s with ring := { s.ring with consumer_gone := true },consumer := .gone }
    | _ => none
def InTime (k : Nat) (s : World α) : Event α → Prop
  | .producer c _ => (s.producers c).InTime k s.log.length
  | _ => True
instance (k : Nat) (s : World α) : DecidablePred (s.InTime k) := fun e => by
  unfold InTime; split <;> infer_instance

end World
end Narf.Ipc.MpscRing
