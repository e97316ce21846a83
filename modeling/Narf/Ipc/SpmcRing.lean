import Narf.Lib.Runs
import Narf.Lib.SeqRing

namespace Narf.Ipc.SpmcRing
open Lib Lib.RingIndex Lib.SeqRing Function

/-! The ring of one producer and many consumers, `ipc/src/spmc_ring.rs`. Every access to an atomic or to
    a payload is a step of its own, and the steps of all parties come in any order. The capacity is
    `2 ^ k`, as `POW2_GUARD` asks. -/

structure Ring (α : Type) where
  tail : Nat
  /-- The next position to claim, a 64-bit word as all positions. -/
  head : Nat
  consumers : Nat
  producer_gone : Bool
  slots : Nat → Slot α

namespace Ring
def new {α : Type} : Ring α := ⟨0,0,1,false,fun i => ⟨i,none⟩⟩
def drop {α : Type} (k : Nat) (ring : Ring α) : List (Option α) :=
  SeqRing.drain 64 k ring.tail (2 ^ 64) ring.slots ring.head
end Ring

inductive SendAt where
  | load_consumers
  | load_tail
  | load_seq (pos : Nat)
  | write (pos : Nat)
  | store_tail (pos : Nat)
  | store_seq (pos : Nat)
inductive Producer (α : Type) where
  | gone
  | idle
  | sending (msg : α) (at_ : SendAt)
/-- The next access of `try_recv`, with the position word it has read. The second number is a record,
    the position as counted from the first claim on; no step reads it. -/
inductive RecvAt where
  | load_head
  | load_seq (pos since : Nat)
  | compare_exchange (pos since : Nat)
  | read (pos place : Nat)
  | store_seq (pos place : Nat)
  | load_gone (pos since : Nat)
  | load_seq_again (pos since : Nat)
inductive Consumer where
  | gone
  | idle
  | receiving (at_ : RecvAt)
/-- The ring and its parties. The messages with their progress, the number of claims by consumers, what
    each consumer has read at which position, for each `Full` returned the number of messages not
    released, and for each `Closed` returned the messages that nobody had claimed are records; no step
    reads them. -/
structure World (α : Type) where
  ring : Ring α
  producer : Producer α
  consumers : Nat → Consumer
  log : List (Entry α)
  claimed : Nat
  got : List (Nat × Nat × Option α)
  fulls : List Nat
  ends : List (List α)

inductive Event (α : Type) where
  | try_send (msg : α)
  | producer
  | drop_producer
  | clone (c d : Nat)
  /-- Another thread uses a handle by reference, or ends to. -/
  | share (c d : Nat)
  | unshare (c : Nat)
  | drop_consumer (c : Nat)
  | try_recv (c : Nat)
  /-- The next access of consumer `c`; a weak exchange may fail for no reason. -/
  | consumer (c : Nat) (fails : Bool)

namespace World
variable {α : Type}
def new : World α := ⟨.new,.idle,fun c => if c = 0 then .idle else .gone,[],0,[],[],[]⟩
def set_consumer (s : World α) (c : Nat) (p : Consumer) : World α := { s with consumers := update s.consumers c p }
def send_step (k : Nat) (s : World α) (msg : α) : SendAt → World α
  | .load_consumers =>
    -- `Closed`
    if s.ring.consumers = 0 then { s with producer := .idle } else { s with producer := .sending msg .load_tail }
  | .load_tail => { s with producer := .sending msg (.load_seq s.ring.tail) }
  | .load_seq pos =>
    let diff := wrapping_sub 64 (s.ring.slots (pos &&& (2 ^ k - 1))).seq pos
    -- below and above both give `Full`
    if diff ≠ 0 then { s with producer := .idle,fulls := s.fulls ++ [unreleased s.log] }
    else { s with producer := .sending msg (.write pos) }
  | .write pos =>
    let slot := s.ring.slots (pos &&& (2 ^ k - 1))
    { s with
      ring := { s.ring with slots := update s.ring.slots (pos &&& (2 ^ k - 1)) ⟨slot.seq,some msg⟩ },
      producer := .sending msg (.store_tail pos),
      log := s.log ++ [⟨msg,0,.written⟩] }
  | .store_tail pos =>
    { s with ring := { s.ring with tail := wrapping_add 64 pos 1 },producer := .sending msg (.store_seq pos) }
  | .store_seq pos =>
    let slot := s.ring.slots (pos &&& (2 ^ k - 1))
    { s with
      ring := { s.ring with slots := update s.ring.slots (pos &&& (2 ^ k - 1)) ⟨wrapping_add 64 pos 1,slot.val⟩ },
      producer := .idle,
      log := advance s.log (s.log.length - 1) .published }
def recv_step (k : Nat) (s : World α) (c : Nat) (fails : Bool) : RecvAt → World α
  | .load_head => s.set_consumer c (.receiving (.load_seq s.ring.head s.claimed))
  | .load_seq pos since =>
    let diff := wrapping_sub 64 (s.ring.slots (pos &&& (2 ^ k - 1))).seq (wrapping_add 64 pos 1)
    if diff = 0 then s.set_consumer c (.receiving (.compare_exchange pos since))
    else if negative 64 diff then s.set_consumer c (.receiving (.load_gone pos since))
    else s.set_consumer c (.receiving .load_head)
  | .compare_exchange pos _ =>
    if s.ring.head = pos ∧ fails = false then
      { s.set_consumer c (.receiving (.read pos s.claimed)) with
        ring := { s.ring with head := wrapping_add 64 pos 1 },
        log := advance s.log s.claimed .claimed,
        claimed := s.claimed + 1 }
    else s.set_consumer c (.receiving (.load_seq s.ring.head s.claimed))
  | .read pos place =>
    let slot := s.ring.slots (pos &&& (2 ^ k - 1))
    { s.set_consumer c (.receiving (.store_seq pos place)) with
      ring := { s.ring with slots := update s.ring.slots (pos &&& (2 ^ k - 1)) ⟨slot.seq,none⟩ },
      log := advance s.log place .taken,
      got := s.got ++ [(c,place,slot.val)] }
  | .store_seq pos place =>
    let slot := s.ring.slots (pos &&& (2 ^ k - 1))
    { s.set_consumer c .idle with
      ring := { s.ring with slots := update s.ring.slots (pos &&& (2 ^ k - 1)) ⟨wrapping_add 64 pos (2 ^ k),slot.val⟩ },
      log := advance s.log place .released }
  | .load_gone pos since =>
    -- `Ok(None)`
    if s.ring.producer_gone = false then s.set_consumer c .idle
    else s.set_consumer c (.receiving (.load_seq_again pos since))
  | .load_seq_again pos since =>
    let diff := wrapping_sub 64 (s.ring.slots (pos &&& (2 ^ k - 1))).seq (wrapping_add 64 pos 1)
    if diff = 0 then s.set_consumer c (.receiving (.load_seq pos since))
    -- `Closed`
    else { s.set_consumer c .idle with ends := s.ends ++ [(s.log.drop s.claimed).map Entry.msg] }
def step (k : Nat) (s : World α) : Event α → Option (World α)
  | .try_send msg => match s.producer with
    | .idle => some { s with producer := .sending msg .load_consumers }
    | _ => none
  | .producer => match s.producer with
    | .sending msg at_ => some (s.send_step k msg at_)
    | _ => none
  | .drop_producer => match s.producer with
    | .idle => some { s with ring := { s.ring with producer_gone := true },producer := .gone }
    | _ => none
  | .clone c d => match s.consumers c,s.consumers d with
    | .gone,_ => none
    | _,.gone => some { s.set_consumer d .idle with ring := { s.ring with consumers := wrapping_add 64 s.ring.consumers 1 } }
    | _,_ => none
  | .share c d => match s.consumers c,s.consumers d with
    | .gone,_ => none
    | _,.gone => some (s.set_consumer d .idle)
    | _,_ => none
  | .unshare c => match s.consumers c with
    | .idle => some (s.set_consumer c .gone)
    | _ => none
  | .drop_consumer c => match s.consumers c with
    | .idle => some { s.set_consumer c .gone with ring := { s.ring with consumers := wrapping_sub 64 s.ring.consumers 1 } }
    | _ => none
  | .try_recv c => match s.consumers c with
    | .idle => some (s.set_consumer c (.receiving .load_head))
    | _ => none
  | .consumer c fails => match s.consumers c with
    | .receiving at_ => some (s.recv_step k c fails at_)
    | _ => none
end World

variable {α : Type}

/-! ## Conditions on a run -/
/-- The exchange of a consumer comes before the positions have gone once round since it read `head`,
    `claimed` being claimed by now. -/
def Consumer.InTime (claimed : Nat) : Consumer → Prop
  | .receiving (.compare_exchange _ since) => claimed < since + 2 ^ 64
  | _ => True
/-- After the first message that is not released none is. -/
def InOrder (log : List (Entry α)) : Prop := ∀ e ∈ log.dropWhile (fun e => e.phase = .released), e.phase ≠ .released
/-- The messages are released in their order when the producer finds its slot held. -/
def Producer.Orderly (k : Nat) (ring : Ring α) (log : List (Entry α)) : Producer α → Prop
  | .sending _ (.load_seq pos) => wrapping_sub 64 (ring.slots (pos &&& (2 ^ k - 1))).seq pos ≠ 0 → InOrder log
  | _ => True
/-- No message is published at `pos`. -/
def Ring.Bare (k : Nat) (ring : Ring α) (pos : Nat) : Prop :=
  wrapping_sub 64 (ring.slots (pos &&& (2 ^ k - 1))).seq (wrapping_add 64 pos 1) ≠ 0
/-- A consumer that is about to return `Closed` would find nothing at the present `head` either. -/
def Consumer.Current (k : Nat) (ring : Ring α) : Consumer → Prop
  | .receiving (.load_seq_again pos _) => ring.Bare k pos → ring.Bare k ring.head
  | _ => True
instance (log : List (Entry α)) : Decidable (InOrder log) :=
  by unfold InOrder; infer_instance
instance (claimed : Nat) : DecidablePred (Consumer.InTime claimed) := fun p => by
  unfold Consumer.InTime; split <;> infer_instance
instance (k : Nat) (ring : Ring α) (log : List (Entry α)) : DecidablePred (Producer.Orderly k ring log) := fun p => by
  unfold Producer.Orderly; split <;> infer_instance
instance (k : Nat) (ring : Ring α) : DecidablePred (Consumer.Current k ring) := fun p => by
  unfold Consumer.Current Ring.Bare; split <;> infer_instance

namespace World
/-- The condition on the next access of a producer or consumer, if the event is one. -/
def Next (P : Producer α → Prop) (Q : Consumer → Prop) (s : World α) : Event α → Prop
  | .producer => P s.producer
  | .consumer c _ => Q (s.consumers c)
  | _ => True
instance (P : Producer α → Prop) (Q : Consumer → Prop) [DecidablePred P] [DecidablePred Q] (s : World α) :
    DecidablePred (s.Next P Q) := fun e => by
  unfold Next; split <;> infer_instance

def InTime (s : World α) : Event α → Prop := s.Next (fun _ => True) (fun c => c.InTime s.claimed)
def Orderly (k : Nat) (s : World α) : Event α → Prop := s.Next (fun p => p.Orderly k s.ring s.log) (fun _ => True)
def Current (k : Nat) (s : World α) : Event α → Prop := s.Next (fun _ => True) (Consumer.Current k s.ring)
instance (s : World α) : DecidablePred s.InTime := by unfold InTime; infer_instance
instance (k : Nat) (s : World α) : DecidablePred (s.Orderly k) := by unfold Orderly; infer_instance
instance (k : Nat) (s : World α) : DecidablePred (s.Current k) := by unfold Current; infer_instance

end World
end Narf.Ipc.SpmcRing
