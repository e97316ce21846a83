import Narf.Ipc.MpscRun
import Narf.Ipc.SpmcRun

namespace Narf.Ipc
open Lib Option List
open Runs (run)

/-! Exactly-once delivery by the two rings of several parties. The sequence number of a slot tells its
    position only from two slots on, position words tell apart fewer than `2 ^ 64` positions, and the one
    producer takes a slot released out of turn for a full ring. -/

/-- In a run in time every message is received at most once and kept until then, each party's messages
    are in its order, `Full` means that every place is held, and dropping the ring destroys what was
    published and not received. -/
theorem rings_deliver_exactly_once {α : Type} (k : Nat) (two : 0 < k) (small : k < 64) : (∀ es (s : MpscRing.World α),
      Runs.Meets (MpscRing.World.step k) (MpscRing.World.InTime k) .new es → run (MpscRing.World.step k) .new es = some s →
      s.ExactlyOnce k) ∧ (∀ es (s : SpmcRing.World α), Runs.Meets (SpmcRing.World.step k) (fun s e => s.InTime e ∧ s.Orderly k e) .new es →
      run (SpmcRing.World.step k) .new es = some s → s.ExactlyOnce k) := by
  refine ⟨?_,?_⟩
  · intro es s meets reached
    exact MpscRing.World.exactly_once_of_run two small meets reached
  · intro es s meets reached
    exact SpmcRing.World.exactly_once_of_run two small meets reached
/-- Two producers send to a ring of two slots, and one message is received. -/
def mpsc_delivers : List (MpscRing.Event Nat) :=
  [.clone 0 1,.try_send 0 5] ++ replicate 6 (.producer 0 false) ++ [.try_send 1 6] ++ replicate 6 (.producer 1 false) ++
    [.try_recv] ++ replicate 5 .consumer
def spmc_delivers : List (SpmcRing.Event Nat) :=
  [.try_send 5] ++ replicate 6 .producer ++ [.try_recv 0] ++ replicate 5 (.consumer 0 false)
theorem exactly_once_delivered : (∃ s, run (MpscRing.World.step 1) .new mpsc_delivers = some s ∧ s.received = [some 5] ∧ s.ExactlyOnce 1) ∧
    (∃ s, run (SpmcRing.World.step 1) .new spmc_delivers = some s ∧ s.got = [(0,0,some 5)] ∧ s.ExactlyOnce 1) := by
  have mpsc : (run (MpscRing.World.step 1) .new mpsc_delivers).map (fun s => s.received) = some [some 5] := by decide +kernel
  have spmc : (run (SpmcRing.World.step 1) .new spmc_delivers).map (fun s => s.got) = some [(0,0,some 5)] := by decide +kernel
  obtain ⟨m,mpsc_reached,received⟩ := map_eq_some_iff.mp mpsc
  obtain ⟨s,spmc_reached,got⟩ := map_eq_some_iff.mp spmc
  refine ⟨⟨m,mpsc_reached,received,?_⟩,⟨s,spmc_reached,got,?_⟩⟩
  · exact (rings_deliver_exactly_once 1 (by decide) (by decide)).1 _ m (by decide +kernel) mpsc_reached
  · exact (rings_deliver_exactly_once 1 (by decide) (by decide)).2 _ s (by decide +kernel) spmc_reached
/-- A second message is sent to a ring of one slot that holds one. -/
def mpsc_overwrites : List (MpscRing.Event Nat) :=
  [.try_send 0 5] ++ replicate 6 (.producer 0 false) ++ [.try_send 0 6] ++ replicate 5 (.producer 0 false)
/-- Consumer 0 has claimed the first of two messages, consumer 1 has received the second, and the producer
    tries to send a third. -/
def spmc_full_early : List (SpmcRing.Event Nat) :=
  [.clone 0 1,.try_send 5] ++ replicate 6 .producer ++ [.try_send 6] ++ replicate 6 .producer ++
    [.try_recv 0] ++ replicate 3 (.consumer 0 false) ++ [.try_recv 1] ++ replicate 5 (.consumer 1 false) ++
    [.try_send 7] ++ replicate 3 .producer
/-- With one slot a message that was sent and not received is overwritten; with two slots `Full` is
    returned while one of two messages is released. -/
theorem exactly_once_fails : (∃ s, run (MpscRing.World.step 0) .new mpsc_overwrites = some s ∧
      s.sent 0 = [5] ∧ s.received = [] ∧ (s.ring.slots 0).val = some 6) ∧
    (∃ s, run (SpmcRing.World.step 1) .new spmc_full_early = some s ∧ s.fulls = [1]) := by
  have mpsc : (run (MpscRing.World.step 0) .new mpsc_overwrites).map
      (fun s => (s.sent 0,s.received,(s.ring.slots 0).val)) = some ([5],[],some 6) := by decide +kernel
  have spmc : (run (SpmcRing.World.step 1) .new spmc_full_early).map (fun s => s.fulls) = some [1] := by decide +kernel
  obtain ⟨s,reached,facts⟩ := map_eq_some_iff.mp mpsc
  simp only [Prod.mk.injEq] at facts
  exact ⟨⟨s,reached,facts⟩,map_eq_some_iff.mp spmc⟩
end Narf.Ipc
