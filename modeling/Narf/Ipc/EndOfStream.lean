import Narf.Ipc.ChannelRun
import Narf.Ipc.SharedRing
import Narf.Ipc.SpmcRun

namespace Narf.Ipc
open Lib Lib.RingIndex List Option
open Runs (Meets run)

/-! When a receive operation reports the end of the stream. `try_recv` finds the ring empty, and only
    then reads whether it is closed; what was sent in between is not looked at again. -/

lemma all_nil_concat {α : Type} {ls : List (List α)} {l : List α} (old : ∀ m ∈ ls, m = []) : (∀ m ∈ ls ++ [l], m = []) ↔ l = [] := by
  constructor
  · intro all
    exact all l (mem_append_right _ (mem_singleton.mpr rfl))
  · intro empty m mem
    rcases mem_append.mp mem with before | last
    · exact old m before
    · rw [mem_singleton.mp last,empty]

namespace Channel
variable {α : Type}
/-- The head that the receive operation found equal to the tail. -/
def Consumer.saw_empty : Consumer → Option Nat
  | .receiving _ (.load_closed head) => some head
  | _ => none

namespace World
/-- A receive operation that finds the ring closed reads the flag while `head` is as it was when the ring
    was found empty. -/
def Current (s : World α) : Event α → Prop
  | .consumer => ∀ head ∈ s.consumer.saw_empty, s.ring.closed = true → s.ring.head = head
  | _ => True
instance (s : World α) : DecidablePred s.Current := fun e => by
  unfold Current; split <;> infer_instance

variable [Retag α] {k : Nat} {s t : World α} {e : Event α}
lemma producer_step_ends (taken : s.producer_step k = some t) : t.ends = s.ends := by
  revert taken
  fun_cases producer_step k s <;> intro taken <;> cases taken
  case case1 call msg at_ _ => fun_cases send_step k s call msg at_ <;> first | rfl | (cases call <;> rfl)
  case case4 at_ _ => fun_cases drop_producer_step s at_ <;> rfl
  all_goals rfl
/-- What a step of the consumer adds to the record. -/
inductive Reported (s : World α) : List (List α) → Prop
  | nothing (calm : s.Current .consumer) : Reported s s.ends
  | closed (call : Call) (head : Nat) (here : s.consumer = .receiving call (.load_closed head)) (closed : s.ring.closed = true) :
      Reported s (s.ends ++ [s.sent.drop s.received.length])

omit [Retag α] in
lemma recv_step_ends {call : Call} {at_ : RecvAt} (here : s.consumer = .receiving call at_) : Reported s (s.recv_step k call at_).ends := by
  have calm : (Consumer.receiving call at_).saw_empty = none → s.Current .consumer := by
    intro none head saw
    rw [here,none] at saw
    cases saw
  fun_cases recv_step k s call at_
  case case4 closed => exact .closed call _ here closed
  case case5 still =>
    have open_ : s.Current .consumer := fun _ _ done => absurd done still
    cases call <;> exact .nothing open_
  all_goals first | exact .nothing (calm rfl) | (cases call <;> exact .nothing (calm rfl))

omit [Retag α] in
lemma consumer_step_ends (taken : s.consumer_step k = some t) : Reported s t.ends := by
  have calm : s.consumer.saw_empty = none → s.Current .consumer := by
    intro none head saw
    rw [none] at saw
    cases saw
  revert taken
  fun_cases consumer_step k s <;> intro taken <;> cases taken
  case case1 here => exact recv_step_ends here
  case case4 at_ here =>
    have calm := calm (by rw [here]; rfl)
    fun_cases drop_consumer_step s at_ <;> exact .nothing calm
  all_goals next here => exact .nothing (calm (by rw [here]; rfl))
/-- Only the consumer's accesses report. -/
lemma step_ends (other : e ≠ .consumer) (taken : s.step k e = some t) : t.ends = s.ends := by
  revert taken
  fun_cases World.step k s e <;> intro taken
  case case11 => exact producer_step_ends taken
  case case22 => exact absurd rfl other
  all_goals cases taken
  all_goals rfl
lemma Safe.consumer_ends (small : k < 64) (safe : s.Safe k) (taken : s.consumer_step k = some t)
    (old : ∀ l ∈ s.ends, l = []) : (∀ l ∈ t.ends, l = []) ↔ s.Current .consumer := by
  have known := consumer_step_ends taken
  generalize t.ends = ends at known
  cases known with
  | nothing calm => exact ⟨fun _ => calm,fun _ => old⟩
  | closed call head here closed =>
    have own := safe.consumer
    rw [here] at own
    have idle : s.view.taken = false := by rw [view,here]; rfl
    rw [all_nil_concat old]
    refine (safe.queue.drained_iff small idle).trans ?_
    -- what was found equal to `tail` then is equal to it still
    rw [Current,here]
    constructor
    · rintro same _ ⟨⟩ _
      exact same.trans own.1.symm
    · intro current
      exact (current head rfl closed).trans own.1
lemma Safe.ends_step (small : k < 64) (safe : s.Safe k) (taken : s.step k e = some t) (old : ∀ l ∈ s.ends, l = []) :
    (∀ l ∈ t.ends, l = []) ↔ s.Current e := by
  have same : e ≠ .consumer → s.Current e → ((∀ l ∈ t.ends, l = []) ↔ s.Current e) := by
    intro other calm
    rw [step_ends other taken]
    exact ⟨fun _ => calm,fun _ => old⟩
  cases e with
  | consumer => exact safe.consumer_ends small taken old
  | _ => exact same (by simp) trivial
end World
end Channel

namespace SharedRing
variable {α : Type}
def Consumer.saw_empty : Consumer → Option Nat
  | .receiving (.load_closed head) => some head
  | _ => none

namespace World
def Current (s : World α) : Event α → Prop
  | .consumer => ∀ head ∈ s.consumer.saw_empty, s.ring.closed = true → s.ring.head = head
  | _ => True
instance (s : World α) : DecidablePred s.Current := fun e => by
  unfold Current; split <;> infer_instance

variable {k : Nat} {s t : World α} {e : Event α}

inductive Reported (s : World α) : List (List α) → Prop
  | nothing (calm : s.Current .consumer) : Reported s s.ends
  | closed (head : Nat) (here : s.consumer = .receiving (.load_closed head)) (closed : s.ring.closed = true) :
      Reported s (s.ends ++ [s.sent.drop s.received.length])

variable {at_ : RecvAt}
lemma recv_step_ends (here : s.consumer = .receiving at_) : Reported s (s.recv_step k at_).ends := by
  have calm : (Consumer.receiving at_).saw_empty = none → s.Current .consumer := by
    intro none head saw
    rw [here,none] at saw
    cases saw
  fun_cases recv_step k s at_
  case case4 closed => exact .closed _ here closed
  case case5 still => exact .nothing fun _ _ done => absurd done still
  all_goals exact .nothing (calm rfl)
lemma send_step_ends {msg : α} {at_ : SendAt} : (s.send_step k msg at_).ends = s.ends := by
  fun_cases send_step k s msg at_ <;> rfl
lemma step_ends (other : e ≠ .consumer) (taken : s.step k e = some t) : t.ends = s.ends := by
  cases e with
  | consumer => exact absurd rfl other
  | producer => rw [World.step] at taken; split at taken <;> cases taken; exact send_step_ends
  | try_send | close_producer | try_recv | close_consumer => rw [World.step] at taken; split at taken <;> cases taken; rfl
lemma Safe.consumer_ends (small : k < 32) (safe : s.Safe k) (at_here : s.consumer = .receiving at_)
    (old : ∀ l ∈ s.ends, l = []) : (∀ l ∈ (s.recv_step k at_).ends, l = []) ↔ s.Current .consumer := by
  have known : Reported s (s.recv_step k at_).ends := recv_step_ends at_here
  generalize (s.recv_step k at_).ends = ends at known
  cases known with
  | nothing calm => exact ⟨fun _ => calm,fun _ => old⟩
  | closed head here closed =>
    have own := safe.consumer
    rw [here] at own
    have idle : s.view.taken = false := by rw [view,taken,here]
    rw [all_nil_concat old]
    refine (safe.queue.drained_iff small idle).trans ?_
    rw [Current,here]
    constructor
    · rintro same _ ⟨⟩ _
      exact same.trans (Eq.symm own)
    · intro current
      exact (current head rfl closed).trans own
lemma Safe.ends_step (small : k < 32) (safe : s.Safe k) (taken : s.step k e = some t) (old : ∀ l ∈ s.ends, l = []) :
    (∀ l ∈ t.ends, l = []) ↔ s.Current e := by
  have same : e ≠ .consumer → s.Current e → ((∀ l ∈ t.ends, l = []) ↔ s.Current e) := by
    intro other calm
    rw [step_ends other taken]
    exact ⟨fun _ => calm,fun _ => old⟩
  cases e with
  | consumer =>
    cases here : s.consumer with
    | idle => rw [World.step,here] at taken; cases taken
    | receiving at_ =>
      rw [World.step,here] at taken
      cases taken
      exact safe.consumer_ends small here old
  | _ => exact same (by simp) trivial
end World
end SharedRing

/-! ## The three rings -/
/-- In a run of a ring whose receive operations are current, the end of the stream is reported only when
    everything sent has been received, and for several consumers claimed; from any state of such a run
    a step keeps this exactly if it is current too. The sequence numbers of the ring of several consumers
    need two slots, and a consumer that claims in time. -/
theorem end_of_stream {α : Type} [Channel.Retag α] (k : Nat) : (k < 64 → ∀ es (s : Channel.World α),
      Meets (Channel.World.step k) Channel.World.Current .new es → run (Channel.World.step k) .new es = some s →
      (∀ l ∈ s.ends, l = []) ∧ ∀ e t, s.step k e = some t → ((∀ l ∈ t.ends, l = []) ↔ s.Current e)) ∧
    (k < 32 → ∀ es (s : SharedRing.World α),
      Meets (SharedRing.World.step k) SharedRing.World.Current .new es → run (SharedRing.World.step k) .new es = some s →
      (∀ l ∈ s.ends, l = []) ∧ ∀ e t, s.step k e = some t → ((∀ l ∈ t.ends, l = []) ↔ s.Current e)) ∧
    (0 < k → k < 64 → ∀ es (s : SpmcRing.World α), Meets (SpmcRing.World.step k) (fun s e => s.InTime e ∧ s.Current k e) .new es →
      run (SpmcRing.World.step k) .new es = some s →
      (∀ l ∈ s.ends, l = []) ∧ ∀ e t, s.step k e = some t → ((∀ l ∈ t.ends, l = []) ↔ s.Current k e)) := by
  refine ⟨?_,?_,?_⟩
  · intro small es s meets reached
    exact Runs.exact_of_meets (fun _ _ _ safe _ taken => safe.step small taken)
      (fun _ _ _ safe old taken => safe.ends_step small taken old) (fun _ _ met => met) ⟨Channel.World.safe_new,nofun⟩ meets reached
  · intro small es s meets reached
    exact Runs.exact_of_meets (fun _ _ _ safe _ taken => safe.step small taken)
      (fun _ _ _ safe old taken => safe.ends_step small taken old) (fun _ _ met => met) ⟨SharedRing.World.safe_new,nofun⟩ meets reached
  · intro two small es s meets reached
    exact Runs.exact_of_meets (I := fun s => s.Safe k ∧ s.Closing)
      (fun _ _ _ inv met taken => ⟨inv.1.step small two met.1 taken,inv.2.step taken⟩)
      (fun _ _ _ inv old taken => inv.1.ends_step small inv.2 taken old) (fun _ _ met => met.2)
      ⟨⟨SpmcRing.World.safe_new small,SpmcRing.World.closing_new⟩,nofun⟩ meets reached
/-- One message is sent and received, the sender goes, and a receive operation reports the end. -/
def channel_ends : List (Channel.Event Nat) :=
  [.try_send 5] ++ replicate 6 .producer ++ [.drop_producer] ++ replicate 2 .producer ++
    [.try_recv] ++ replicate 5 .consumer ++ [.try_recv] ++ replicate 3 .consumer
def shared_ends : List (SharedRing.Event Nat) :=
  [.try_send 5] ++ replicate 5 .producer ++ [.close_producer,.try_recv] ++ replicate 4 .consumer ++
    [.try_recv] ++ replicate 3 .consumer
def spmc_ends : List (SpmcRing.Event Nat) :=
  [.try_send 5] ++ replicate 6 .producer ++ [.drop_producer,.try_recv 0] ++ replicate 5 (.consumer 0 false) ++
    [.try_recv 0] ++ replicate 4 (.consumer 0 false)
theorem end_of_stream_reported : (∃ s, run (Channel.World.step 0) .new channel_ends = some s ∧ s.ends.length = 1 ∧ ∀ l ∈ s.ends, l = []) ∧
    (∃ s, run (SharedRing.World.step 0) .new shared_ends = some s ∧ s.ends.length = 1 ∧ ∀ l ∈ s.ends, l = []) ∧
    (∃ s, run (SpmcRing.World.step 1) .new spmc_ends = some s ∧ s.ends.length = 1 ∧ ∀ l ∈ s.ends, l = []) := by
  have channel : (run (Channel.World.step 0) .new channel_ends).map (fun s => s.ends.length) = some 1 := by decide +kernel
  have shared : (run (SharedRing.World.step 0) .new shared_ends).map (fun s => s.ends.length) = some 1 := by decide +kernel
  have spmc : (run (SpmcRing.World.step 1) .new spmc_ends).map (fun s => s.ends.length) = some 1 := by decide +kernel
  obtain ⟨c,channel_reached,channel_one⟩ := map_eq_some_iff.mp channel
  obtain ⟨h,shared_reached,shared_one⟩ := map_eq_some_iff.mp shared
  obtain ⟨m,spmc_reached,spmc_one⟩ := map_eq_some_iff.mp spmc
  refine ⟨⟨c,channel_reached,channel_one,?_⟩,⟨h,shared_reached,shared_one,?_⟩,⟨m,spmc_reached,spmc_one,?_⟩⟩
  · exact ((end_of_stream 0).1 (by decide) _ c (by decide +kernel) channel_reached).1
  · exact ((end_of_stream 0).2.1 (by decide) _ h (by decide +kernel) shared_reached).1
  · exact ((end_of_stream 1).2.2 (by decide) (by decide) _ m (by decide +kernel) spmc_reached).1
/-- The receive operation has found the ring empty; a message is sent and the sender goes. -/
def channel_ends_early : List (Channel.Event Nat) :=
  [.try_recv,.consumer,.consumer,.try_send 5] ++ replicate 6 .producer ++ [.drop_producer,.producer,.consumer]
def shared_ends_early : List (SharedRing.Event Nat) :=
  [.try_recv,.consumer,.consumer,.try_send 5] ++ replicate 5 .producer ++ [.close_producer,.consumer]
/-- Consumer 0 has found its slot unpublished; two messages are sent, the sender goes, and consumer 1
    claims the first. -/
def spmc_ends_early : List (SpmcRing.Event Nat) :=
  [.clone 0 1,.try_recv 0,.consumer 0 false,.consumer 0 false,.try_send 5] ++ replicate 6 .producer ++
    [.try_send 6] ++ replicate 6 .producer ++ [.drop_producer,.try_recv 1] ++ replicate 5 (.consumer 1 false) ++
    replicate 2 (.consumer 0 false)
theorem end_of_stream_early : (∃ s, run (Channel.World.step 0) .new channel_ends_early = some s ∧ s.ends = [[5]]) ∧
    (∃ s, run (SharedRing.World.step 0) .new shared_ends_early = some s ∧ s.ends = [[5]]) ∧
    (∃ s, run (SpmcRing.World.step 1) .new spmc_ends_early = some s ∧ s.ends = [[6]]) := by
  have channel : (run (Channel.World.step 0) .new channel_ends_early).map (fun s => s.ends) = some [[5]] := by decide +kernel
  have shared : (run (SharedRing.World.step 0) .new shared_ends_early).map (fun s => s.ends) = some [[5]] := by decide +kernel
  have spmc : (run (SpmcRing.World.step 1) .new spmc_ends_early).map (fun s => s.ends) = some [[6]] := by decide +kernel
  exact ⟨map_eq_some_iff.mp channel,map_eq_some_iff.mp shared,map_eq_some_iff.mp spmc⟩
end Narf.Ipc
