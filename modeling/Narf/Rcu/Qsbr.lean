import Narf.Lib.Runs

namespace Narf.Rcu
open Function

/-! Quiescent-state reclamation, `rcu/src/qsbr.rs`, on `n` CPUs. Every access to a shared word is a step
    of its own. What runs on a CPU is a stack: an interrupt, or a destructor that is called, runs on top
    of what it came upon, and only the top goes on. Plain accesses to nodes that a drain has detached,
    and to a CPU's bucket with interrupts masked, are taken together. -/

/-- `u64::MAX` in `last_quiescent`: the CPU is not active. -/
def INACTIVE : Nat := 2 ^ 64 - 1
/-- The address of a `DeferHdr`; an address is given out again once its node is destroyed. -/
abbrev Node := Nat
/-- Where an allocation is in its life. A record, no step of the code reads it. -/
inductive Status (n : Nat) where
  | free
  /-- A reader that loads the protected pointer may get it. -/
  | linked
  | unlinked
  /-- `defer_node` has been called. -/
  | retiring
  /-- It went to the bucket of CPU `home`. -/
  | retired (home : Fin n)
  deriving DecidableEq
inductive Frame (n : Nat) where
  /-- A task, an interrupt handler or a destructor, with what it has loaded under each open guard. -/
  | code (sections : List (List Node))
  | defer_epoch (node : Node)
  | defer_splice (node : Node) (epoch : Nat)
  | quiescent_readers
  | quiescent_epoch
  | quiescent_prev (now : Nat)
  | quiescent_store (now : Nat)
  | idle_readers
  | idle_store
  | advance_len
  | advance_epoch
  | advance_check (now : Nat)
  | advance_exchange (now : Nat)
  | sync_readers
  | sync_publish
  | sync_report (target : Nat)
  | sync_past (target i : Nat)
  /-- `run_offloaded_reclaim`, before queue `i`. -/
  | reclaim (i : Nat)
  | drain_scan (inline : Bool) (i min : Nat)
  | drain_detach (inline : Bool) (min : Nat)
  | drain_walk (inline : Bool) (min : Nat) (list ready keep : Option Node) (keep_len : Nat)
  | drain_graft (inline : Bool) (ready : Option Node) (keep tail : Node) (keep_len : Nat)
  | offload (ready : Option Node)
  | offload_worker (ready : Node)
  | push_walk (w : Fin n) (ready tail : Node)
  | push_load (w : Fin n) (ready tail : Node)
  | push_link (w : Fin n) (ready tail : Node) (head : Option Node)
  | push_exchange (w : Fin n) (ready tail : Node) (head : Option Node)
  | push_kick (w : Fin n)
  | wake (w : Fin n)
  | take_clear (w : Fin n)
  | take_swap (w : Fin n)
  /-- `run_droppers`. -/
  | run (list : Option Node)
  deriving DecidableEq
inductive Op (n : Nat) where
  | defer_node (node : Node)
  | report_quiescent
  | report_idle
  | advance_epoch_if_pending
  | sync_until
  | run_offloaded_reclaim_for (w : Fin n)
  | run_offloaded_reclaim
structure DeferBucket where
  head : Option Node
  len : Nat
structure OffloadQueue where
  head : Option Node
  kicked : Bool
/-- The last four fields are records. -/
structure World (n : Nat) where
  epoch : Nat
  active_readers : Fin n → Nat
  last_quiescent : Fin n → Nat
  buckets : Fin n → DeferBucket
  queues : Fin n → OffloadQueue
  /-- A wake hook is installed. -/
  hook : Bool
  workers : Nat
  /-- The fields of each node's header. -/
  next : Node → Option Node
  stamp : Node → Nat
  stack : Fin n → List (Frame n)
  status : Node → Status n
  /-- How often the address was put on a bucket, and how often a destructor ran on it. -/
  retired : Node → Nat
  destroyed : Node → Nat
  /-- A wake of the worker was requested since a take of its queue last began. -/
  woken : Fin n → Bool

inductive Event (n : Nat) where
  | interrupt (c : Fin n)
  /-- The handler or destructor on top returns. -/
  | finish (c : Fin n)
  | pin (c : Fin n)
  | unpin (c : Fin n) (i : Nat)
  /-- A load under guard `i` that gives `node`. -/
  | load (c : Fin n) (i : Nat) (node : Node)
  | link (node : Node)
  | unlink (node : Node)
  | call (c : Fin n) (op : Op n)
  /-- The next access; the choice is whether a weak exchange fails, and whether the deadline has passed. -/
  | step (c : Fin n) (choice : Bool)
  | set_reclaim_offload (workers : Nat)
  | clear_reclaim_offload

def Op.enter {n : Nat} : Op n → Frame n
  | .defer_node node => .defer_epoch node
  | .report_quiescent => .quiescent_readers
  | .report_idle => .idle_readers
  | .advance_epoch_if_pending => .advance_len
  | .sync_until => .sync_readers
  | .run_offloaded_reclaim_for w => .take_clear w
  | .run_offloaded_reclaim => .reclaim 0
/-- The last phase of `drain_local_bucket`. -/
def Frame.finish {n : Nat} (inline : Bool) (ready : Option Node) : Frame n := if inline then .run ready else .offload ready
/-- Interrupts are masked in the middle of it. -/
def Frame.masked {n : Nat} : Frame n → Bool
  | .drain_graft .. => true
  | _ => false

namespace World
variable {n : Nat}
def new : World n :=
  ⟨1,fun _ => 0,fun _ => INACTIVE,fun _ => ⟨none,0⟩,fun _ => ⟨none,false⟩,false,1,fun _ => none,fun _ => 0,fun _ => [.code []],
    fun _ => .free,fun _ => 0,fun _ => 0,fun _ => false⟩
def set_stack (s : World n) (c : Fin n) (stack : List (Frame n)) : World n := { s with stack := update s.stack c stack }
/-- The queue that CPU `c` hands its nodes to. -/
def worker_of (s : World n) (c : Fin n) : Fin n := ⟨c % s.workers,Nat.lt_of_le_of_lt (Nat.mod_le _ _) c.isLt⟩
/-- One access of the frame on top of CPU `c`, and the frames in its place. -/
def act (s : World n) (c : Fin n) (choice : Bool) : Frame n → World n × List (Frame n)
  | .code sections => (s,[.code sections])
  | .defer_epoch node => (s,[.defer_splice node s.epoch])
  | .defer_splice node epoch =>
    ({ s with
        stamp := update s.stamp node epoch,
        next := update s.next node (s.buckets c).head,
        buckets := update s.buckets c ⟨some node,(s.buckets c).len + 1⟩,
        status := update s.status node (.retired c),
        retired := update s.retired node (s.retired node + 1) },[])
  | .quiescent_readers => (s,if s.active_readers c ≠ 0 then [] else [.quiescent_epoch])
  | .quiescent_epoch => (s,[.quiescent_prev s.epoch])
  | .quiescent_prev now =>
    (s,if s.last_quiescent c = INACTIVE ∨ s.last_quiescent c < now then [.quiescent_store now] else [.drain_scan false 0 INACTIVE])
  | .quiescent_store now =>
    ({ s with last_quiescent := update s.last_quiescent c now },[.drain_scan false 0 INACTIVE])
  | .idle_readers => (s,if s.active_readers c ≠ 0 then [] else [.drain_scan false 0 INACTIVE,.idle_store])
  | .idle_store => ({ s with last_quiescent := update s.last_quiescent c INACTIVE },[])
  | .advance_len => (s,if (s.buckets c).len = 0 then [] else [.advance_epoch])
  | .advance_epoch => (s,[.advance_check s.epoch])
  | .advance_check now => (s,if now ≤ s.last_quiescent c then [.advance_exchange now] else [])
  | .advance_exchange now => (if s.epoch = now then { s with epoch := (now + 1) % 2 ^ 64 } else s,[])
  | .sync_readers => (s,if s.active_readers c ≠ 0 then [] else [.sync_publish])
  | .sync_publish => ({ s with epoch := (s.epoch + 1) % 2 ^ 64 },[.sync_report ((s.epoch + 1) % 2 ^ 64)])
  | .sync_report target => (s,[.quiescent_readers,.sync_past target 0])
  | .sync_past target i =>
    if h : i < n then
      if s.last_quiescent ⟨i,h⟩ < target then (s,if choice then [] else [.sync_report target])
      else (s,[.sync_past target (i + 1)])
    else (s,[.drain_scan true 0 INACTIVE,.reclaim 0])
  | .reclaim i => (s,if h : i < n then [.take_clear ⟨i,h⟩,.reclaim (i + 1)] else [])
  -- `min_last_quiescent`
  | .drain_scan inline i min =>
    if h : i < n then
      (s,[.drain_scan inline (i + 1) (if s.last_quiescent ⟨i,h⟩ < min then s.last_quiescent ⟨i,h⟩ else min)])
    else (s,[.drain_detach inline min])
  | .drain_detach inline min =>
    ({ s with buckets := update s.buckets c ⟨none,0⟩ },[.drain_walk inline min (s.buckets c).head none none 0])
  | .drain_walk inline min (some a) ready keep keep_len =>
    if s.stamp a < min then
      ({ s with next := update s.next a ready },[.drain_walk inline min (s.next a) (some a) keep keep_len])
    else ({ s with next := update s.next a keep },[.drain_walk inline min (s.next a) ready (some a) (keep_len + 1)])
  | .drain_walk inline _ none ready (some keep) keep_len => (s,[.drain_graft inline ready keep keep keep_len])
  | .drain_walk inline _ none ready none _ => (s,[.finish inline ready])
  | .drain_graft inline ready keep tail keep_len =>
    match s.next tail with
    | some t => (s,[.drain_graft inline ready keep t keep_len])
    | none =>
      ({ s with
          next := update s.next tail (s.buckets c).head,
          buckets := update s.buckets c ⟨some keep,(s.buckets c).len + keep_len⟩ },[.finish inline ready])
  | .offload none => (s,[])
  | .offload (some ready) => (s,if s.hook then [.offload_worker ready] else [.run (some ready)])
  | .offload_worker ready => (s,[.push_walk (s.worker_of c) ready ready])
  | .push_walk w ready tail =>
    match s.next tail with
    | some t => (s,[.push_walk w ready t])
    | none => (s,[.push_load w ready tail])
  | .push_load w ready tail => (s,[.push_link w ready tail (s.queues w).head])
  | .push_link w ready tail head => ({ s with next := update s.next tail head },[.push_exchange w ready tail head])
  | .push_exchange w ready tail head =>
    if (s.queues w).head = head ∧ choice = false then
      ({ s with queues := update s.queues w ⟨some ready,(s.queues w).kicked⟩ },[.push_kick w])
    else (s,[.push_link w ready tail (s.queues w).head])
  | .push_kick w =>
    ({ s with queues := update s.queues w ⟨(s.queues w).head,true⟩ },if (s.queues w).kicked then [] else [.wake w])
  | .wake w => ({ s with woken := update s.woken w true },[])
  | .take_clear w =>
    ({ s with
        queues := update s.queues w ⟨(s.queues w).head,false⟩,
        woken := update s.woken w false },[.take_swap w])
  | .take_swap w => ({ s with queues := update s.queues w ⟨none,(s.queues w).kicked⟩ },[.run (s.queues w).head])
  | .run none => (s,[])
  -- the successor is read before the destructor runs
  | .run (some a) =>
    ({ s with
        status := update s.status a .free,
        destroyed := update s.destroyed a (s.destroyed a + 1) },[.code [],.run (s.next a)])
/-- `defer_node` is called on a node that was unlinked and is on no list; each call is made by the code on
    top. -/
def call (s : World n) (c : Fin n) (op : Op n) : Option (World n) :=
  match s.stack c with
  | .code sections :: rest =>
    match op with
    | .defer_node node =>
      if s.status node = .unlinked then
        some (set_stack { s with status := update s.status node .retiring } c (op.enter :: .code sections :: rest))
      else none
    | _ => some (s.set_stack c (op.enter :: .code sections :: rest))
  | _ => none
def step (s : World n) : Event n → Option (World n)
  | .interrupt c =>
    match s.stack c with
    | f :: rest => if f.masked then none else some (s.set_stack c (.code [] :: f :: rest))
    | [] => none
  | .finish c =>
    match s.stack c with
    | .code [] :: f :: rest => some (s.set_stack c (f :: rest))
    | _ => none
  | .pin c =>
    match s.stack c with
    | .code sections :: rest =>
      some (set_stack { s with active_readers := update s.active_readers c (s.active_readers c + 1) } c
        (.code ([] :: sections) :: rest))
    | _ => none
  | .unpin c i =>
    match s.stack c with
    | .code sections :: rest =>
      if i < sections.length then
        some (set_stack { s with active_readers := update s.active_readers c (s.active_readers c - 1) } c
          (.code (sections.eraseIdx i) :: rest))
      else none
    | _ => none
  | .load c i node =>
    match s.stack c with
    | .code sections :: rest =>
      if i < sections.length ∧ s.status node = .linked then
        some (s.set_stack c (.code (sections.modify i (node :: ·)) :: rest))
      else none
    | _ => none
  | .link node =>
    if s.status node = .free then some { s with status := update s.status node .linked } else none
  | .unlink node =>
    if s.status node = .linked then some { s with status := update s.status node .unlinked } else none
  | .call c op => s.call c op
  | .step c choice =>
    match s.stack c with
    | f :: rest => some ((s.act c choice f).1.set_stack c ((s.act c choice f).2 ++ rest))
    | [] => none
  | .set_reclaim_offload workers => if 0 < workers ∧ workers ≤ n then some { s with workers,hook := true } else none
  | .clear_reclaim_offload => some { s with hook := false }
/-- What each event needs and does. -/
inductive Taken (s : World n) : Event n → World n → Prop
  | interrupt {c : Fin n} {f : Frame n} {rest : List (Frame n)} (stack : s.stack c = f :: rest) (unmasked : f.masked = false) :
      Taken s (.interrupt c) (s.set_stack c (.code [] :: f :: rest))
  | finish {c : Fin n} {f : Frame n} {rest : List (Frame n)} (stack : s.stack c = .code [] :: f :: rest) :
      Taken s (.finish c) (s.set_stack c (f :: rest))
  | pin {c : Fin n} {sections : List (List Node)} {rest : List (Frame n)} (stack : s.stack c = .code sections :: rest) :
      Taken s (.pin c) (set_stack { s with active_readers := update s.active_readers c (s.active_readers c + 1) } c
        (.code ([] :: sections) :: rest))
  | unpin {c : Fin n} {i : Nat} {sections : List (List Node)} {rest : List (Frame n)} (stack : s.stack c = .code sections :: rest)
      (inside : i < sections.length) :
      Taken s (.unpin c i) (set_stack { s with active_readers := update s.active_readers c (s.active_readers c - 1) } c
        (.code (sections.eraseIdx i) :: rest))
  | load {c : Fin n} {i : Nat} {a : Node} {sections : List (List Node)} {rest : List (Frame n)}
      (stack : s.stack c = .code sections :: rest) (linked : s.status a = .linked) :
      Taken s (.load c i a) (s.set_stack c (.code (sections.modify i (a :: ·)) :: rest))
  | link {a : Node} (free : s.status a = .free) : Taken s (.link a) { s with status := update s.status a .linked }
  | unlink {a : Node} (linked : s.status a = .linked) : Taken s (.unlink a) { s with status := update s.status a .unlinked }
  | defer {c : Fin n} {a : Node} {sections : List (List Node)} {rest : List (Frame n)}
      (stack : s.stack c = .code sections :: rest) (unlinked : s.status a = .unlinked) :
      Taken s (.call c (.defer_node a)) (set_stack { s with status := update s.status a .retiring } c
        (.defer_epoch a :: .code sections :: rest))
  | call {c : Fin n} {op : Op n} {sections : List (List Node)} {rest : List (Frame n)}
      (stack : s.stack c = .code sections :: rest) (other : ∀ a, op ≠ .defer_node a) :
      Taken s (.call c op) (s.set_stack c (op.enter :: .code sections :: rest))
  | step {c : Fin n} {choice : Bool} {f : Frame n} {rest : List (Frame n)} (stack : s.stack c = f :: rest) :
      Taken s (.step c choice) ((s.act c choice f).1.set_stack c ((s.act c choice f).2 ++ rest))
  | set_reclaim_offload {workers : Nat} : Taken s (.set_reclaim_offload workers) { s with workers,hook := true }
  | clear_reclaim_offload : Taken s .clear_reclaim_offload { s with hook := false }

lemma taken_of_call {s t : World n} {c : Fin n} {op : Op n} (called : s.call c op = some t) : Taken s (.call c op) t := by
  rw [call] at called
  split at called
  · rename_i sections rest stack
    split at called
    · split at called
      · rename_i unlinked
        cases called
        exact .defer stack unlinked
      · cases called
    · rename_i other
      cases called
      exact .call stack other
  · cases called
lemma taken_of_step {s t : World n} {e : Event n} (taken : s.step e = some t) : Taken s e t := by
  cases e with
  | call c op => exact taken_of_call taken
  | interrupt c =>
    rw [step] at taken
    split at taken
    · rename_i f rest stack
      by_cases masked : f.masked
      · rw [if_pos masked] at taken; cases taken
      · rw [if_neg masked] at taken; cases taken
        exact .interrupt stack (Bool.eq_false_iff.mpr masked)
    · cases taken
  | finish c => rw [step] at taken; split at taken <;> cases taken; exact .finish (by assumption)
  | pin c => rw [step] at taken; split at taken <;> cases taken; exact .pin (by assumption)
  | unpin c i =>
    rw [step] at taken
    split at taken
    · split at taken <;> cases taken
      exact .unpin (by assumption) (by assumption)
    · cases taken
  | load c i a =>
    rw [step] at taken
    split at taken
    · split at taken
      · rename_i stack can
        cases taken
        exact .load stack can.2
      · cases taken
    · cases taken
  | link a => rw [step] at taken; split at taken <;> cases taken; exact .link (by assumption)
  | unlink a => rw [step] at taken; split at taken <;> cases taken; exact .unlink (by assumption)
  | step c choice => rw [step] at taken; split at taken <;> cases taken; exact .step (by assumption)
  | set_reclaim_offload workers => rw [step] at taken; split at taken <;> cases taken; exact .set_reclaim_offload
  | clear_reclaim_offload => cases taken; exact .clear_reclaim_offload
end World
end Narf.Rcu
