import Narf.Lib.Runs

namespace Narf.Sync
open Lib

/-! The async mutex: its spinlock-protected state, the futures that wait for it, and the wakes that
    are popped under the spinlock and delivered after it. Each step below is one critical section. -/

/-- All mutexes draw their ids from one 64-bit counter, which is taken never to wrap. -/
abbrev WaiterId := Nat
abbrev Waker := Nat
structure MutexInner where
  locked : Bool
  waiters : List (WaiterId × Waker)

namespace MutexInner
def new : MutexInner := ⟨false,[]⟩
variable (inner : MutexInner)
def try_lock : Option MutexInner :=
  if inner.locked then none else some {inner with locked := true}
def try_lock_unqueued : Option MutexInner :=
  if inner.locked || !inner.waiters.isEmpty then none else some {inner with locked := true}
def retain_others (id : WaiterId) : List (WaiterId × Waker) :=
  inner.waiters.filter (fun e => e.1 ≠ id)
def pop_front : MutexInner × Option Waker :=
  match inner.waiters with
  | [] => (inner,none)
  | (_,w) :: rest => ({inner with waiters := rest},some w)
def refresh (id : WaiterId) (cx : Waker) : List (WaiterId × Waker) → List (WaiterId × Waker)
  | [] => []
  | (wid,w) :: rest => if wid = id then (wid,if w = cx then w else cx) :: rest else (wid,w) :: refresh id cx rest
/-- `MutexGuard::drop` up to the wake. -/
def drop_guard : MutexInner × Option Waker := pop_front {inner with locked := false}
end MutexInner

inductive Poll where
  | ready
  | pending
  deriving DecidableEq
structure LockFuture where
  waiter_id : Option WaiterId

namespace LockFuture
/-- `LockFuture::poll`; the last part is the next id to give out. -/
def poll (this : LockFuture) (inner : MutexInner) (next_waiter_id : WaiterId) (cx : Waker) : Poll × LockFuture × MutexInner × WaiterId :=
  if !inner.locked then
    match this.waiter_id with
    | some id => (.ready,⟨none⟩,⟨true,inner.retain_others id⟩,next_waiter_id)
    | none => (.ready,⟨none⟩,⟨true,inner.waiters⟩,next_waiter_id)
  else
    match this.waiter_id with
    | none =>
      (.pending,⟨some next_waiter_id⟩,{inner with waiters := inner.waiters ++ [(next_waiter_id,cx)]},next_waiter_id + 1)
    | some id =>
      if inner.waiters.any (fun e => e.1 = id) then
        (.pending,this,{inner with waiters := MutexInner.refresh id cx inner.waiters},next_waiter_id)
      else
        -- a release popped the entry, but another caller took the lock first
        (.pending,this,{inner with waiters := inner.waiters ++ [(id,cx)]},next_waiter_id)
/-- `LockFuture::drop` up to the wake. -/
def drop (this : LockFuture) (inner : MutexInner) : MutexInner × Option Waker :=
  match this.waiter_id with
  | none => (inner,none)
  | some id =>
    let rest := inner.retain_others id
    if rest.length ≠ inner.waiters.length then ({inner with waiters := rest},none)
    else if !inner.locked then MutexInner.pop_front {inner with waiters := rest}
    else ({inner with waiters := rest},none)
end LockFuture
/-- A live future, with the result and the waker of its last poll and whether that waker has been
    woken since. -/
structure Live where
  future : LockFuture
  last : Option Poll
  waker : Waker
  woken : Bool
def Live.Pending (l : Live) : Prop := l.last = some .pending
/-- The mutex among its users: the live futures, the number of live guards, and the wakers that were
    popped and not yet woken. -/
structure World where
  inner : MutexInner
  next_waiter_id : WaiterId
  futures : Nat → Option Live
  guards : Nat
  wakes : List Waker
inductive Event where
  | lock (f : Nat)
  | poll (f : Nat) (cx : Waker)
  | drop_future (f : Nat)
  | try_lock
  | try_lock_unqueued
  | drop_guard
  | wake (w : Waker)

namespace World
def new : World where
  inner := .new
  next_waiter_id := 1
  futures _ := none
  guards := 0
  wakes := []
def notice (w : Waker) (l : Live) : Live := if l.waker = w then {l with woken := true} else l
/-- One critical section, or the delivery of one popped wake. -/
def step (s : World) : Event → Option World
  | .lock f =>
    match s.futures f with
    | some _ => none
    | none => some {s with futures := Function.update s.futures f (some ⟨⟨none⟩,none,0,false⟩)}
  | .poll f cx =>
    match s.futures f with
    | none => none
    | some l =>
      let (result,future,inner,next) := l.future.poll s.inner s.next_waiter_id cx
      some {s with
        inner := inner
        next_waiter_id := next
        futures := Function.update s.futures f (some ⟨future,some result,cx,false⟩)
        guards := if result = .ready then s.guards + 1 else s.guards}
  | .drop_future f =>
    match s.futures f with
    | none => none
    | some l =>
      let (inner,popped) := l.future.drop s.inner
      some {s with
        inner := inner
        futures := Function.update s.futures f none
        wakes := s.wakes ++ popped.toList}
  | .try_lock => some (match s.inner.try_lock with
    | some inner => {s with inner := inner,guards := s.guards + 1}
    | none => s)
  | .try_lock_unqueued => some (match s.inner.try_lock_unqueued with
    | some inner => {s with inner := inner,guards := s.guards + 1}
    | none => s)
  | .drop_guard =>
    if s.guards = 0 then none
    else
      let (inner,popped) := s.inner.drop_guard
      some {s with inner := inner,guards := s.guards - 1,wakes := s.wakes ++ popped.toList}
  | .wake w =>
    if w ∈ s.wakes then
      some {s with wakes := s.wakes.erase w,futures := fun f => (s.futures f).map (notice w)}
    else none
end World
end Narf.Sync
