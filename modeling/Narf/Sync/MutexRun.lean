import Narf.Sync.Mutex

namespace Narf.Sync
open Lib List Option Function
open World (notice)

/-! No run of the mutex has two guards, and none leaves the lock free with every pending future asleep.
    A future that waits is in the queue, or a release took it out since its last poll; a free lock
    with a queue always has a waiter of the second kind. -/

def ids (waiters : List (WaiterId × Waker)) : List WaiterId := waiters.map Prod.fst
def Holds (futures : Nat → Option Live) (f : Nat) (l : Live) (id : WaiterId) : Prop :=
  futures f = some l ∧ l.future.waiter_id = some id
/-- The waiters' queue against the live futures. -/
structure Queued (waiters : List (WaiterId × Waker)) (next : WaiterId) (futures : Nat → Option Live)
    (wakes : List Waker) : Prop where
  pending : ∀ f l, futures f = some l → (l.Pending ↔ ∃ id, l.future.waiter_id = some id)
  fresh : ∀ f l id, Holds futures f l id → id < next
  owner : ∀ f g l m id, Holds futures f l id → Holds futures g m id → f = g
  queued : ∀ e ∈ waiters, ∃ f l, Holds futures f l e.1 ∧ l.waker = e.2
  distinct : (ids waiters).Nodup
  popped : ∀ f l id, Holds futures f l id → id ∉ ids waiters → l.woken = true ∨ l.waker ∈ wakes
/-- A waiter that a release took out of the queue. -/
def Chosen (waiters : List (WaiterId × Waker)) (futures : Nat → Option Live) : Prop :=
  ∃ f l id, Holds futures f l id ∧ id ∉ ids waiters
structure World.Safe (s : World) : Prop where
  queue : Queued s.inner.waiters s.next_waiter_id s.futures s.wakes
  guards : s.guards = if s.inner.locked then 1 else 0
  progress : s.inner.locked = false → s.inner.waiters ≠ [] → Chosen s.inner.waiters s.futures

variable {waiters rest : List (WaiterId × Waker)} {next id : WaiterId} {futures : Nat → Option Live}
  {wakes : List Waker} {f g : Nat} {l m : Live} {w cx : Waker}

lemma mem_ids : id ∈ ids waiters ↔ waiters.any (fun e => e.1 = id) := by simp [ids]
lemma ids_filter (waiters : List (WaiterId × Waker)) (id : WaiterId) : ids (waiters.filter (·.1 ≠ id)) = (ids waiters).filter (· ≠ id) := by
  rw [ids,ids,List.filter_map]
  rfl
lemma mem_ids_filter {other : WaiterId} : other ∈ ids (waiters.filter (·.1 ≠ id)) ↔ other ∈ ids waiters ∧ other ≠ id := by
  rw [ids_filter,mem_filter]
  simp
lemma filter_of_absent (absent : id ∉ ids waiters) : waiters.filter (·.1 ≠ id) = waiters := by
  refine filter_eq_self.mpr fun e mem => ?_
  have differs : e.1 ≠ id := fun same => absent (same ▸ mem_map_of_mem mem)
  simpa using differs
lemma ids_refresh : ids (MutexInner.refresh id cx waiters) = ids waiters := by
  induction waiters with
  | nil => rfl
  | cons e rest ih =>
    obtain ⟨wid,w⟩ := e
    by_cases same : wid = id
    · simp [MutexInner.refresh,ids,same]
    · simp only [MutexInner.refresh,if_neg same]
      simp only [ids,map_cons] at ih ⊢
      rw [ih]
/-- With distinct ids a refresh leaves one entry under the id, and it has the new waker. -/
lemma mem_refresh (distinct : (ids waiters).Nodup) {e : WaiterId × Waker}
    (mem : e ∈ MutexInner.refresh id cx waiters) : (e.1 = id ∧ e.2 = cx) ∨ (e.1 ≠ id ∧ e ∈ waiters) := by
  induction waiters with
  | nil => cases mem
  | cons first rest ih =>
    obtain ⟨wid,w⟩ := first
    have parts := nodup_cons.mp distinct
    by_cases same : wid = id
    · rw [MutexInner.refresh,if_pos same] at mem
      rcases mem_cons.mp mem with rfl | later
      · exact .inl ⟨same,by dsimp only; split <;> simp_all⟩
      · refine .inr ⟨fun here => parts.1 ?_,mem_cons_of_mem _ later⟩
        exact mem_map.mpr ⟨e,later,here.trans same.symm⟩
    · rw [MutexInner.refresh,if_neg same] at mem
      rcases mem_cons.mp mem with rfl | later
      · exact .inr ⟨same,mem_cons_self⟩
      · rcases ih parts.2 later with here | there
        · exact .inl here
        · exact .inr ⟨there.1,mem_cons_of_mem _ there.2⟩

/-! ## What a step does to the futures -/
lemma nobody (bare : (futures f).bind (·.future.waiter_id) = none) (l : Live) (id : WaiterId) : ¬ Holds futures f l id := by
  rintro ⟨there,holds⟩
  rw [there,bind_some,holds] at bare
  cases bare
lemma holds_update_ne {v : Option Live} (other : g ≠ f) : Holds (update futures f v) g m id ↔ Holds futures g m id := by
  rw [Holds,Holds,update_of_ne other]
lemma Queued.pop (safe : Queued ((id,w) :: rest) next futures wakes) : Queued rest next futures (wakes ++ [w]) ∧ Chosen rest futures := by
  have parts := nodup_cons.mp safe.distinct
  obtain ⟨f,l,holds,same⟩ := safe.queued (id,w) mem_cons_self
  refine ⟨⟨safe.pending,safe.fresh,safe.owner,fun e mem => safe.queued e (mem_cons_of_mem _ mem),parts.2,?_⟩,⟨f,l,id,holds,parts.1⟩⟩
  intro g m other held absent
  by_cases first : other = id
  · -- the one that was just taken out
    subst first
    obtain rfl := safe.owner g f m l other held holds
    obtain rfl : m = l := some.inj (held.1.symm.trans holds.1)
    exact .inr (mem_append_right _ (by simp [same]))
  · have outside : other ∉ ids ((id,w) :: rest) := by
      intro inside
      rcases mem_cons.mp inside with here | later
      · exact first here
      · exact absent later
    exact (safe.popped g m other held outside).imp_right (mem_append_left _)
section
variable (safe : Queued waiters next futures wakes)
include safe

/-- An entry that is not the future's own belongs to another one. -/
lemma Queued.owned_elsewhere {e : WaiterId × Waker} (mem : e ∈ waiters)
    (apart : ∀ l, ¬ Holds futures f l e.1) : ∃ g m, g ≠ f ∧ Holds futures g m e.1 ∧ m.waker = e.2 := by
  obtain ⟨g,m,holds,same⟩ := safe.queued e mem
  refine ⟨g,m,?_,holds,same⟩
  rintro rfl
  exact apart m holds
variable {next' : WaiterId} {v : Option Live}
lemma Queued.replace {waiters' : List (WaiterId × Waker)} (pending : ∀ m, v = some m → (m.Pending ↔ ∃ id, m.future.waiter_id = some id))
    (own : ∀ m id, v = some m → m.future.waiter_id = some id →
      id < next' ∧ id ∈ ids waiters' ∧ ∀ g l, g ≠ f → ¬ Holds futures g l id) (later : next ≤ next')
    (queued : ∀ e ∈ waiters', (∃ m, v = some m ∧ m.future.waiter_id = some e.1 ∧ m.waker = e.2) ∨
      ∃ g l, g ≠ f ∧ Holds futures g l e.1 ∧ l.waker = e.2) (distinct : (ids waiters').Nodup)
    (kept : ∀ g l id, g ≠ f → Holds futures g l id → id ∈ ids waiters → id ∈ ids waiters') :
    Queued waiters' next' (update futures f v) wakes := by
  have mine (m : Live) (id : WaiterId) : Holds (update futures f v) f m id ↔ v = some m ∧ m.future.waiter_id = some id := by
    rw [Holds,update_self]
  refine ⟨?_,?_,?_,?_,distinct,?_⟩
  · intro g m found
    by_cases same : g = f
    · subst same; rw [update_self] at found; exact pending m found
    · rw [update_of_ne same] at found; exact safe.pending g m found
  · intro g m id holds
    by_cases same : g = f
    · subst same
      obtain ⟨found,has⟩ := (mine m id).mp holds
      exact (own m id found has).1
    · exact lt_of_lt_of_le (safe.fresh g m id ((holds_update_ne same).mp holds)) later
  · intro g k m n id first second
    by_cases here : g = f
    · by_cases there : k = f
      · rw [here,there]
      · subst here
        obtain ⟨found,has⟩ := (mine m id).mp first
        exact absurd ((holds_update_ne there).mp second) ((own m id found has).2.2 k n there)
    · by_cases there : k = f
      · subst there
        obtain ⟨found,has⟩ := (mine n id).mp second
        exact absurd ((holds_update_ne here).mp first) ((own n id found has).2.2 g m here)
      · exact safe.owner g k m n id ((holds_update_ne here).mp first) ((holds_update_ne there).mp second)
  · intro e mem
    rcases queued e mem with ⟨m,found,has,same⟩ | ⟨g,l,apart,holds,same⟩
    · exact ⟨f,m,(mine m e.1).mpr ⟨found,has⟩,same⟩
    · exact ⟨g,l,(holds_update_ne apart).mpr holds,same⟩
  · intro g m id holds absent
    by_cases same : g = f
    · subst same
      obtain ⟨found,has⟩ := (mine m id).mp holds
      exact absurd (own m id found has).2.1 absent
    · have before := (holds_update_ne same).mp holds
      exact safe.popped g m id before fun inside => absent (kept g m id same before inside)
/-- A future that held an id stops to wait: it is done or dropped, and its entry, if any, goes. -/
lemma Queued.leave (held : Holds futures f l id) (done : ∀ m, v = some m → m.future.waiter_id = none ∧ ¬ m.Pending) :
    Queued (waiters.filter (fun e => e.1 ≠ id)) next (update futures f v) wakes := by
  refine safe.replace ?_ ?_ (le_refl _) ?_ ?_ ?_
  · intro m found
    simp [done m found]
  · intro m other found has
    rw [(done m found).1] at has
    cases has
  · intro e mem
    obtain ⟨inside,different⟩ := mem_filter.mp mem
    refine .inr (safe.owned_elsewhere inside fun m holds => ?_)
    obtain rfl : m = l := some.inj (holds.1.symm.trans held.1)
    have same := some.inj (holds.2.symm.trans held.2)
    simp [same] at different
  · rw [ids_filter]; exact safe.distinct.filter _
  · intro g m other apart holds inside
    refine mem_ids_filter.mpr ⟨inside,?_⟩
    rintro rfl
    exact apart (safe.owner g f m l other holds held)
lemma Queued.unregistered (before : ∀ l id, ¬ Holds futures f l id) (done : ∀ m, v = some m → m.future.waiter_id = none ∧ ¬ m.Pending) :
    Queued waiters next (update futures f v) wakes := by
  refine safe.replace ?_ ?_ (le_refl _) ?_ safe.distinct ?_
  · intro m found
    simp [done m found]
  · intro m id found has
    rw [(done m found).1] at has
    cases has
  · intro e mem
    exact .inr (safe.owned_elsewhere mem fun l => before l e.1)
  · intro g m id _ _ inside
    exact inside
lemma Queued.enroll (later : next ≤ next') (below : id < next') (absent : id ∉ ids waiters) (mine : ∀ g l, g ≠ f → ¬ Holds futures g l id)
    (before : ∀ l other, Holds futures f l other → other = id) :
    Queued (waiters ++ [(id,cx)]) next' (update futures f (some ⟨⟨some id⟩,some .pending,cx,false⟩)) wakes := by
  have names : ids (waiters ++ [(id,cx)]) = ids waiters ++ [id] := by simp [ids]
  refine safe.replace ?_ ?_ later ?_ ?_ ?_
  · intro m found
    cases found
    simp [Live.Pending]
  · intro m other found has
    cases found
    cases has
    refine ⟨below,?_,mine⟩
    simp [names]
  · intro e mem
    rcases mem_append.mp mem with old | new
    · refine .inr (safe.owned_elsewhere old fun l holds => absent ?_)
      exact before l e.1 holds ▸ mem_map_of_mem old
    · obtain rfl := mem_singleton.mp new
      exact .inl ⟨_,rfl,rfl,rfl⟩
  · rw [names]
    refine nodup_append.mpr ⟨safe.distinct,nodup_singleton id,?_⟩
    intro other inside last here
    rw [mem_singleton.mp here]
    rintro rfl
    exact absent inside
  · intro g m other _ _ inside
    rw [names]
    exact mem_append_left _ inside
lemma Queued.refresh (held : Holds futures f l id) (inside : id ∈ ids waiters) :
    Queued (MutexInner.refresh id cx waiters) next (update futures f (some ⟨⟨some id⟩,some .pending,cx,false⟩)) wakes := by
  refine safe.replace ?_ ?_ (le_refl _) ?_ ?_ ?_
  · intro m found
    cases found
    simp [Live.Pending]
  · intro m other found has
    cases found
    cases has
    refine ⟨safe.fresh f l id held,by rw [ids_refresh]; exact inside,fun g m apart holds => ?_⟩
    exact apart (safe.owner g f m l id holds held)
  · intro e mem
    rcases mem_refresh safe.distinct mem with ⟨same,waker⟩ | ⟨different,old⟩
    · exact .inl ⟨_,rfl,by rw [same],waker.symm⟩
    · refine .inr (safe.owned_elsewhere old fun m holds => different ?_)
      obtain rfl : m = l := some.inj (holds.1.symm.trans held.1)
      exact some.inj (holds.2.symm.trans held.2)
  · rw [ids_refresh]; exact safe.distinct
  · intro g m other _ _ here
    rw [ids_refresh]
    exact here
lemma Queued.wake : Queued waiters next (fun f => (futures f).map (notice w)) (wakes.erase w) := by
  have noticed (l : Live) : (notice w l).future = l.future ∧ (notice w l).last = l.last ∧ (notice w l).waker = l.waker := by
    by_cases same : l.waker = w
    · simp [notice,same]
    · simp [notice,same]
  have before (f : Nat) (m : Live) (id : WaiterId) (holds : Holds (fun f => (futures f).map (notice w)) f m id) :
      ∃ l, Holds futures f l id ∧ m = notice w l := by
    obtain ⟨found,has⟩ := holds
    obtain ⟨l,there,rfl⟩ := map_eq_some_iff.mp found
    rw [(noticed l).1] at has
    exact ⟨l,⟨there,has⟩,rfl⟩
  refine ⟨?_,?_,?_,?_,safe.distinct,?_⟩
  · intro f m found
    obtain ⟨l,there,rfl⟩ := map_eq_some_iff.mp found
    rw [Live.Pending,(noticed l).1,(noticed l).2.1]
    exact safe.pending f l there
  · intro f m id holds
    obtain ⟨l,there,_⟩ := before f m id holds
    exact safe.fresh f l id there
  · intro f g m n id first second
    obtain ⟨l,here,_⟩ := before f m id first
    obtain ⟨k,there,_⟩ := before g n id second
    exact safe.owner f g l k id here there
  · intro e mem
    obtain ⟨f,l,holds,same⟩ := safe.queued e mem
    refine ⟨f,notice w l,⟨?_,?_⟩,?_⟩
    · show (futures f).map (notice w) = _
      rw [holds.1,map_some]
    · rw [(noticed l).1]; exact holds.2
    · rw [(noticed l).2.2]; exact same
  · intro f m id holds absent
    obtain ⟨l,there,rfl⟩ := before f m id holds
    by_cases same : l.waker = w
    · exact .inl (by simp [notice,same])
    · rw [(noticed l).2.2]
      rcases safe.popped f l id there absent with woken | coming
      · exact .inl (by simp [notice,same,woken])
      · exact .inr ((mem_erase_of_ne same).mpr coming)
end

/-! ## Whole runs -/
namespace World
variable {s t : World}
lemma safe_new : Safe new where
  queue := by
    have nobody (f : Nat) (l : Live) (id : WaiterId) : ¬ Holds new.futures f l id := fun holds => by cases holds.1
    exact ⟨fun f l found => (by cases found),fun f l id holds => absurd holds (nobody f l id),
      fun f g l m id holds => absurd holds (nobody f l id),fun e mem => (by cases mem),nodup_nil,
      fun f l id holds => absurd holds (nobody f l id)⟩
  guards := rfl
  progress _ some := absurd rfl some
section
variable (safe : s.Safe)
include safe
lemma Safe.unregistered {v : Option Live} (bare : (s.futures f).bind (·.future.waiter_id) = none)
    (done : ∀ m, v = some m → m.future.waiter_id = none ∧ ¬ m.Pending) : Safe {s with futures := update s.futures f v} := by
  refine ⟨safe.queue.unregistered (nobody bare) done,safe.guards,fun free some => ?_⟩
  obtain ⟨g,m,id,holds,absent⟩ := safe.progress free some
  have apart : g ≠ f := by rintro rfl; exact nobody bare m id holds
  exact ⟨g,m,id,(holds_update_ne apart).mpr holds,absent⟩
lemma Safe.poll (found : s.futures f = some l) (taken : s.step (.poll f cx) = some t) : t.Safe := by
  simp only [step,found] at taken
  by_cases free : s.inner.locked = false
  · -- the future takes the lock
    have none_guards : s.guards = 0 := by simpa [free] using safe.guards
    cases has : l.future.waiter_id with
    | none =>
      simp only [LockFuture.poll,free,has,Bool.not_false,if_true,some.injEq] at taken
      subst taken
      refine ⟨safe.queue.unregistered (nobody (by rw [found]; exact has)) ?_,by simp [none_guards],fun locked => by cases locked⟩
      rintro m ⟨⟩
      simp [Live.Pending]
    | some id =>
      simp only [LockFuture.poll,free,has,Bool.not_false,if_true,some.injEq] at taken
      subst taken
      refine ⟨safe.queue.leave ⟨found,has⟩ ?_,by simp [none_guards],fun locked => by cases locked⟩
      rintro m ⟨⟩
      simp [Live.Pending]
  · have held : s.inner.locked := by simpa using free
    have one : s.guards = 1 := by simpa [held] using safe.guards
    cases has : l.future.waiter_id with
    | none =>
      simp only [LockFuture.poll,held,has,Bool.not_true,Bool.false_eq_true,if_false,some.injEq,reduceCtorEq] at taken
      subst taken
      refine ⟨safe.queue.enroll (Nat.le_succ _) (Nat.lt_succ_self _) ?_ ?_ ?_,by simp [one],fun locked => by cases locked⟩
      · intro inside
        obtain ⟨e,mem,same⟩ := mem_map.mp inside
        obtain ⟨g,m,holds,_⟩ := safe.queue.queued e mem
        exact absurd (safe.queue.fresh g m e.1 holds) (same ▸ lt_irrefl _)
      · intro g m _ holds
        exact absurd (safe.queue.fresh g m _ holds) (lt_irrefl _)
      · exact fun m other holds => absurd holds (nobody (by rw [found]; exact has) m other)
    | some id =>
      have mine : l.future = ⟨some id⟩ := by rw [← has]
      by_cases inside : s.inner.waiters.any (fun e => e.1 = id)
      · simp only [LockFuture.poll,held,has,inside,Bool.not_true,Bool.false_eq_true,if_false,if_true,some.injEq,reduceCtorEq] at taken
        subst taken
        rw [mine]
        exact ⟨safe.queue.refresh ⟨found,has⟩ (mem_ids.mpr inside),by simp [one],fun locked => by cases locked⟩
      · simp only [LockFuture.poll,held,has,inside,Bool.not_true,Bool.false_eq_true,if_false,some.injEq,reduceCtorEq] at taken
        subst taken
        rw [mine]
        refine ⟨safe.queue.enroll (le_refl _) (safe.queue.fresh f l id ⟨found,has⟩) (inside <| mem_ids.mp ·) ?_ ?_,by simp [one],
          fun locked => by cases locked⟩
        · intro g m apart holds
          exact apart (safe.queue.owner g f m l id holds ⟨found,has⟩)
        · rintro m other ⟨there,holds⟩
          cases there.symm.trans found
          exact some.inj (holds.symm.trans has)
lemma Safe.drop_future (found : s.futures f = some l) (taken : s.step (.drop_future f) = some t) : t.Safe := by
  simp only [step,found] at taken
  have dropped (m : Live) (is : (none : Option Live) = some m) : m.future.waiter_id = none ∧ ¬ m.Pending := by cases is
  cases has : l.future.waiter_id with
  | none =>
    simp only [LockFuture.drop,has,toList_none,append_nil,some.injEq] at taken
    subst taken
    exact safe.unregistered (by rw [found]; exact has) dropped
  | some id =>
    have left := safe.queue.leave ⟨found,has⟩ dropped
    by_cases shorter : (s.inner.retain_others id).length ≠ s.inner.waiters.length
    · -- it was still queued, so another waiter was chosen
      simp only [LockFuture.drop,has,if_pos shorter,toList_none,append_nil,some.injEq] at taken
      subst taken
      refine ⟨left,safe.guards,fun free some => ?_⟩
      have before : s.inner.waiters ≠ [] := by
        intro empty
        exact shorter (by rw [MutexInner.retain_others,empty]; rfl)
      obtain ⟨g,m,other,holds,absent⟩ := safe.progress free before
      have inside : id ∈ ids s.inner.waiters := by
        by_contra outside
        exact shorter (by rw [MutexInner.retain_others,filter_of_absent outside])
      have apart : g ≠ f := by
        rintro rfl
        obtain rfl : m = l := Option.some.inj (holds.1.symm.trans found)
        exact absent (Option.some.inj (holds.2.symm.trans has) ▸ inside)
      exact ⟨g,m,other,(holds_update_ne apart).mpr holds,fun here => absent (mem_ids_filter.mp here).1⟩
    · by_cases free : s.inner.locked = false
      · -- its wake is lost with it: the next waiter gets one
        simp only [LockFuture.drop,has,if_neg shorter,free,Bool.not_false,if_true,some.injEq] at taken
        subst taken
        have none_guards : s.guards = 0 := by simpa [free] using safe.guards
        cases rest : s.inner.retain_others id with
        | nil =>
          have queue : s.inner.waiters.filter (fun e => e.1 ≠ id) = [] := rest
          rw [queue] at left
          simp only [MutexInner.pop_front,toList_none,append_nil]
          exact ⟨left,by simp [none_guards],fun _ some => absurd rfl some⟩
        | cons e tail =>
          have queue : s.inner.waiters.filter (fun e => e.1 ≠ id) = (e.1,e.2) :: tail := rest
          rw [queue] at left
          obtain ⟨popped,chosen⟩ := left.pop
          simp only [MutexInner.pop_front,toList_some]
          exact ⟨popped,by simp [none_guards],fun _ _ => chosen⟩
      · have held : s.inner.locked := by simpa using free
        have one : s.guards = 1 := by simpa [held] using safe.guards
        simp only [LockFuture.drop,has,if_neg shorter,held,Bool.not_true,Bool.false_eq_true,if_false,toList_none,
          append_nil,some.injEq] at taken
        subst taken
        exact ⟨left,by simp [one],fun locked => by cases locked⟩
lemma Safe.drop_guard (taken : s.step .drop_guard = some t) : t.Safe := by
  simp only [step] at taken
  by_cases nobody : s.guards = 0
  · rw [if_pos nobody] at taken; cases taken
  rw [if_neg nobody] at taken
  have none_left : s.guards - 1 = 0 := by
    rw [safe.guards]
    split
    · rfl
    · rfl
  have queue := safe.queue
  cases waiting : s.inner.waiters with
  | nil =>
    simp only [MutexInner.drop_guard,MutexInner.pop_front,waiting,toList_none,append_nil,some.injEq] at taken
    subst taken
    rw [waiting] at queue
    exact ⟨queue,by simp [none_left],fun _ some => absurd rfl some⟩
  | cons e rest =>
    rw [waiting] at queue
    obtain ⟨popped,chosen⟩ := queue.pop
    simp only [MutexInner.drop_guard,MutexInner.pop_front,waiting,toList_some,some.injEq] at taken
    subst taken
    exact ⟨popped,by simp [none_left],fun _ _ => chosen⟩
lemma Safe.take (free : s.inner.locked = false) : Safe {s with inner := {s.inner with locked := true},guards := s.guards + 1} where
  queue := safe.queue
  guards := by simpa [free] using safe.guards
  progress locked := by cases locked
lemma Safe.step {e : Event} (taken : s.step e = some t) : t.Safe := by
  cases e with
  | lock f =>
    cases found : s.futures f with
    | some l => simp only [World.step,found] at taken; cases taken
    | none =>
      simp only [World.step,found,some.injEq] at taken
      subst taken
      refine safe.unregistered (by rw [found]; rfl) ?_
      rintro m ⟨⟩
      simp [Live.Pending]
  | poll f cx =>
    cases found : s.futures f with
    | none => simp only [World.step,found] at taken; cases taken
    | some l => exact safe.poll found taken
  | drop_future f =>
    cases found : s.futures f with
    | none => simp only [World.step,found] at taken; cases taken
    | some l => exact safe.drop_future found taken
  | try_lock =>
    by_cases free : s.inner.locked = false
    · simp only [World.step,MutexInner.try_lock,free,Bool.false_eq_true,if_false,some.injEq] at taken
      subst taken
      exact safe.take free
    · have held : s.inner.locked := by simpa using free
      simp only [World.step,MutexInner.try_lock,held,if_true,some.injEq] at taken
      exact taken ▸ safe
  | try_lock_unqueued =>
    by_cases taken_or_queued : (s.inner.locked || !s.inner.waiters.isEmpty)
    · simp only [World.step,MutexInner.try_lock_unqueued,taken_or_queued,if_true,some.injEq] at taken
      exact taken ▸ safe
    · have free : s.inner.locked = false := by
        cases locked : s.inner.locked with
        | false => rfl
        | true => simp [locked] at taken_or_queued
      simp only [World.step,MutexInner.try_lock_unqueued,if_neg taken_or_queued,some.injEq] at taken
      subst taken
      exact safe.take free
  | drop_guard => exact safe.drop_guard taken
  | wake w =>
    by_cases coming : w ∈ s.wakes
    · simp only [World.step,if_pos coming,some.injEq] at taken
      subst taken
      refine ⟨safe.queue.wake,safe.guards,fun free some => ?_⟩
      obtain ⟨f,l,id,holds,absent⟩ := safe.progress free some
      refine ⟨f,notice w l,id,⟨?_,?_⟩,absent⟩
      · show (s.futures f).map (notice w) = _
        rw [holds.1,map_some]
      · rw [notice]
        split
        · exact holds.2
        · exact holds.2
    · simp only [World.step,if_neg coming] at taken
      cases taken
/-- A free lock with a pending future has one that was woken, or is about to be. -/
lemma Safe.no_lost_wake (free : s.inner.locked = false) (found : s.futures f = some l) (waits : l.Pending) :
    ∃ g m, s.futures g = some m ∧ m.Pending ∧ (m.woken ∨ m.waker ∈ s.wakes) := by
  obtain ⟨id,has⟩ := (safe.queue.pending f l found).mp waits
  have popped (g : Nat) (m : Live) (other : WaiterId) (holds : Holds s.futures g m other)
      (absent : other ∉ ids s.inner.waiters) : ∃ g m, s.futures g = some m ∧ m.Pending ∧ (m.woken ∨ m.waker ∈ s.wakes) :=
    ⟨g,m,holds.1,(safe.queue.pending g m holds.1).mpr ⟨other,holds.2⟩,safe.queue.popped g m other holds absent⟩
  by_cases inside : id ∈ ids s.inner.waiters
  · -- the future itself still sleeps in the queue, but then another one was chosen
    have waiting : s.inner.waiters ≠ [] := by
      intro empty
      rw [empty] at inside
      cases inside
    obtain ⟨g,m,other,holds,absent⟩ := safe.progress free waiting
    exact popped g m other holds absent
  · exact popped f l id ⟨found,has⟩ inside
end
/-- In every run at most one guard exists, and while the lock is free with some future pending, a
    pending future has been woken since its last poll or its wake is on the way. -/
theorem mutual_exclusion_and_wakeup (es : List Event) (s : World) (reached : Runs.run step new es = some s) :
    s.guards ≤ 1 ∧ (s.inner.locked = false → (∃ f l, s.futures f = some l ∧ l.Pending) →
      ∃ f l, s.futures f = some l ∧ l.Pending ∧ (l.woken = true ∨ l.waker ∈ s.wakes)) := by
  have safe : s.Safe := Runs.invariant_of_run (fun _ _ _ safe taken => Safe.step safe taken) safe_new reached
  refine ⟨?_,?_⟩
  · rw [safe.guards]
    split
    · exact Nat.le_refl 1
    · exact Nat.zero_le 1
  · rintro free ⟨f,l,found,waits⟩
    exact safe.no_lost_wake free found waits
/-- Two futures wait, the holder leaves, and the woken future is dropped before it polls again. -/
def cancelled_wake : List Event :=
  [.try_lock,.lock 0,.poll 0 7,.lock 1,.poll 1 8,.drop_guard,.wake 7,.drop_future 0]
theorem cancelled_wake_passed_on : ∃ s, Runs.run step new cancelled_wake = some s ∧
    s.inner.locked = false ∧ (∃ l, s.futures 1 = some l ∧ l.Pending) ∧
    ∃ f l, s.futures f = some l ∧ l.Pending ∧ (l.woken = true ∨ l.waker ∈ s.wakes) := by
  refine ⟨_,rfl,rfl,⟨_,rfl,rfl⟩,?_⟩
  exact (mutual_exclusion_and_wakeup cancelled_wake _ rfl).2 rfl ⟨1,_,rfl,rfl⟩
/-- No pending future is forgotten: it is queued with the waker of its last poll, or it is being woken. -/
theorem pending_queued_or_woken (es : List Event) (s : World) (reached : Runs.run step new es = some s) (f : Nat) (l : Live)
    (found : s.futures f = some l) (waits : l.Pending) :
    (∃ id, l.future.waiter_id = some id ∧ (id,l.waker) ∈ s.inner.waiters) ∨ l.woken = true ∨ l.waker ∈ s.wakes := by
  have safe : s.Safe := Runs.invariant_of_run (fun _ _ _ safe taken => Safe.step safe taken) safe_new reached
  obtain ⟨id,numbered⟩ := (safe.queue.pending f l found).mp waits
  by_cases inside : id ∈ ids s.inner.waiters
  · obtain ⟨⟨_,_⟩,mem,rfl⟩ := mem_map.mp inside
    obtain ⟨g,m,holds,rfl⟩ := safe.queue.queued _ mem
    -- the entry's future is `f`, since no two futures have one id
    cases safe.queue.owner f g l m _ ⟨found,numbered⟩ holds
    cases found.symm.trans holds.1
    exact .inl ⟨_,numbered,mem⟩
  · exact .inr (safe.queue.popped f l id ⟨found,numbered⟩ inside)
theorem cancelled_wake_queued : ∃ s l, Runs.run step new cancelled_wake = some s ∧ s.futures 1 = some l ∧ l.Pending ∧
    ((∃ id, l.future.waiter_id = some id ∧ (id,l.waker) ∈ s.inner.waiters) ∨ l.woken = true ∨ l.waker ∈ s.wakes) :=
  ⟨_,_,rfl,rfl,rfl,pending_queued_or_woken cancelled_wake _ rfl 1 _ rfl rfl⟩
end World
end Narf.Sync
