import Narf.Lib.Runs

namespace Narf.Time
open Lib List Option

/-! The timer wheel and the one-shot it is armed with: `register`, `refresh_waker_at` and the timer interrupt
    decide on a deadline at one point and program it at a later one. -/

def MAX_SLEEPERS : Nat := 1024
structure Slot where
  deadline_cycles : Nat
  waker : Nat
  gen : Nat
structure SleepHandle where
  index : Nat
  gen : Nat
inductive WheelError where
  | Full
/-- `WheelInner`, with the minimum that its writers publish before they give up the lock. -/
structure Wheel where
  slots : List (Option Slot)
  next_gen : Nat
  cached_min : Option Nat

namespace Wheel
def new : Wheel := ⟨List.replicate MAX_SLEEPERS none,1,none⟩
def min_deadline (w : Wheel) : Option Nat := (w.slots.filterMap (Option.map Slot.deadline_cycles)).min?
def publish_min_locked (w : Wheel) : Wheel := { w with cached_min := w.min_deadline }
/-- The deadline for `invoke_arm`: only a minimum that has come down is armed. -/
def arm (prev_min : Option Nat) (new_min : Nat) : Option Nat :=
  match prev_min with
  | none => some new_min
  | some p => if new_min < p then some new_min else none
/-- The lock section of `register`, with the deadline to arm after it. -/
def register (w : Wheel) (deadline_cycles waker : Nat) : Except WheelError (SleepHandle × Wheel × Option Nat) :=
  match w.slots.findIdx? Option.isNone with
  | none => .error .Full
  | some i =>
    let new_min := w.cached_min.elim deadline_cycles (min · deadline_cycles)
    .ok (⟨i,w.next_gen⟩,⟨w.slots.set i (some ⟨deadline_cycles,waker,w.next_gen⟩),max ((w.next_gen + 1) % 2 ^ 32) 1,some new_min⟩,
      arm w.cached_min new_min)
/-- The slot that a handle still owns. -/
def owned (w : Wheel) (handle : SleepHandle) : Option Slot :=
  if handle.index ≥ MAX_SLEEPERS then none
  else w.slots[handle.index]?.join.filter (fun s => s.gen = handle.gen)
def cancel (w : Wheel) (handle : SleepHandle) : Wheel :=
  match w.owned handle with
  | none => w
  | some s =>
    let w' := { w with slots := w.slots.set handle.index none }
    if w.cached_min = some s.deadline_cycles then w'.publish_min_locked else w'
/-- The lock section of `refresh_waker_at`, with the deadline to arm after it and the answer; `none` where
    the minimum that it expects is not there. -/
def refresh_waker_at (w : Wheel) (handle : SleepHandle) (deadline_cycles waker : Nat) : Option (Wheel × Option Nat × Bool) :=
  match w.owned handle with
  | none => some (w,none,false)
  | some s =>
    -- a waker that `will_wake` the same task is as good as the new one
    let w' := { w with slots := w.slots.set handle.index (some ⟨deadline_cycles,waker,s.gen⟩) }
    let new_min := if w.cached_min = some s.deadline_cycles ∧ deadline_cycles > s.deadline_cycles then w'.min_deadline
      else some (w.cached_min.elim deadline_cycles (min · deadline_cycles))
    new_min.map (fun new_min => ({ w' with cached_min := some new_min },arm w.cached_min new_min,true))
/-- The loop of `drain_due_to_deferred`: the slots it leaves and the wakers it hands over, until the deferred
    queue takes no more. -/
def drain_due (now_cycles : Nat) (try_push_one : Nat → Bool) : Nat → List (Option Slot) → List (Option Slot) × List Nat
  | _, [] => ([],[])
  | i, none :: rest =>
    let (slots,woken) := drain_due now_cycles try_push_one (i + 1) rest
    (none :: slots,woken)
  | i, some s :: rest =>
    if s.deadline_cycles ≤ now_cycles then
      if try_push_one i then
        let (slots,woken) := drain_due now_cycles try_push_one (i + 1) rest
        (none :: slots,s.waker :: woken)
      else (some s :: rest,[])
    else
      let (slots,woken) := drain_due now_cycles try_push_one (i + 1) rest
      (some s :: slots,woken)
end Wheel
/-- What a task, or an interrupt handler that runs over one, does next. -/
inductive Context where
  | idle
  | invoke_arm (deadline : Nat)
  | drain_check (now : Nat)
  | drain (now : Nat)
  | next_deadline_cycles
  deriving DecidableEq
/-- The clockevent is a one-shot with the deadline of the last callback that ran. -/
structure World (n : Nat) where
  wheel : Wheel
  deferred : List Nat
  contexts : Fin n → Context
  one_shot : Option Nat
inductive Event (n : Nat) where
  | register (c : Fin n) (deadline_cycles waker : Nat)
  | refresh_waker_at (c : Fin n) (handle : SleepHandle) (deadline_cycles waker : Nat)
  | cancel (c : Fin n) (handle : SleepHandle)
  | pump_irq (c : Fin n) (now : Nat)
  | step (c : Fin n) (try_push_one : Nat → Bool)

namespace World
variable {n : Nat}
def new : World n := ⟨.new,[],fun _ => .idle,none⟩
def goto (s : World n) (c : Fin n) (next : Context) : World n :=
  { s with contexts := Function.update s.contexts c next }
/-- The next step of a context that is in the middle of a call. -/
def act (s : World n) (c : Fin n) (try_push_one : Nat → Bool) : Option (World n) :=
  match s.contexts c with
  | .idle => none
  | .invoke_arm deadline => some ({ s with one_shot := some deadline }.goto c .idle)
  | .drain_check now => some (s.goto c (if s.wheel.cached_min.all (· > now) then .next_deadline_cycles else .drain now))
  | .drain now =>
    let (slots,woken) := Wheel.drain_due now try_push_one 0 s.wheel.slots
    let wheel := { s.wheel with slots := slots }.publish_min_locked
    some ({ s with wheel := wheel, deferred := s.deferred ++ woken }.goto c .next_deadline_cycles)
  | .next_deadline_cycles => some (s.goto c (s.wheel.cached_min.elim .idle .invoke_arm))
/-- A call that leaves the wheel so, and the context with what is left of the call. -/
def start (s : World n) (c : Fin n) (wheel : Wheel) (next : Context) : Option (World n) :=
  if s.contexts c = .idle then some ({ s with wheel := wheel }.goto c next) else none
def step (s : World n) : Event n → Option (World n)
  | .register c deadline_cycles waker => match s.wheel.register deadline_cycles waker with
    | .error _ => s.start c s.wheel .idle
    | .ok (_,wheel,arm) => s.start c wheel (arm.elim .idle .invoke_arm)
  | .refresh_waker_at c handle deadline_cycles waker => match s.wheel.refresh_waker_at handle deadline_cycles waker with
    | none => none
    | some (wheel,arm,_) => s.start c wheel (arm.elim .idle .invoke_arm)
  | .cancel c handle => s.start c (s.wheel.cancel handle) .idle
  | .pump_irq c now => s.start c s.wheel (.drain_check now)
  | .step c try_push_one => s.act c try_push_one
def Quiet (s : World n) : Prop := ∀ c, s.contexts c = .idle
instance (s : World n) : Decidable s.Quiet := by unfold Quiet; infer_instance
/-- The one-shot is armed for a deadline not later than the earliest pending one. -/
def Armed (s : World n) : Prop := ∀ m ∈ s.wheel.min_deadline, ∃ d ∈ s.one_shot, d ≤ m
instance (s : World n) : Decidable s.Armed :=
  by unfold Armed; infer_instance

end World
/-- The deadline of the callback that a context is about to run. -/
def Context.callback : Context → Option Nat
  | .invoke_arm d => some d
  | _ => none

namespace World
variable {n : Nat}
/-- The one-shot is early enough, or will be. -/
def Covered (s : World n) : Prop :=
  ∀ m ∈ s.wheel.min_deadline, (∃ d ∈ s.one_shot, d ≤ m) ∨ ∃ c, ∃ d ∈ (s.contexts c).callback, d ≤ m
/-- A callback later than the earliest pending deadline runs only while one that is not is still to run. -/
def InOrder (s : World n) : Event n → Prop
  | .step c _ => ∀ d ∈ (s.contexts c).callback, ∀ m ∈ s.wheel.min_deadline,d ≤ m ∨ ∃ b, b ≠ c ∧ ∃ d ∈ (s.contexts b).callback, d ≤ m
  | _ => True
instance (s : World n) : DecidablePred s.InOrder := fun e => by
  cases e <;> unfold InOrder <;> infer_instance

end World

/-! ## The wheel -/
namespace Wheel
def Pends (w : Wheel) (d : Nat) : Prop := ∃ x, some x ∈ w.slots ∧ x.deadline_cycles = d
/-- What a lock section does: the minimum is published, and comes down only to a deadline that is armed. -/
structure Settles (w w' : Wheel) (arm : Option Nat) : Prop where
  published : w'.cached_min = w'.min_deadline
  lowered : ∀ m ∈ w'.min_deadline, (∃ d ∈ arm, d ≤ m) ∨ ∃ p ∈ w.min_deadline, p ≤ m

variable {w w' : Wheel} {d m i now : Nat} {x s : Slot} {v : Option Slot} {handle : SleepHandle}
lemma mem_min_deadline : m ∈ w.min_deadline ↔ w.Pends m ∧ ∀ d, w.Pends d → m ≤ d := by
  rw [min_deadline,mem_def,List.min?_eq_some_iff]
  simp [Pends,mem_filterMap]
lemma Pends.min_le (pends : w.Pends d) : ∃ m ∈ w.min_deadline, m ≤ d := by
  cases least : w.min_deadline with
  | none =>
    obtain ⟨x,mem,rfl⟩ := pends
    rw [min_deadline,List.min?_eq_none_iff,filterMap_eq_nil_iff] at least
    cases least _ mem
  | some m => exact ⟨m,rfl,(mem_min_deadline.mp least).2 d pends⟩
lemma settles_of_subset (published : w'.cached_min = w'.min_deadline) (fewer : ∀ d, w'.Pends d → w.Pends d)
    (arm : Option Nat) : Settles w w' arm :=
  ⟨published,fun m least => .inr (fewer m (mem_min_deadline.mp least).1).min_le⟩
lemma pends_set (pends : Pends { w with slots := w.slots.set i v } d) :
    (∃ x, v = some x ∧ x.deadline_cycles = d) ∨ w.Pends d := by
  obtain ⟨x,mem,same⟩ := pends
  rcases mem_or_eq_of_mem_set mem with old | rfl
  · exact .inr ⟨x,old,same⟩
  · exact .inl ⟨x,rfl,same⟩
lemma Pends.set (pends : w.Pends d) (other : ∀ x, w.slots[i]? = some (some x) → x.deadline_cycles ≠ d) (v : Option Slot) :
    Pends { w with slots := w.slots.set i v } d := by
  obtain ⟨x,mem,same⟩ := pends
  obtain ⟨j,there⟩ := mem_iff_getElem?.mp mem
  refine ⟨x,mem_iff_getElem?.mpr ⟨j,?_⟩,same⟩
  rw [getElem?_set_ne,there]
  rintro rfl
  exact other x there same
lemma settles_arm (old : w.cached_min = w.min_deadline) (least : w'.min_deadline = some m) (cached : w'.cached_min = some m) :
    Settles w w' (arm w.cached_min m) := by
  refine ⟨cached.trans least.symm,fun q new => ?_⟩
  cases least.symm.trans new
  rw [old]
  cases w.min_deadline with
  | none => exact .inl ⟨m,rfl,le_rfl⟩
  | some p =>
    by_cases lower : m < p
    · exact .inl ⟨m,if_pos lower,le_rfl⟩
    · exact .inr ⟨p,rfl,Nat.le_of_not_lt lower⟩
/-- The minimum once a slot is written, where the old one does not go with the slot's old deadline. -/
lemma min_deadline_write (within : i < w.slots.length)
    (kept : ∀ p ∈ w.min_deadline, p < x.deadline_cycles → ∀ y, w.slots[i]? = some (some y) → y.deadline_cycles ≠ p) :
    min_deadline { w with slots := w.slots.set i (some x) } =
      some (w.min_deadline.elim x.deadline_cycles (min · x.deadline_cycles)) := by
  have here : Pends { w with slots := w.slots.set i (some x) } x.deadline_cycles := ⟨x,mem_set within _,rfl⟩
  rw [← mem_def,mem_min_deadline]
  cases least : w.min_deadline with
  | none =>
    refine ⟨here,fun d pends => ?_⟩
    rcases pends_set pends with ⟨y,same,rfl⟩ | old
    · cases same
      exact le_rfl
    · obtain ⟨m,lower,_⟩ := old.min_le
      cases least.symm.trans lower
  | some p =>
    have ⟨there,lowest⟩ := mem_min_deadline.mp least
    refine ⟨?_,fun d pends => ?_⟩
    · by_cases below : p < x.deadline_cycles
      · rw [elim_some,min_eq_left (le_of_lt below)]
        exact there.set (kept p least below) _
      · rw [elim_some,min_eq_right (Nat.le_of_not_lt below)]
        exact here
    · rcases pends_set pends with ⟨y,same,rfl⟩ | old
      · cases same
        exact min_le_right _ _
      · exact le_trans (min_le_left _ _) (lowest d old)
lemma register_settles {waker : Nat} {arm : Option Nat} (published : w.cached_min = w.min_deadline)
    (done : w.register d waker = .ok (handle,w',arm)) : Settles w w' arm := by
  unfold register at done
  split at done
  · cases done
  · next i found =>
    cases done
    obtain ⟨within,free,_⟩ := List.findIdx?_eq_some_iff_getElem.mp found
    refine settles_arm published ?_ rfl
    rw [published]
    refine min_deadline_write (x := ⟨d,waker,w.next_gen⟩) within fun p _ _ y there => ?_
    rw [getElem?_eq_getElem within] at there
    rw [some.inj there] at free
    cases free
lemma owned_eq (mine : w.owned handle = some s) : w.slots[handle.index]? = some (some s) := by
  unfold owned at mine
  split at mine
  · cases mine
  · exact join_eq_some_iff.mp (eq_some_of_filter_eq_some mine)
lemma cancel_settles (published : w.cached_min = w.min_deadline) : Settles w (w.cancel handle) none := by
  unfold cancel
  split
  · exact settles_of_subset published (fun _ => id) _
  · next s mine =>
    have fewer (d : Nat) (pends : Pends { w with slots := w.slots.set handle.index none } d) : w.Pends d := by
      rcases pends_set pends with ⟨x,new,_⟩ | old
      · cases new
      · exact old
    split
    · refine settles_of_subset ?_ ?_ none
      · rfl
      · exact fewer
    · next other =>
      refine settles_of_subset ?_ ?_ none
      swap
      · exact fewer
      refine published.trans ?_
      rw [published] at other
      cases least : w.min_deadline with
      | none =>
        cases rest : min_deadline { w with slots := w.slots.set handle.index none } with
        | none => rfl
        | some m =>
          obtain ⟨p,lower,_⟩ := (fewer m (mem_min_deadline.mp rest).1).min_le
          cases least.symm.trans lower
      | some p =>
        have ⟨there,lowest⟩ := mem_min_deadline.mp least
        refine (mem_min_deadline.mpr ⟨there.set (fun x here same => other ?_) none,fun d pends => lowest d (fewer d pends)⟩).symm
        cases (owned_eq mine).symm.trans here
        rw [least,same]
lemma refresh_waker_at_settles (published : w.cached_min = w.min_deadline) (handle : SleepHandle) (d waker : Nat) :
    ∃ r, w.refresh_waker_at handle d waker = some r ∧ Settles w r.1 r.2.1 := by
  unfold refresh_waker_at
  split
  · exact ⟨_,rfl,settles_of_subset published (fun _ => id) _⟩
  · next s mine =>
    have there := owned_eq mine
    have within : handle.index < w.slots.length := (List.getElem?_eq_some_iff.mp there).1
    dsimp only
    split
    · obtain ⟨m,least,_⟩ := Pends.min_le (w := { w with slots := w.slots.set handle.index (some ⟨d,waker,s.gen⟩) })
        ⟨_,mem_set within _,rfl⟩
      refine ⟨_,by rw [least]; rfl,settles_arm published ?_ rfl⟩
      exact least
    · next stays =>
      refine ⟨_,rfl,settles_arm published ?_ rfl⟩
      rw [published]
      refine min_deadline_write (x := ⟨d,waker,s.gen⟩) within fun p least below y here same => stays ?_
      cases there.symm.trans here
      exact ⟨published.trans (same ▸ least),same ▸ below⟩
lemma mem_drain_due {try_push_one : Nat → Bool} {slots : List (Option Slot)} :
    some x ∈ (drain_due now try_push_one i slots).1 → some x ∈ slots := by
  fun_induction drain_due now try_push_one i slots with
  | case1 => exact id
  | case2 i rest slots woken rest_eq ih => grind
  | case3 | case4 | case5 => grind
end Wheel

/-! ## Runs -/
namespace World
variable {n : Nat} {s t : World n} {c : Fin n} {e : Event n} {es : List (Event n)}

variable {w : Wheel} {arm : Option Nat} {next : Context}
lemma Covered.move (covered : s.Covered) (settles : s.wheel.Settles w arm)
    (before : (s.contexts c).callback = none) (after : ∀ d ∈ arm, next = .invoke_arm d) (deferred : List Nat) :
    Covered ({ s with wheel := w, deferred := deferred }.goto c next) := by
  intro m least
  rcases settles.lowered m least with ⟨d,decided,early⟩ | ⟨p,old,above⟩
  · refine .inr ⟨c,d,?_,early⟩
    simp [goto,after d decided,Context.callback]
  · rcases covered p old with ⟨d,armed,early⟩ | ⟨b,d,waits,early⟩
    · exact .inl ⟨d,armed,le_trans early above⟩
    · have other : b ≠ c := by
        rintro rfl
        cases before.symm.trans waits
      refine .inr ⟨b,d,?_,le_trans early above⟩
      simpa only [goto,Function.update_of_ne other] using waits
/-- A callback keeps the one-shot covered where it runs in order, and there only. -/
lemma covered_invoke_arm {d : Nat} : Covered ({ s with one_shot := some d }.goto c .idle) ↔
      ∀ m ∈ s.wheel.min_deadline, d ≤ m ∨ ∃ b, b ≠ c ∧ ∃ d ∈ (s.contexts b).callback, d ≤ m := by
  refine forall_congr' fun m => forall_congr' fun _ => or_congr ?_ (exists_congr fun b => ?_)
  · simp [goto]
  · by_cases same : b = c
    · subst same
      simp [goto,Context.callback]
    · simp [goto,same]
/-- The state of the wheel and the one-shot while every callback runs in order. -/
structure Sound (s : World n) : Prop where
  published : s.wheel.cached_min = s.wheel.min_deadline
  covered : s.Covered
lemma Sound.still (sound : s.Sound) : s.wheel.Settles s.wheel none :=
  Wheel.settles_of_subset sound.published (fun _ => id) none
lemma Sound.start (sound : s.Sound) (settles : s.wheel.Settles w arm)
    (after : ∀ d ∈ arm, next = .invoke_arm d) (taken : s.start c w next = some t) : t.Sound := by
  unfold World.start at taken
  split at taken
  · next idle =>
    cases taken
    exact ⟨settles.published,sound.covered.move settles (by rw [idle]; rfl) after _⟩
  · cases taken
lemma elim_invoke_arm (arm : Option Nat) : ∀ d ∈ arm, arm.elim Context.idle .invoke_arm = .invoke_arm d := by
  rintro d rfl
  rfl
lemma Sound.act {try_push_one : Nat → Bool} (sound : s.Sound) (taken : s.act c try_push_one = some t) :
    t.wheel.cached_min = t.wheel.min_deadline ∧ (t.Covered ↔ s.InOrder (.step c try_push_one)) := by
  have pass {w : Wheel} {deferred : List Nat} {next : Context} (free : (s.contexts c).callback = none)
      (settles : s.wheel.Settles w none) :
      w.cached_min = w.min_deadline ∧
        (Covered ({ s with wheel := w, deferred := deferred }.goto c next) ↔ s.InOrder (.step c try_push_one)) := by
    refine ⟨settles.published,iff_of_true (sound.covered.move settles free (by simp) deferred) ?_⟩
    intro d waits
    cases free.symm.trans waits
  unfold World.act at taken
  split at taken
  · cases taken
  · next d here =>
    cases taken
    refine ⟨sound.published,covered_invoke_arm.trans ?_⟩
    simp [InOrder,here,Context.callback]
  · next here =>
    cases taken
    exact pass (by rw [here]; rfl) sound.still
  · next here =>
    cases taken
    refine pass (by rw [here]; rfl) (Wheel.settles_of_subset rfl ?_ none)
    rintro d ⟨x,mem,same⟩
    exact ⟨x,Wheel.mem_drain_due mem,same⟩
  · next here =>
    cases taken
    exact pass (by rw [here]; rfl) sound.still
lemma Sound.step (sound : s.Sound) (taken : s.step e = some t) : t.wheel.cached_min = t.wheel.min_deadline ∧ (t.Covered ↔ s.InOrder e) := by
  have keep (kept : t.Sound) (order : s.InOrder e) :
      t.wheel.cached_min = t.wheel.min_deadline ∧ (t.Covered ↔ s.InOrder e) :=
    ⟨kept.published,iff_of_true kept.covered order⟩
  cases e with
  | register c deadline_cycles waker =>
    simp only [World.step] at taken
    split at taken
    · exact keep (sound.start sound.still (by simp) taken) trivial
    · next wheel arm done =>
      exact keep (sound.start (Wheel.register_settles sound.published done) (elim_invoke_arm arm) taken) trivial
  | refresh_waker_at c handle deadline_cycles waker =>
    obtain ⟨⟨wheel,arm,found⟩,done,settles⟩ := Wheel.refresh_waker_at_settles sound.published handle deadline_cycles waker
    simp only [World.step,done] at taken
    exact keep (sound.start settles (elim_invoke_arm arm) taken) trivial
  | cancel c handle => exact keep (sound.start (Wheel.cancel_settles sound.published) (by simp) taken) trivial
  | pump_irq c now => exact keep (sound.start sound.still (by simp) taken) trivial
  | step c try_push_one => exact sound.act taken
lemma sound_new : (new : World n).Sound := by
  have empty : (Wheel.new).min_deadline = none := by simp [Wheel.new,Wheel.min_deadline]
  exact ⟨empty.symm,fun m least => by cases empty.symm.trans least⟩
/-- While every callback runs in order the one-shot is never late, and the first one that does not leaves it
    late until another callback is decided on. -/
theorem never_armed_late (meets : Runs.Meets step InOrder (new : World n) es) (reached : Runs.run step new es = some s) :
    (s.Quiet → s.Armed) ∧ ∀ e t, s.step e = some t → (t.Covered ↔ s.InOrder e) := by
  have sound : s.Sound := by
    refine Runs.invariant_of_meets (I := Sound) ?_ sound_new meets reached
    intro s e t sound order taken
    have ⟨published,covered⟩ := sound.step taken
    exact ⟨published,covered.mpr order⟩
  refine ⟨fun quiet m least => ?_,fun e t taken => (sound.step taken).2⟩
  rcases sound.covered m least with armed | ⟨c,d,waits,_⟩
  · exact armed
  · rw [quiet c] at waits
    cases waits

/-- Two registrations whose callbacks run in the order they were decided on. -/
def in_turn : List (Event 2) :=
  [.register ⟨0,by decide⟩ 100 7,.step ⟨0,by decide⟩ (fun _ => true),.register ⟨1,by decide⟩ 50 8,.step ⟨1,by decide⟩ (fun _ => true)]
theorem never_armed_late_in_turn : ∃ s : World 2, Runs.run step new in_turn = some s ∧ s.Quiet ∧
    s.wheel.min_deadline = some 50 ∧ s.Armed := by
  have runs : (Runs.run step (new : World 2) in_turn).map (fun s => decide (s.Quiet ∧ s.wheel.min_deadline = some 50)) =
      some true := by decide +kernel
  obtain ⟨s,reached,facts⟩ := map_eq_some_iff.mp runs
  obtain ⟨quiet,least⟩ := of_decide_eq_true facts
  exact ⟨s,reached,quiet,least,(never_armed_late (by decide +kernel) reached).1 quiet⟩
/-- The callback of the first registration runs after that of the second, whose deadline is earlier. -/
theorem armed_late : (Runs.run step (new : World 2)
    [.register ⟨0,by decide⟩ 100 7,.register ⟨1,by decide⟩ 50 8,.step ⟨1,by decide⟩ (fun _ => true),.step ⟨0,by decide⟩ (fun _ => true)]).map
      (fun s => (decide s.Quiet,s.wheel.min_deadline,s.one_shot,decide s.Armed)) = some (true,some 50,some 100,false) := by
  decide +kernel
end World
end Narf.Time
