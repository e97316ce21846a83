import Narf.Scheduler.Budget

namespace Narf.Scheduler.Eevdf
open Lib List

/-! The earliest virtual deadline pick: tasks sleep, wake, change their place in the queue and their nice
    value at any time, and one of them is dispatched at a time. -/

inductive SchedClass where
  | Idle
  | Batch
  | Default
  | Interactive
  | Realtime
  deriving DecidableEq
def SchedClass.rank : SchedClass → Nat
  | .Idle => 0
  | .Batch => 1
  | .Default => 2
  | .Interactive => 3
  | .Realtime => 4
structure SchedRow where
  handle : Nat
  sched_class : SchedClass
  priority : Int
  eligibility : BudgetEligibility
  runnable : Bool
  vruntime : Nat
  deriving DecidableEq
def DEFAULT_SLICE_CYCLES : Nat := 33000000
def EEVDF_BASE_SLICE : Nat := DEFAULT_SLICE_CYCLES / 16
def v_eff (vruntime vfloor : Nat) : Nat := max vruntime (vfloor - EEVDF_BASE_SLICE)
def d_eff (vruntime vfloor : Nat) : Nat := saturating_add (v_eff vruntime vfloor) EEVDF_BASE_SLICE
def tier : BudgetEligibility → Nat
  | .Eligible => 2
  | .Borrowable => 1
  | .Throttled => 0
structure PickKey where
  tier : Nat
  sched_class : SchedClass
  deadline : Nat
  prio : Int
def better_pick (a b : PickKey) : Bool :=
  if a.tier ≠ b.tier then a.tier > b.tier
  else if a.sched_class.rank ≠ b.sched_class.rank then a.sched_class.rank > b.sched_class.rank
  else if a.deadline ≠ b.deadline then a.deadline < b.deadline
  else a.prio < b.prio
def candidate (row : SchedRow) : Bool := row.runnable && row.eligibility ≠ .Throttled
def pickKey (vfloor : Nat) (row : SchedRow) : PickKey :=
  ⟨tier row.eligibility,row.sched_class,d_eff row.vruntime vfloor,row.priority⟩
/-- One turn of the scan: `take` is true for the first candidate and for each better one. -/
def consider (vfloor : Nat) (best : Option (Nat × PickKey)) (row : SchedRow) : Option (Nat × PickKey) :=
  if candidate row then
    match best with
    | none => some (row.handle,pickKey vfloor row)
    | some (_,bkey) => if better_pick (pickKey vfloor row) bkey then some (row.handle,pickKey vfloor row) else best
  else best
def pick_next (vfloor : Nat) (queue : List SchedRow) : Option Nat :=
  match queue.foldl (consider vfloor) none with
  | some (handle,_) => some handle
  | none => queue.head?.map SchedRow.handle

section scan
variable {vfloor : Nat} {grant : BudgetEligibility} {kind : SchedClass} {queue : List SchedRow}
/-- The rows are of one class and one budget tier. -/
def OneTier (grant : BudgetEligibility) (kind : SchedClass) (queue : List SchedRow) : Prop :=
  ∀ row ∈ queue, row.eligibility = grant ∧ row.sched_class = kind
lemma better_pick_deadline {a b : PickKey} (sameTier : a.tier = b.tier) (sameClass : a.sched_class = b.sched_class)
    (worse : better_pick a b = false) : b.deadline ≤ a.deadline := by
  simp only [better_pick,sameTier,sameClass,ne_eq,not_true_eq_false,if_false] at worse
  grind
lemma better_pick_chain {a b c : PickKey} (better : better_pick c b) (worse : better_pick a b = false) : better_pick a c = false := by
  simp only [better_pick] at *
  grind
/-- No candidate of the queue beats the one the scan holds; it holds none if there is no candidate. -/
lemma scan_unbeaten : match queue.foldl (consider vfloor) none with
    | none => ∀ row ∈ queue, candidate row = false
    | some (handle,key) => (∃ best ∈ queue, candidate best ∧ best.handle = handle ∧ key = pickKey vfloor best) ∧
      ∀ row ∈ queue, candidate row → better_pick (pickKey vfloor row) key = false := by
  -- the scan appends one row at a time to what it has seen
  induction queue using List.reverseRecOn with
  | nil => simp
  | append_singleton seen row ih =>
    rw [foldl_append,foldl_cons,foldl_nil]
    generalize seen.foldl (consider vfloor) none = held at ih
    have self : better_pick (pickKey vfloor row) (pickKey vfloor row) = false := by simp [better_pick]
    unfold consider
    grind [better_pick_chain]
/-- `pick_next` takes a runnable task within its budget that no other beats in tier, class, deadline and
    priority; only without one it takes the head of the queue. -/
theorem pick_next_unbeaten (vfloor : Nat) (queue : List SchedRow) :
    (∃ best ∈ queue, candidate best = true ∧ pick_next vfloor queue = some best.handle ∧
      ∀ row ∈ queue, candidate row = true → better_pick (pickKey vfloor row) (pickKey vfloor best) = false) ∨
    (∀ row ∈ queue, candidate row = false) ∧ pick_next vfloor queue = queue.head?.map SchedRow.handle := by
  have scan := @scan_unbeaten vfloor queue
  unfold pick_next
  split at scan
  · next held =>
    rw [held]
    exact .inr ⟨scan,rfl⟩
  · next handle key held =>
    obtain ⟨⟨best,among,ready,rfl,rfl⟩,first⟩ := scan
    rw [held]
    exact .inl ⟨best,among,ready,rfl,first⟩
/-- With a candidate in the queue the pick is a candidate, and its deadline is not after the other's. -/
lemma pick_next_spec {row : SchedRow} {handle : Nat} (same : OneTier grant kind queue) (mem : row ∈ queue)
    (runs : candidate row) (picked : pick_next vfloor queue = some handle) :
    ∃ best ∈ queue, best.handle = handle ∧ candidate best ∧ d_eff best.vruntime vfloor ≤ d_eff row.vruntime vfloor := by
  have scan := @scan_unbeaten vfloor queue
  unfold pick_next at picked
  split at picked
  next found key held =>
    cases picked
    rw [held] at scan
    obtain ⟨⟨best,among,ready,named,rfl⟩,first⟩ := scan
    have like := same best among
    have alike := same row mem
    have order := better_pick_deadline (a := pickKey vfloor row) (b := pickKey vfloor best)
      (by simp only [pickKey,like.1,alike.1]) (alike.2.trans like.2.symm) (first row mem runs)
    exact ⟨best,among,named,ready,order⟩
  next held =>
    rw [held] at scan
    simp [scan row mem] at runs
end scan
/-- `bump_vfloor`: the floor only rises. -/
def bump_vfloor (vfloor v : Nat) : Nat := max vfloor v
/-- One CPU: its virtual-time floor and its queue, and beside them each dispatch with the cycles it was charged. -/
structure Cpu where
  vfloor : Nat
  queue : List SchedRow
  polls : List (Nat × Nat)
  deriving DecidableEq
inductive Event where
  /-- A pick and its poll, which ran for `cycles`; `awake` says whether the task was woken meanwhile. -/
  | dispatch (cycles : Nat) (awake : Bool)
  /-- The task goes to sleep or is woken. -/
  | flag (handle : Nat) (awake : Bool)
  | renice (handle : Nat) (priority : Int)
  | reorder (queue : List SchedRow)

namespace Cpu
/-- The row as it goes back to the queue after its poll. -/
def charged (row : SchedRow) (cycles : Nat) (awake : Bool) : SchedRow :=
  { row with vruntime := (row.vruntime + cycles) % 2 ^ 64, runnable := awake }
/-- The picked task leaves the queue; one that is not awake goes back unpolled. -/
def poll (s : Cpu) (cycles : Nat) (awake : Bool) : Option Cpu :=
  match pick_next s.vfloor s.queue with
  | none => none
  | some handle =>
    match s.queue.find? (fun row => row.handle = handle) with
    | none => none
    | some row =>
      if row.runnable then
        some ⟨bump_vfloor s.vfloor row.vruntime,s.queue.erase row ++ [charged row cycles awake],(handle,cycles) :: s.polls⟩
      else some { s with queue := s.queue.erase row ++ [row] }
def update (s : Cpu) (handle : Nat) (change : SchedRow → SchedRow) : Cpu :=
  { s with queue := s.queue.map (fun row => if row.handle = handle then change row else row) }
def step (s : Cpu) : Event → Option Cpu
  | .dispatch cycles awake => s.poll cycles awake
  | .flag handle awake => some (s.update handle (fun row => { row with runnable := awake }))
  | .renice handle priority => some (s.update handle (fun row => { row with priority := priority }))
  | .reorder queue => if queue.Perm s.queue then some { s with queue := queue } else none
def consumed (s : Cpu) : Nat := (s.polls.map Prod.snd).sum
/-- What the row may still run before its effective virtual time is past `w` by more than one dispatch. -/
def slack (T w M : Nat) (row : SchedRow) : Nat := if row.handle = T then 0 else w + M - row.vruntime
/-- The largest sum the other tasks can consume while `T` waits. -/
def bound (T w M : Nat) (queue : List SchedRow) : Nat :=
  (queue.map (fun row => if row.handle = T then 0 else (w - row.vruntime) + M)).sum
/-- `T` is runnable and has not been dispatched: its effective virtual time is still `w`, and the other
    tasks have been charged no more than they have lost of their slack. -/
structure Waits (grant : BudgetEligibility) (kind : SchedClass) (T w M total : Nat) (s : Cpu) : Prop where
  named : (s.queue.map SchedRow.handle).Nodup
  same : OneTier grant kind s.queue
  ready : ∃ row ∈ s.queue, row.handle = T ∧ candidate row = true ∧ v_eff row.vruntime s.vfloor = w
  paid : s.consumed + (s.queue.map (slack T w M)).sum ≤ total

variable {grant : BudgetEligibility} {kind : SchedClass} {T w M total : Nat} {s t : Cpu}
  {cycles : Nat} {awake : Bool} {e : Event}

/-- The charge of each dispatch is between 1 and `M`, and `T` is not put to sleep. -/
def Charges (T M : Nat) (_ : Cpu) : Event → Prop
  | .dispatch cycles _ => 1 ≤ cycles ∧ cycles ≤ M
  | .flag handle awake => handle = T → awake = true
  | .renice .. | .reorder _ => True
instance (T M : Nat) (s : Cpu) : DecidablePred (Charges T M s) := fun e => by
  unfold Charges; split <;> infer_instance
def dispatches : List Event → Nat
  | [] => 0
  | .dispatch .. :: rest => dispatches rest + 1
  | .flag .. :: rest | .renice .. :: rest | .reorder _ :: rest => dispatches rest
def Dispatched (T : Nat) (s : Cpu) : Prop := ∃ poll ∈ s.polls, poll.1 = T
instance (T : Nat) (s : Cpu) : Decidable (Dispatched T s) := by unfold Dispatched; infer_instance
lemma dispatches_cons (e : Event) (es : List Event) : dispatches (e :: es) = dispatches [e] + dispatches es := by
  cases e <;> simp only [dispatches] <;> omega
lemma Dispatched.step (done : Dispatched T s) (taken : s.step e = some t) : Dispatched T t := by
  have grown : s.polls ⊆ t.polls := by
    revert taken
    fun_cases Cpu.step s e <;> intro taken
    case case1 cycles awake =>
      revert taken
      fun_cases Cpu.poll s cycles awake <;> intro taken <;> cases taken <;> simp
    all_goals cases taken
    all_goals exact List.Subset.refl _
  exact done.imp fun _ found => ⟨grown found.1,found.2⟩
/-- A pick before `T` is not past `T`'s effective virtual time, so it moves neither that nor the bound. -/
lemma picked_before {row best : SchedRow} {vfloor : Nat} (virtual : v_eff row.vruntime vfloor = w)
    (room : w + EEVDF_BASE_SLICE + M < 2 ^ 64) (first : d_eff best.vruntime vfloor ≤ d_eff row.vruntime vfloor) (some_cycles : 1 ≤ M) :
    best.vruntime ≤ w ∧ v_eff row.vruntime (bump_vfloor vfloor best.vruntime) = w := by
  have earlier : v_eff best.vruntime vfloor ≤ w := by
    rw [d_eff,d_eff,virtual,saturating_add_eq (a := w) (by omega),saturating_add] at first
    have full : U64_MAX = 2 ^ 64 - 1 := rfl
    omega
  simp only [v_eff,bump_vfloor] at virtual earlier ⊢
  omega
section
variable (waits : Waits grant kind T w M total s)
include waits
lemma Waits.perm {queue : List SchedRow} (perm : queue.Perm s.queue) : Waits grant kind T w M total { s with queue := queue } := by
  obtain ⟨row,mem,rest⟩ := waits.ready
  refine ⟨(perm.map _).nodup_iff.mpr waits.named,fun row among => waits.same row (perm.mem_iff.mp among),
    ⟨row,perm.mem_iff.mpr mem,rest⟩,?_⟩
  rw [(perm.map (slack T w M)).sum_eq]
  exact waits.paid
/-- A change that leaves the task's virtual time, class and tier alone, and does not put `T` to sleep. -/
lemma Waits.update {handle : Nat} {change : SchedRow → SchedRow}
    (frame : ∀ row, (change row).handle = row.handle ∧ (change row).vruntime = row.vruntime ∧
      (change row).eligibility = row.eligibility ∧ (change row).sched_class = row.sched_class)
    (wakeful : handle = T → ∀ row, candidate row → candidate (change row)) : Waits grant kind T w M total (s.update handle change) := by
  have handles (row : SchedRow) : (if row.handle = handle then change row else row).handle = row.handle := by grind
  have slacks (row : SchedRow) : slack T w M (if row.handle = handle then change row else row) = slack T w M row := by grind [slack]
  obtain ⟨row,mem,named,runs,virtual⟩ := waits.ready
  refine ⟨?_,?_,⟨_,mem_map.mpr ⟨row,mem,rfl⟩,(handles row).trans named,by grind,by grind [Cpu.update]⟩,?_⟩
  · simp only [Cpu.update,map_map,Function.comp_def,handles]
    exact waits.named
  · intro row among
    obtain ⟨old,mem,rfl⟩ := mem_map.mp among
    have like := waits.same old mem
    grind
  · simp only [Cpu.update,map_map,Function.comp_def,slacks]
    exact waits.paid
variable (room : w + EEVDF_BASE_SLICE + M < 2 ^ 64)
include room
lemma Waits.charge {row : SchedRow} (charge : 1 ≤ cycles ∧ cycles ≤ M) (mem : row ∈ s.queue) (other : row.handle ≠ T)
    (behind : row.vruntime ≤ w) (stays : ∀ mine, v_eff mine s.vfloor = w → v_eff mine (bump_vfloor s.vfloor row.vruntime) = w) :
    Waits grant kind T w M total
      ⟨bump_vfloor s.vfloor row.vruntime,s.queue.erase row ++ [charged row cycles awake],(row.handle,cycles) :: s.polls⟩ := by
  have whole := perm_cons_erase mem
  have split := perm_append_singleton (charged row cycles awake) (s.queue.erase row)
  have fits : (row.vruntime + cycles) % 2 ^ 64 = row.vruntime + cycles := Nat.mod_eq_of_lt (by omega)
  refine ⟨?_,?_,?_,?_⟩
  · exact (split.map SchedRow.handle).nodup_iff.mpr ((whole.map SchedRow.handle).nodup_iff.mp waits.named)
  · intro found among
    rcases mem_cons.mp (split.mem_iff.mp among) with eq | old
    · rw [eq]
      exact waits.same row mem
    · exact waits.same found (mem_of_mem_erase old)
  · obtain ⟨mine,among,named,runs,virtual⟩ := waits.ready
    refine ⟨mine,?_,named,runs,stays _ virtual⟩
    have apart : mine ≠ row := fun eq => other (eq ▸ named)
    exact mem_append_left _ ((mem_erase_of_ne apart).mpr among)
  · have before := (whole.map (slack T w M)).sum_eq
    have paid := waits.paid
    rw [(split.map (slack T w M)).sum_eq]
    simp only [map_cons,sum_cons,slack,other,if_false,charged,fits,consumed] at before paid ⊢
    omega
lemma Waits.poll (charge : 1 ≤ cycles ∧ cycles ≤ M) (taken : s.poll cycles awake = some t) :
    Dispatched T t ∨ (Waits grant kind T w M total t ∧ t.consumed = s.consumed + cycles) := by
  obtain ⟨mine,among,_,runs,virtual⟩ := waits.ready
  revert taken
  fun_cases Cpu.poll s cycles awake <;> intro taken <;> cases taken
  all_goals
    rename_i handle picked row found _
    obtain ⟨best,mem,named,ready,first⟩ := pick_next_spec waits.same among runs picked
    have name : row.handle = handle := by simpa using List.find?_some found
    have is : row = best := inj_on_of_nodup_map waits.named (mem_of_find?_eq_some found) mem (name.trans named.symm)
    subst is
  case case3 =>
    by_cases own : row.handle = T
    · exact Or.inl ⟨(handle,cycles),by simp,name ▸ own⟩
    · have before := picked_before virtual room first (by omega)
      rw [← name]
      refine Or.inr ⟨waits.charge room charge mem own before.1 ?_,?_⟩
      · intro vruntime same
        simp only [v_eff,bump_vfloor] at same before ⊢
        omega
      · simp only [consumed,map_cons,sum_cons]
        omega
  case case4 asleep => simp [candidate,asleep] at ready
lemma Waits.step (charge : Charges T M s e) (taken : s.step e = some t) :
    Dispatched T t ∨ (Waits grant kind T w M total t ∧ s.consumed + dispatches [e] ≤ t.consumed) := by
  cases e with
  | dispatch cycles awake =>
    refine (waits.poll room charge taken).imp_right fun ⟨still,ran⟩ => ⟨still,?_⟩
    rw [ran]
    exact Nat.add_le_add_left charge.1 _
  | flag handle awake =>
    cases taken
    refine Or.inr ⟨waits.update (fun _ => ⟨rfl,rfl,rfl,rfl⟩) ?_,le_rfl⟩
    intro own row runs
    simp only [candidate,Bool.and_eq_true] at runs ⊢
    exact ⟨charge own,runs.2⟩
  | renice =>
    cases taken
    exact Or.inr ⟨waits.update (fun _ => ⟨rfl,rfl,rfl,rfl⟩) (fun _ _ runs => runs),le_rfl⟩
  | reorder queue =>
    simp only [Cpu.step,Option.ite_none_right_eq_some,Option.some.injEq] at taken
    obtain ⟨perm,rfl⟩ := taken
    exact Or.inr ⟨waits.perm perm,le_rfl⟩
lemma Waits.run {es : List Event} (meets : Runs.Meets Cpu.step (Charges T M) s es) (reached : Runs.run Cpu.step s es = some t) :
    Dispatched T t ∨ (Waits grant kind T w M total t ∧ s.consumed + dispatches es ≤ t.consumed) := by
  induction es generalizing s with
  | nil => cases reached; exact Or.inr ⟨waits,le_rfl⟩
  | cons e rest ih =>
    obtain ⟨m,taken,later⟩ := Runs.run_cons.mp reached
    rcases waits.step room meets.head taken with done | ⟨still,ran⟩
    · exact Or.inl (Runs.invariant_of_run (fun _ _ _ done taken => done.step taken) done later)
    · refine (ih still (meets.tail taken) later).imp_right (fun ⟨still,more⟩ => ⟨still,?_⟩)
      rw [dispatches_cons]
      omega
end
lemma slack_le_bound (queue : List SchedRow) : (queue.map (slack T w M)).sum ≤ bound T w M queue := by
  refine sum_le_sum fun row _ => ?_
  simp only [slack]
  split
  · exact le_rfl
  · omega
/-- While a runnable task waits, the others are charged no more than what they are behind it plus one dispatch
    each; each dispatch is charged, so the wait ends. -/
theorem waiting_is_bounded {start t : Cpu} {es : List Event} {row : SchedRow} {M : Nat} {grant : BudgetEligibility} {kind : SchedClass}
    (fresh : start.polls = []) (named : (start.queue.map SchedRow.handle).Nodup) (same : OneTier grant kind start.queue)
    (member : row ∈ start.queue) (runs : candidate row = true) (room : v_eff row.vruntime start.vfloor + EEVDF_BASE_SLICE + M < 2 ^ 64)
    (meets : Runs.Meets Cpu.step (Charges row.handle M) start es) (reached : Runs.run Cpu.step start es = some t) :
    Dispatched row.handle t ∨ (dispatches es ≤ t.consumed ∧
      t.consumed ≤ bound row.handle (v_eff row.vruntime start.vfloor) M start.queue) := by
  have none_yet : start.consumed = 0 := by rw [consumed,fresh]; rfl
  have waits : Waits grant kind row.handle (v_eff row.vruntime start.vfloor) M
      (bound row.handle (v_eff row.vruntime start.vfloor) M start.queue) start :=
    ⟨named,same,⟨row,member,rfl,runs,rfl⟩,by rw [none_yet,Nat.zero_add]; exact slack_le_bound _⟩
  refine (waits.run room meets reached).imp_right (fun ⟨still,ran⟩ => ⟨?_,?_⟩)
  · rw [none_yet,Nat.zero_add] at ran
    exact ran
  · exact Nat.le_trans (Nat.le_add_right _ _) still.paid
/-- Two tasks at one virtual time: `0` has the better nice value, `1` waits. -/
def pair (vruntime : Nat) : Cpu :=
  ⟨0,[⟨0,.Default,-5,.Eligible,true,vruntime⟩,⟨1,.Default,0,.Eligible,true,vruntime⟩],[]⟩
theorem waiting_is_bounded_pair : Runs.run Cpu.step (pair 10) [.dispatch 4 false,.flag 0 true] =
        some ⟨10,[⟨1,.Default,0,.Eligible,true,10⟩,⟨0,.Default,-5,.Eligible,true,14⟩],[(0,4)]⟩ ∧
      (1 ≤ 4 ∧ 4 ≤ bound 1 (v_eff 10 0) 4 (pair 10).queue) := by
  have reached : Runs.run Cpu.step (pair 10) [.dispatch 4 false,.flag 0 true] =
      some ⟨10,[⟨1,.Default,0,.Eligible,true,10⟩,⟨0,.Default,-5,.Eligible,true,14⟩],[(0,4)]⟩ := by decide +kernel
  have bounded := @waiting_is_bounded (pair 10) _ _ ⟨1,.Default,0,.Eligible,true,10⟩ 4 .Eligible .Default rfl (by decide +kernel)
    (by unfold OneTier; decide +kernel) (by decide +kernel) (by decide +kernel) (by decide +kernel) (by decide +kernel) reached
  exact ⟨reached,bounded.resolve_left (by decide +kernel)⟩
/-- At the top of the `u64` range a charge wraps and deadlines saturate: task `0` is dispatched twice while `1` waits. -/
theorem waiting_past_bound_at_top :
    (∀ row ∈ (pair (2 ^ 64 - 1)).queue, candidate row = true ∧ row.sched_class = .Default ∧ row.eligibility = .Eligible) ∧
      Runs.Meets Cpu.step (Charges 1 5) (pair (2 ^ 64 - 1)) [.dispatch 5 true,.dispatch 5 true] ∧
      ((Runs.run Cpu.step (pair (2 ^ 64 - 1)) [.dispatch 5 true,.dispatch 5 true]).map
        (fun t => (t.polls,t.consumed))) = some ([(0,5),(0,5)],10) ∧ bound 1 (v_eff (2 ^ 64 - 1) 0) 5 (pair (2 ^ 64 - 1)).queue = 5 := by
  decide +kernel
end Cpu
end Narf.Scheduler.Eevdf
