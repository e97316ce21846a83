import Narf.Scheduler.Budget

namespace Narf.Scheduler.Admission
open Lib List

/-! Realtime admission: a reservation takes its share, in parts per million rounded up, from a counter of
    its capability's domain, one of the system and one of its CPU, each in an atomic step of its own. -/

def RT_CPU_LIMIT_PPM : Nat := 950000
def ADMISSION_DOMAINS : Nat := 256
abbrev MAX_CPUS : Nat := 64
inductive AdmissionError where
  | AuthorityRevoked
  | InvalidContract
  | CpuOffline
  | CpuBandwidthExceeded
  | SystemBandwidthExceeded
  | DomainBandwidthExceeded
  deriving DecidableEq
/-- The products of `u64` values fit the `u128` they are taken in. -/
def utilization_ppm (budget : ResourceBudget) : Option (PeriodBudget × Nat) :=
  match budget.period with
  | none => none
  | some period =>
    if !period.is_valid || period.exhaustion ≠ .Strict || budget.deadline_cycles.isNone then none
    else
      let rounded_up := (period.runtime_cycles * 1000000 + (period.period_cycles - 1)) / period.period_cycles
      if rounded_up ≤ U64_MAX ∧ rounded_up > 0 then some (period,rounded_up) else none
/-- `DOMAIN_RESERVED_PPM[i]`, `SYSTEM_RESERVED_PPM` and `CPU_RESERVED_PPM[i]`. -/
inductive Counter where
  | domain (i : Nat)
  | system
  | cpu (i : Nat)
  deriving DecidableEq
/-- The access that a `reserve` or a drop makes next, with what `reserve` will return where that is decided. -/
inductive Phase where
  | add_domain
  | add_system
  | add_cpu
  | check_live
  | granted
  | sub_cpu (error : Option AdmissionError)
  | sub_system (error : Option AdmissionError)
  | sub_domain (error : Option AdmissionError)
  | ended (error : Option AdmissionError)
  deriving DecidableEq
/-- A call of `reserve` and the reservation that comes of it. -/
structure Attempt where
  phase : Phase
  cpu : Nat
  domain : Nat
  ppm : Nat
  period : PeriodBudget
/-- The counters that have the attempt's share in them. -/
def Attempt.held (a : Attempt) : List Counter :=
  match a.phase with
  | .add_domain | .ended _ => []
  | .add_system | .sub_domain _ => [.domain a.domain]
  | .add_cpu | .sub_system _ => [.system,.domain a.domain]
  | .check_live | .granted | .sub_cpu _ => [.cpu a.cpu,.system,.domain a.domain]
structure World where
  reserved : Counter → Nat
  attempts : List Attempt

namespace World

inductive Event where
  | reserve (live : Bool) (slot_index cpu : Nat) (budget : ResourceBudget)
  | step (i : Nat) (live : Bool)
  | drop (i : Nat)
def new : World := ⟨fun _ => 0,[]⟩
variable (online : Finset (Fin MAX_CPUS))
def is_online (cpu : Nat) : Bool := if h : cpu < MAX_CPUS then decide (⟨cpu,h⟩ ∈ online) else false
def limit : Counter → Nat
  | .domain _ | .cpu _ => RT_CPU_LIMIT_PPM
  | .system => saturating_mul RT_CPU_LIMIT_PPM (max online.card 1)
def put (s : World) (i : Nat) (a : Attempt) : World := { s with attempts := s.attempts.set i a }
def add_bounded (s : World) (i : Nat) (a : Attempt) (k : Counter) (added failed : Phase) : World :=
  if s.reserved k + a.ppm ≤ U64_MAX ∧ s.reserved k + a.ppm ≤ limit online k then
    { s with reserved := Function.update s.reserved k (s.reserved k + a.ppm) }.put i { a with phase := added }
  else s.put i { a with phase := failed }
def fetch_sub (s : World) (i : Nat) (a : Attempt) (k : Counter) (next : Phase) : World :=
  { s with reserved := Function.update s.reserved k ((s.reserved k + 2 ^ 64 - a.ppm) % 2 ^ 64) }.put i { a with phase := next }
/-- The next access of a call; a granted reservation waits for its drop. -/
def act (s : World) (i : Nat) (a : Attempt) (live : Bool) : Option World :=
  match a.phase with
  | .add_domain => some (s.add_bounded online i a (.domain a.domain) .add_system (.ended (some .DomainBandwidthExceeded)))
  | .add_system => some (s.add_bounded online i a .system .add_cpu (.sub_domain (some .SystemBandwidthExceeded)))
  | .add_cpu => some (s.add_bounded online i a (.cpu a.cpu) .check_live (.sub_system (some .CpuBandwidthExceeded)))
  | .check_live => some (s.put i { a with phase := if live then .granted else .sub_cpu (some .AuthorityRevoked) })
  | .sub_cpu error => some (s.fetch_sub i a (.cpu a.cpu) (.sub_system error))
  | .sub_system error => some (s.fetch_sub i a .system (.sub_domain error))
  | .sub_domain error => some (s.fetch_sub i a (.domain a.domain) (.ended error))
  | .granted | .ended _ => none
/-- The checks of `reserve` that come before its first counter. -/
def reserve (live : Bool) (slot_index cpu : Nat) (budget : ResourceBudget) : Except AdmissionError Attempt :=
  if !live then .error .AuthorityRevoked
  else match utilization_ppm budget with
    | none => .error .InvalidContract
    | some (period,ppm) =>
      if cpu ≥ MAX_CPUS || !is_online online cpu then .error .CpuOffline
      else .ok ⟨.add_domain,cpu,slot_index % ADMISSION_DOMAINS,ppm,period⟩
def step (s : World) : Event → Option World
  | .reserve live slot_index cpu budget => match reserve online live slot_index cpu budget with
    | .ok a => some { s with attempts := s.attempts ++ [a] }
    | .error _ => some s
  | .step i live => match s.attempts[i]? with
    | some a => s.act online i a live
    | none => none
  | .drop i => match s.attempts[i]? with
    | some a => if a.phase = .granted then some (s.put i { a with phase := .sub_cpu none }) else none
    | none => none
end World

def Attempt.share (k : Counter) (a : Attempt) : Nat := if k ∈ a.held then a.ppm else 0
lemma sum_set {f : Attempt → Nat} {l : List Attempt} {i : Nat} {a : Attempt} (there : l[i]? = some a) (b : Attempt) :
    ((l.set i b).map f).sum + f a = (l.map f).sum + f b := by
  induction l generalizing i with
  | nil => cases there
  | cons x rest ih =>
    cases i with
    | zero =>
      cases there
      simp only [set_cons_zero,map_cons,sum_cons]
      omega
    | succ i =>
      have later := ih there
      simp only [set_cons_succ,map_cons,sum_cons]
      omega

namespace World
variable {online : Finset (Fin MAX_CPUS)} {s t : World} {i : Nat} {a b : Attempt} {k : Counter}
/-- The counters have the shares of the attempts in them and keep their limits, and a share covers the
    fraction of the CPU that it stands for. -/
structure Sound (online : Finset (Fin MAX_CPUS)) (s : World) : Prop where
  counted : ∀ k, s.reserved k = (s.attempts.map (Attempt.share k)).sum
  bounded : ∀ k, s.reserved k ≤ limit online k
  covered : ∀ a ∈ s.attempts, 0 < a.period.period_cycles ∧ a.period.runtime_cycles * 1000000 ≤ a.ppm * a.period.period_cycles
lemma limit_lt (k : Counter) : limit online k < 2 ^ 64 := by
  cases k with
  | domain i | cpu i => exact (by decide : RT_CPU_LIMIT_PPM < 2 ^ 64)
  | system => exact lt_of_le_of_lt (min_le_right ..) (by decide)
lemma share_le (inside : a ∈ s.attempts) (k : Counter) : a.share k ≤ (s.attempts.map (Attempt.share k)).sum :=
  single_le_sum (fun _ _ => Nat.zero_le _) _ (mem_map_of_mem inside)
section
variable (sound : s.Sound online) (there : s.attempts[i]? = some a)
include sound there
lemma Sound.move {q : Phase} (attempts : t.attempts = s.attempts.set i { a with phase := q })
    (moves : ∀ k, t.reserved k + a.share k = s.reserved k + Attempt.share k { a with phase := q })
    (bounded : ∀ k, t.reserved k ≤ limit online k) : t.Sound online := by
  refine ⟨fun k => ?_,bounded,fun b inside => ?_⟩
  · have sums := sum_set (f := Attempt.share k) there { a with phase := q }
    have moved := moves k
    have counted := sound.counted k
    rw [attempts]
    omega
  · rw [attempts] at inside
    rcases mem_or_eq_of_mem_set inside with old | rfl
    · exact sound.covered b old
    · exact sound.covered a (mem_of_getElem? there)
lemma Sound.keep {q : Phase} (same : Attempt.held { a with phase := q } = a.held) : (s.put i { a with phase := q }).Sound online := by
  refine sound.move there rfl (fun k => ?_) sound.bounded
  simp only [Attempt.share,same]
  rfl
lemma Sound.add {added failed : Phase} (fresh : k ∉ a.held)
    (gains : Attempt.held { a with phase := added } = k :: a.held) (same : Attempt.held { a with phase := failed } = a.held) :
    (s.add_bounded online i a k added failed).Sound online := by
  unfold add_bounded
  split
  · next room =>
    refine sound.move there rfl (fun j => ?_) fun j => ?_
    all_goals
      by_cases here : j = k
      · subst here
        simp [put,Attempt.share,gains,fresh,room.2]
      · simp [put,Attempt.share,gains,here,sound.bounded j]
  · exact sound.keep there same
lemma Sound.sub {next : Phase}
    (loses : a.held = k :: Attempt.held { a with phase := next }) (fresh : k ∉ Attempt.held { a with phase := next }) :
    (s.fetch_sub i a k next).Sound online := by
  have enough : a.ppm ≤ s.reserved k := by
    have := share_le (mem_of_getElem? there) k
    rw [← sound.counted k,Attempt.share,if_pos (by rw [loses]; exact mem_cons_self)] at this
    exact this
  have small := lt_of_le_of_lt (sound.bounded k) (limit_lt k)
  have difference : (s.reserved k + 2 ^ 64 - a.ppm) % 2 ^ 64 = s.reserved k - a.ppm := by omega
  have before := sound.bounded k
  refine sound.move there rfl (fun j => ?_) fun j => ?_
  all_goals
    simp only [fetch_sub,put,difference]
    by_cases here : j = k
    · subst here
      simp only [Function.update_self,Attempt.share,loses,fresh,mem_cons_self,if_true,if_false]
      omega
    · simp [Attempt.share,loses,here,sound.bounded j]
lemma Sound.act {live : Bool} (taken : s.act online i a live = some t) : t.Sound online := by
  unfold World.act at taken
  split at taken
  case h_8 | h_9 => cases taken
  all_goals
    next phase =>
    cases taken
    first
    | exact sound.add there (by simp [Attempt.held,phase]) (by simp [Attempt.held,phase]) (by simp [Attempt.held,phase])
    | exact sound.sub there (by simp [Attempt.held,phase]) (by simp [Attempt.held])
    | exact sound.keep there (by cases live <;> simp [Attempt.held,phase])
end

variable {budget : ResourceBudget}
lemma covers_utilization {period : PeriodBudget} {ppm : Nat} (valid : utilization_ppm budget = some (period,ppm)) :
    0 < period.period_cycles ∧ period.runtime_cycles * 1000000 ≤ ppm * period.period_cycles := by
  unfold utilization_ppm at valid
  split at valid
  · cases valid
  · next p _ =>
    simp only [Option.ite_none_left_eq_some,Option.ite_none_right_eq_some,Option.some.injEq,Prod.mk.injEq] at valid
    obtain ⟨legal,_,rfl,rfl⟩ := valid
    have positive : 0 < p.period_cycles := by
      by_contra absent
      apply legal
      simp [PeriodBudget.is_valid,Nat.eq_zero_of_not_pos absent]
    refine ⟨positive,?_⟩
    have split := Nat.div_add_mod (p.runtime_cycles * 1000000 + (p.period_cycles - 1)) p.period_cycles
    have small := Nat.mod_lt (p.runtime_cycles * 1000000 + (p.period_cycles - 1)) positive
    rw [mul_comm] at split
    omega
lemma reserve_ok {live : Bool} {slot_index cpu : Nat} (passed : reserve online live slot_index cpu budget = .ok a) :
    a.held = [] ∧ 0 < a.period.period_cycles ∧ a.period.runtime_cycles * 1000000 ≤ a.ppm * a.period.period_cycles := by
  unfold reserve at passed
  split at passed
  · cases passed
  · split at passed
    · cases passed
    · next valid =>
      split at passed
      · cases passed
      · cases passed
        exact ⟨rfl,covers_utilization valid⟩
lemma sound_step (s : World) (e : Event) (t : World) (sound : s.Sound online) (taken : s.step online e = some t) : t.Sound online := by
  cases e with
  | reserve live slot_index cpu budget =>
    simp only [step] at taken
    split at taken
    · next a passed =>
      cases taken
      obtain ⟨nothing,covers⟩ := reserve_ok passed
      refine ⟨fun k => ?_,sound.bounded,fun b inside => ?_⟩
      · simp [sound.counted k,Attempt.share,nothing]
      · rcases mem_append.mp inside with old | new
        · exact sound.covered b old
        · rw [mem_singleton.mp new]
          exact covers
    · cases taken
      exact sound
  | step i live =>
    simp only [step] at taken
    split at taken
    · next a there => exact sound.act there taken
    · cases taken
  | drop i =>
    simp only [step] at taken
    split at taken
    · next a there =>
      split at taken
      · next phase =>
        cases taken
        exact sound.keep there (by simp [Attempt.held,phase])
      · cases taken
    · cases taken
/-- The fraction of the CPU reserved by the live reservations on it. -/
def utilization (l : List Attempt) (cpu : Nat) : ℚ :=
  ((l.filter fun a => a.phase = .granted ∧ a.cpu = cpu).map fun a => (a.period.runtime_cycles : ℚ) / a.period.period_cycles).sum
lemma utilization_le {l : List Attempt} (cpu : Nat)
    (covered : ∀ a ∈ l, 0 < a.period.period_cycles ∧ a.period.runtime_cycles * 1000000 ≤ a.ppm * a.period.period_cycles) :
    utilization l cpu * 1000000 ≤ ((l.map (Attempt.share (.cpu cpu))).sum : ℕ) := by
  induction l with
  | nil => simp [utilization]
  | cons a rest ih =>
    have later := ih fun b inside => covered b (mem_cons_of_mem a inside)
    rw [utilization] at later ⊢
    rw [map_cons,sum_cons,Nat.cast_add]
    by_cases live : a.phase = .granted ∧ a.cpu = cpu
    · obtain ⟨positive,covers⟩ := covered a mem_cons_self
      have share : a.share (.cpu cpu) = a.ppm := by simp [Attempt.share,Attempt.held,live]
      have fraction : (a.period.runtime_cycles : ℚ) / a.period.period_cycles * 1000000 ≤ a.ppm := by
        rw [div_mul_eq_mul_div,div_le_iff₀ (by exact_mod_cast positive)]
        exact_mod_cast covers
      rw [filter_cons_of_pos (by simpa using live),map_cons,sum_cons,share]
      linarith
    · rw [filter_cons_of_neg (by simpa using live)]
      linarith
/-- In every interleaving of reservations and drops, at every moment: the live reservations of a CPU
    take at most 95 of 100 of it; each counter is the sum of the shares of the live reservations and of
    the calls that are under way; what a call will take back is there; and with nothing live or under
    way the counters are zero. -/
theorem never_overcommits (online : Finset (Fin MAX_CPUS)) (es : List Event) (s : World)
    (reached : Runs.run (step online) new es = some s) :
    (∀ cpu, utilization s.attempts cpu ≤ 95 / 100) ∧ (∀ k, s.reserved k = (s.attempts.map (Attempt.share k)).sum) ∧
    (∀ a ∈ s.attempts, ∀ k ∈ a.held, a.ppm ≤ s.reserved k) ∧
    ((∀ a ∈ s.attempts, ∃ error, a.phase = .ended error) → ∀ k, s.reserved k = 0) := by
  have sound : s.Sound online := Runs.invariant_of_run (I := Sound online) sound_step
    ⟨fun _ => rfl,fun _ => Nat.zero_le _,fun _ absent => (not_mem_nil absent).elim⟩ reached
  refine ⟨fun cpu => ?_,sound.counted,fun a inside k held => ?_,fun idle k => ?_⟩
  · have used := utilization_le cpu sound.covered
    rw [← sound.counted] at used
    have bound : (s.reserved (.cpu cpu) : ℚ) ≤ 950000 := by exact_mod_cast sound.bounded (.cpu cpu)
    linarith
  · have := share_le inside k
    rw [← sound.counted k,Attempt.share,if_pos held] at this
    exact this
  · rw [sound.counted k]
    apply sum_eq_zero
    intro x inside
    obtain ⟨a,member,rfl⟩ := mem_map.mp inside
    obtain ⟨error,phase⟩ := idle a member
    simp [Attempt.share,Attempt.held,phase]

def half : ResourceBudget := ⟨some 0,some ⟨50,100,0,.Strict⟩⟩
/-- A reservation is granted on CPU 0 while a second one is turned down at the CPU's counter and rolls back. -/
def contended : List Event :=
  [.reserve true 1 0 half,.reserve true 2 0 half] ++ List.replicate 3 (.step 0 true) ++ List.replicate 3 (.step 1 true) ++ [.step 0 true,.step 1 true]
theorem never_overcommits_contended : ∃ s, Runs.run (step {0,1}) new contended = some s ∧ s.reserved (.cpu 0) = 500000 ∧
    utilization s.attempts 0 ≤ 95 / 100 := by
  have runs : (Runs.run (step {0,1}) new contended).map (fun s => s.reserved (.cpu 0)) = some 500000 := by decide +kernel
  obtain ⟨s,reached,counter⟩ := Option.map_eq_some_iff.mp runs
  exact ⟨s,reached,counter,(never_overcommits {0,1} contended s reached).1 0⟩
end World
end Narf.Scheduler.Admission
