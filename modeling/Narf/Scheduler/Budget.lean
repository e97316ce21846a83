import Narf.Lib.Runs

namespace Narf.Scheduler
open Lib Option

/-! A task's periodic CPU budget: runtime is granted at the boundaries of a grid that starts with the
    first dispatch, and what is run beyond it is a debt that later grants repay. -/

abbrev U64_MAX : Nat := 2 ^ 64 - 1
def saturating_add (a b : Nat) : Nat := min (a + b) U64_MAX
def saturating_mul (a b : Nat) : Nat := min (a * b) U64_MAX
lemma saturating_add_eq {a b : Nat} (small : a + b < 2 ^ 64) : saturating_add a b = a + b :=
  min_eq_left (Nat.le_sub_one_of_lt small)
lemma saturating_mul_eq {a b : Nat} (small : b * a < 2 ^ 64) : saturating_mul a b = b * a := by
  rw [saturating_mul,mul_comm]
  exact min_eq_left (Nat.le_sub_one_of_lt small)
inductive ExhaustionPolicy where
  | Strict
  | IdleBorrow
  deriving DecidableEq
structure PeriodBudget where
  runtime_cycles : Nat
  period_cycles : Nat
  max_borrow_cycles : Nat
  exhaustion : ExhaustionPolicy
def PeriodBudget.is_valid (p : PeriodBudget) : Bool :=
  p.runtime_cycles > 0 && p.period_cycles > 0 && p.runtime_cycles ≤ p.period_cycles &&
    (p.exhaustion = .IdleBorrow || p.max_borrow_cycles = 0)
structure ResourceBudget where
  deadline_cycles : Option Nat
  /-- `none` means no limit by periods. -/
  period : Option PeriodBudget
inductive BudgetEligibility where
  | Eligible
  | Borrowable
  | Throttled
  deriving DecidableEq
structure BudgetView where
  eligibility : BudgetEligibility
  remaining_cycles : Nat
  replenish_at_cycles : Option Nat
  borrowed_cycles : Nat
  debt_cycles : Nat
inductive ChargeOutcome where
  | Continue
  | PeriodExhausted
/-- The part of the account that belongs to the period. `replenish_at_cycles` is 0 until the first dispatch. -/
structure BudgetAccount where
  period_start_cycles : Nat
  replenish_at_cycles : Nat
  runtime_remaining_cycles : Nat
  borrowed_cycles : Nat
  debt_cycles : Nat
  deriving DecidableEq

namespace BudgetAccount
def new : BudgetAccount := ⟨0,0,0,0,0⟩
def eligibility (period : PeriodBudget) (remaining borrowed : Nat) : BudgetEligibility :=
  if remaining > 0 then .Eligible
  else if period.exhaustion = .IdleBorrow ∧ borrowed < period.max_borrow_cycles then .Borrowable
  else .Throttled
def view (a : BudgetAccount) (now : Nat) (budget : ResourceBudget) : BudgetView :=
  match budget.period with
  | none => ⟨.Eligible,U64_MAX,none,0,a.debt_cycles⟩
  | some period =>
    if a.replenish_at_cycles = 0 then
      ⟨eligibility period period.runtime_cycles 0,period.runtime_cycles,some (saturating_add now period.period_cycles),0,a.debt_cycles⟩
    else if now ≥ a.replenish_at_cycles then
      let periods := saturating_add ((now - a.replenish_at_cycles) / period.period_cycles) 1
      let prior_capacity := saturating_mul period.runtime_cycles (periods - 1)
      let debt_at_current := a.debt_cycles - prior_capacity
      let payment := min period.runtime_cycles debt_at_current
      ⟨eligibility period (period.runtime_cycles - payment) 0,period.runtime_cycles - payment,
        some (saturating_add a.replenish_at_cycles (saturating_mul period.period_cycles periods)),0,debt_at_current - payment⟩
    else
      ⟨eligibility period a.runtime_remaining_cycles a.borrowed_cycles,a.runtime_remaining_cycles,some a.replenish_at_cycles,
        a.borrowed_cycles,a.debt_cycles⟩
def prepare (a : BudgetAccount) (now : Nat) (budget : ResourceBudget) : BudgetAccount × BudgetView :=
  let view := a.view now budget
  match budget.period with
  | none => (a,view)
  | some period =>
    let replenish_at := view.replenish_at_cycles.getD 0
    if a.replenish_at_cycles = 0 ∨ now ≥ a.replenish_at_cycles then
      (⟨replenish_at - period.period_cycles,replenish_at,view.remaining_cycles,view.borrowed_cycles,view.debt_cycles⟩,view)
    else (a,view)
def charge_period (a : BudgetAccount) (cycles : Nat) (budget : ResourceBudget) (allow_borrow : Bool) : BudgetAccount × ChargeOutcome :=
  match budget.period with
  | none => (a,.Continue)
  | some period =>
    let regular := min cycles a.runtime_remaining_cycles
    let a := { a with runtime_remaining_cycles := a.runtime_remaining_cycles - regular }
    let excess := cycles - regular
    if excess = 0 then (a,.Continue)
    else if allow_borrow = true ∧ period.exhaustion = .IdleBorrow then
      let borrowed := min excess (period.max_borrow_cycles - a.borrowed_cycles)
      let a := { a with
        borrowed_cycles := saturating_add a.borrowed_cycles borrowed
        debt_cycles := saturating_add a.debt_cycles borrowed }
      if borrowed = excess then (a,.Continue)
      else ({ a with debt_cycles := saturating_add a.debt_cycles (excess - borrowed) },.PeriodExhausted)
    else ({ a with debt_cycles := saturating_add a.debt_cycles excess },.PeriodExhausted)
end BudgetAccount
/-- A task's account with the times of its first and last `prepare`, the cycles charged so far, and those charged
    past the runtime of the period while borrowing was allowed. -/
structure Ledger where
  account : BudgetAccount
  span : Option (Nat × Nat)
  charged : Nat
  beyond : Nat
  deriving DecidableEq

namespace Ledger

inductive Event where
  | prepare (now : Nat)
  | charge_period (cycles : Nat) (allow_borrow : Bool)
def new : Ledger := ⟨.new,none,0,0⟩
/-- Time does not go back, and a charge follows a `prepare`. -/
def step (budget : ResourceBudget) (s : Ledger) : Event → Option Ledger
  | .prepare now => match s.span with
    | none => some ⟨(s.account.prepare now budget).1,some (now,now),s.charged,0⟩
    | some (first,last) =>
      if last ≤ now then some ⟨(s.account.prepare now budget).1,some (first,now),s.charged,
        if s.account.replenish_at_cycles ≤ now then 0 else s.beyond⟩ else none
  | .charge_period cycles allow_borrow => match s.span with
    | none => none
    | some _ => some ⟨(s.account.charge_period cycles budget allow_borrow).1,s.span,s.charged + cycles,
        if allow_borrow = true ∧ budget.period.any (·.exhaustion = .IdleBorrow) = true then
          s.beyond + (cycles - s.account.runtime_remaining_cycles) else s.beyond⟩
/-- The values are far from `2 ^ 64`. -/
def Far (period : PeriodBudget) (s : Ledger) : Event → Prop
  | .prepare now => now + period.period_cycles < 2 ^ 64
  | .charge_period cycles _ => s.charged + cycles < 2 ^ 64
instance (period : PeriodBudget) (s : Ledger) : DecidablePred (s.Far period) := fun e => by
  unfold Far; split <;> infer_instance
/-- The account after `k` grants since `first`, the last of them the one in force at `last`. -/
structure Solvent (period : PeriodBudget) (a : BudgetAccount) (first last k charged beyond : Nat) : Prop where
  conserved : charged + a.runtime_remaining_cycles ≤ k * period.runtime_cycles + a.debt_cycles
  grid : a.replenish_at_cycles = first + k * period.period_cycles
  after : last < a.replenish_at_cycles
  near : a.replenish_at_cycles ≤ last + period.period_cycles
  paid : 0 < a.runtime_remaining_cycles → a.debt_cycles = 0
  lent : a.borrowed_cycles = min beyond period.max_borrow_cycles
  within : beyond ≤ charged
  owed : a.debt_cycles ≤ charged
  started : 0 < k
/-- Before the first dispatch the account is new. -/
def Sound (period : PeriodBudget) (s : Ledger) : Prop :=
  match s.span with
  | none => s = new
  | some (first,last) => first ≤ last ∧ ∃ k, Solvent period s.account first last k s.charged s.beyond

variable {period : PeriodBudget} {budget : ResourceBudget} {a : BudgetAccount} {first last now k charged beyond : Nat}
lemma due_grants (positive : 0 < period.period_cycles) {boundary : Nat} (due : boundary ≤ now) :
    now < boundary + ((now - boundary) / period.period_cycles + 1) * period.period_cycles ∧
    boundary + ((now - boundary) / period.period_cycles + 1) * period.period_cycles ≤ now + period.period_cycles := by
  have split := Nat.div_add_mod (now - boundary) period.period_cycles
  have small := Nat.mod_lt (now - boundary) positive
  rw [Nat.add_mul,one_mul,mul_comm]
  omega
lemma Solvent.first_grant (has : budget.period = some period) (valid : period.is_valid)
    (far : now + period.period_cycles < 2 ^ 64) : Solvent period (BudgetAccount.new.prepare now budget).1 now now 1 0 0 := by
  simp only [PeriodBudget.is_valid,Bool.and_eq_true,decide_eq_true_eq] at valid
  have account : (BudgetAccount.new.prepare now budget).1 =
      ⟨now,now + period.period_cycles,period.runtime_cycles,0,0⟩ := by
    simp [BudgetAccount.prepare,BudgetAccount.view,has,BudgetAccount.new,saturating_add_eq far]
  rw [account]
  exact ⟨by simp,by simp,by simp only; omega,le_refl _,fun _ => rfl,by simp,le_refl _,le_refl _,Nat.one_pos⟩
lemma Solvent.wait (solvent : Solvent period a first last k charged beyond) (early : now < a.replenish_at_cycles) (later : last ≤ now) :
    Solvent period a first now k charged beyond :=
  { solvent with after := early, near := le_trans solvent.near (Nat.add_le_add_right later _) }
section
variable (has : budget.period = some period)
include has
lemma Solvent.grant (valid : period.is_valid)
    (solvent : Solvent period a first last k charged beyond) (due : a.replenish_at_cycles ≤ now) (far : now + period.period_cycles < 2 ^ 64) :
    Solvent period (a.prepare now budget).1 first now (k + ((now - a.replenish_at_cycles) / period.period_cycles + 1)) charged 0 := by
  simp only [PeriodBudget.is_valid,Bool.and_eq_true,decide_eq_true_eq] at valid
  obtain ⟨⟨⟨runs,positive⟩,within⟩,_⟩ := valid
  obtain ⟨passes,close⟩ := due_grants positive due
  generalize missed : (now - a.replenish_at_cycles) / period.period_cycles = q at passes close ⊢
  have used : a.replenish_at_cycles ≠ 0 := by have := solvent.after; omega
  have small : q ≤ (q + 1) * period.period_cycles := le_trans (Nat.le_succ q) (Nat.le_mul_of_pos_right _ positive)
  have count : saturating_add q 1 = q + 1 := saturating_add_eq (by omega)
  have order : q * period.runtime_cycles ≤ (q + 1) * period.period_cycles := Nat.mul_le_mul (Nat.le_succ q) within
  have capacity : saturating_mul period.runtime_cycles q = q * period.runtime_cycles := saturating_mul_eq (by omega)
  have distance : saturating_mul period.period_cycles (q + 1) = (q + 1) * period.period_cycles := saturating_mul_eq (by omega)
  have boundary : saturating_add a.replenish_at_cycles ((q + 1) * period.period_cycles) =
      a.replenish_at_cycles + (q + 1) * period.period_cycles := saturating_add_eq (by omega)
  have account : (a.prepare now budget).1 =
      ⟨a.replenish_at_cycles + (q + 1) * period.period_cycles - period.period_cycles,
        a.replenish_at_cycles + (q + 1) * period.period_cycles,
        period.runtime_cycles - min period.runtime_cycles (a.debt_cycles - q * period.runtime_cycles),0,
        a.debt_cycles - q * period.runtime_cycles - min period.runtime_cycles (a.debt_cycles - q * period.runtime_cycles)⟩ := by
    simp [BudgetAccount.prepare,BudgetAccount.view,has,used,due,missed,count,capacity,distance,boundary]
  have total : (k + (q + 1)) * period.runtime_cycles = k * period.runtime_cycles + q * period.runtime_cycles + period.runtime_cycles := by
    rw [Nat.add_mul,Nat.add_mul,one_mul,add_assoc]
  have place : (k + (q + 1)) * period.period_cycles = k * period.period_cycles + (q + 1) * period.period_cycles := Nat.add_mul ..
  rw [account]
  obtain ⟨conserved,grid,_,_,_,_,_,owed,_⟩ := solvent
  refine ⟨?_,?_,passes,close,?_,?_,Nat.zero_le _,?_,by omega⟩
  all_goals dsimp only
  all_goals omega
lemma Solvent.charge (solvent : Solvent period a first last k charged beyond) (cycles : Nat) (allow_borrow : Bool)
    (far : charged + cycles < 2 ^ 64) : Solvent period (a.charge_period cycles budget allow_borrow).1 first last k (charged + cycles)
      (if allow_borrow = true ∧ budget.period.any (·.exhaustion = .IdleBorrow) = true then
        beyond + (cycles - a.runtime_remaining_cycles) else beyond) := by
  obtain ⟨conserved,grid,after,near,paid,lent,within,owed,started⟩ := solvent
  -- the sums stay below what is charged, so none of them saturates
  have exact_sum : ∀ {x : Nat}, x ≤ cycles → saturating_add a.debt_cycles x = a.debt_cycles + x :=
    fun bound => saturating_add_eq (by omega)
  unfold BudgetAccount.charge_period
  simp only [has,any_some,decide_eq_true_eq]
  by_cases fits : cycles - min cycles a.runtime_remaining_cycles = 0
  · have same : cycles - a.runtime_remaining_cycles = 0 := by omega
    simp only [if_pos fits,same,Nat.add_zero,ite_self]
    exact ⟨by dsimp only; omega,grid,after,near,fun left => paid (by dsimp only at left; omega),lent,by omega,by dsimp only; omega,started⟩
  · simp only [if_neg fits]
    -- the period's runtime is used up, and the rest is owed
    have owing {b d n : Nat} (lent : b = min n period.max_borrow_cycles) (bound : n ≤ charged + cycles)
        (debt : d = a.debt_cycles + (cycles - min cycles a.runtime_remaining_cycles)) :
        Solvent period ⟨a.period_start_cycles,a.replenish_at_cycles,a.runtime_remaining_cycles - min cycles a.runtime_remaining_cycles,b,d⟩
          first last k (charged + cycles) n :=
      ⟨by dsimp only; omega,grid,after,near,fun left => (by dsimp only at left; omega),lent,bound,by dsimp only; omega,started⟩
    split
    · generalize part : min (cycles - min cycles a.runtime_remaining_cycles) (period.max_borrow_cycles - a.borrowed_cycles) = borrowed
      have lent' : saturating_add a.borrowed_cycles borrowed =
          min (beyond + (cycles - a.runtime_remaining_cycles)) period.max_borrow_cycles :=
        (saturating_add_eq (by omega)).trans (by omega)
      rw [exact_sum (by omega)]
      split
      · exact owing lent' (by omega) (by omega)
      · exact owing lent' (by omega) ((saturating_add_eq (by omega)).trans (by omega))
    · exact owing lent (by omega) (exact_sum (by omega))
lemma prepare_early (used : a.replenish_at_cycles ≠ 0) (early : now < a.replenish_at_cycles) : (a.prepare now budget).1 = a := by
  simp [BudgetAccount.prepare,has,used,Nat.not_le.mpr early]
lemma sound_step (valid : period.is_valid) (s : Ledger) (e : Event) (t : Ledger)
    (sound : s.Sound period) (far : s.Far period e) (taken : step budget s e = some t) : t.Sound period := by
  cases e with
  | prepare now =>
    cases begun : s.span with
    | none =>
      rw [Sound,begun] at sound
      subst sound
      rw [← some.inj taken]
      exact ⟨le_refl _,1,Solvent.first_grant has valid far⟩
    | some span =>
      obtain ⟨first,last⟩ := span
      rw [step,begun] at taken
      rw [Sound,begun] at sound
      obtain ⟨order,k,solvent⟩ := sound
      by_cases later : last ≤ now
      · simp only [if_pos later,some.injEq] at taken
        rw [← taken]
        refine ⟨le_trans order later,?_⟩
        by_cases due : s.account.replenish_at_cycles ≤ now
        · rw [if_pos due]
          exact ⟨_,solvent.grant has valid due far⟩
        · have early := Nat.lt_of_not_le due
          refine ⟨k,?_⟩
          rw [if_neg due,prepare_early has (Nat.ne_zero_of_lt early) early]
          exact solvent.wait early later
      · simp only [if_neg later,reduceCtorEq] at taken
  | charge_period cycles allow_borrow =>
    cases begun : s.span with
    | none => simp only [step,begun,reduceCtorEq] at taken
    | some span =>
      simp only [step,begun,some.injEq] at taken
      rw [Sound,begun] at sound
      rw [← taken]
      obtain ⟨order,k,solvent⟩ := sound
      exact ⟨order,k,solvent.charge has cycles allow_borrow far⟩
end
lemma Solvent.periods (solvent : Solvent period a first last k charged beyond) (order : first ≤ last) :
    k = (last - first) / period.period_cycles + 1 := by
  obtain ⟨_,grid,after,near,_,_,_,_,started⟩ := solvent
  have pred : k = (k - 1) + 1 := by omega
  have expand : k * period.period_cycles = (k - 1) * period.period_cycles + period.period_cycles := by
    rw [pred,Nat.add_sub_cancel,Nat.add_mul,one_mul]
  rw [pred]
  congr 1
  symm
  apply Nat.div_eq_of_lt_le
  · omega
  · rw [Nat.succ_mul]
    omega

def established (period : PeriodBudget) (a : BudgetAccount) : BudgetView :=
  ⟨BudgetAccount.eligibility period a.runtime_remaining_cycles a.borrowed_cycles,a.runtime_remaining_cycles,
    some a.replenish_at_cycles,a.borrowed_cycles,a.debt_cycles⟩
lemma view_prepare (has : budget.period = some period) (a : BudgetAccount) (now : Nat) :
    a.view now budget = established period (a.prepare now budget).1 := by
  by_cases unused : a.replenish_at_cycles = 0
  · simp [BudgetAccount.prepare,BudgetAccount.view,has,unused,established]
  · by_cases due : a.replenish_at_cycles ≤ now
    · simp [BudgetAccount.prepare,BudgetAccount.view,has,unused,due,established]
    · simp [BudgetAccount.prepare,BudgetAccount.view,has,unused,due,established]
/-- In every history of dispatches the cycles charged and the runtime left are covered by the periods
    started and the debt; the boundary is on the grid and after the last dispatch; runtime is left only
    without debt; what was borrowed is what was charged past the runtime of the period, up to the limit; and a view shows what `prepare` at its
    time establishes. -/
theorem bandwidth_never_minted (budget : ResourceBudget) (period : PeriodBudget) (has : budget.period = some period)
    (valid : period.is_valid = true) (es : List Event) (s : Ledger) (far : Runs.Meets (step budget) (Far period) new es)
    (reached : Runs.run (step budget) new es = some s) : (∀ first last, s.span = some (first,last) →
      s.charged + s.account.runtime_remaining_cycles ≤
        ((last - first) / period.period_cycles + 1) * period.runtime_cycles + s.account.debt_cycles ∧
      (∃ k, s.account.replenish_at_cycles = first + k * period.period_cycles) ∧ last < s.account.replenish_at_cycles) ∧
    (0 < s.account.runtime_remaining_cycles → s.account.debt_cycles = 0) ∧ s.account.borrowed_cycles = min s.beyond period.max_borrow_cycles ∧
    ∀ now, s.account.view now budget = established period (s.account.prepare now budget).1 := by
  have sound : s.Sound period := Runs.invariant_of_meets (I := Sound period) (sound_step has valid) (show new.Sound period from rfl) far reached
  cases begun : s.span with
  | none =>
    rw [Sound,begun] at sound
    subst sound
    exact ⟨fun _ _ begun => (by cases begun),fun left => (Nat.lt_irrefl 0 left).elim,(Nat.zero_min _).symm,view_prepare has _⟩
  | some span =>
    rw [Sound,begun] at sound
    obtain ⟨order,k,solvent⟩ := sound
    refine ⟨?_,solvent.paid,solvent.lent,view_prepare has _⟩
    rintro first last same
    cases same
    rw [← solvent.periods order]
    exact ⟨solvent.conserved,⟨k,solvent.grid⟩,solvent.after⟩
/-- 30 cycles of every 100, up to 10 borrowed. -/
def shared : PeriodBudget := ⟨30,100,10,.IdleBorrow⟩
/-- A run over the budget by 50 cycles, 10 of them borrowed, then a dispatch two periods later. -/
def overrun : List Event := [.prepare 1000,.charge_period 80 true,.prepare 1250]
theorem bandwidth_never_minted_overrun :
    Runs.run (step ⟨none,some shared⟩) new overrun = some ⟨⟨1200,1300,10,0,0⟩,some (1000,1250),80,0⟩ ∧ 80 + 10 ≤ (250 / 100 + 1) * 30 + 0 :=
  ⟨by decide,((bandwidth_never_minted ⟨none,some shared⟩ shared rfl (by decide) overrun ⟨⟨1200,1300,10,0,0⟩,some (1000,1250),80,0⟩
    (by decide) (by decide)).1 1000 1250 rfl).1⟩
end Ledger
end Narf.Scheduler
