import Mathlib

/-! Computations that may fail and that log notes as they go. A computation that only
appends to accumulators it never reads is one of these: what it returns does not depend
on what was logged before it. -/

namespace Narf.Lib
/-- A result with the notes logged on the way, or an error. -/
def Traced (ε ω α : Type) := Except ε (α × List ω)

namespace Traced
variable {ε ω α β : Type}
def pure (value : α) : Traced ε ω α := .ok (value,[])
def bind (first : Traced ε ω α) (next : α → Traced ε ω β) : Traced ε ω β :=
  match first with
  | .error error => .error error
  | .ok (value,notes) =>
    match next value with
    | .error error => .error error
    | .ok (result,later) => .ok (result,notes ++ later)
def lift (first : Except ε α) : Traced ε ω α :=
  match first with
  | .error error => .error error
  | .ok value => .ok (value,[])
def fail (error : ε) : Traced ε ω α := .error error
def note (entry : ω) : Traced ε ω Unit := .ok ((),[entry])
instance : Monad (Traced ε ω) where
  pure := Traced.pure
  bind := Traced.bind
instance : MonadLift (Except ε) (Traced ε ω) := ⟨lift⟩
/-- `run` succeeds with `value`, whatever it logged. -/
def Yields (run : Traced ε ω α) (value : α) : Prop := ∃ notes, run = .ok (value,notes)
variable {first : Traced ε ω α} {next : α → Traced ε ω β} {result value : α} {notes : List ω} {error : ε}
lemma bind_eq_ok {result : β} : (first >>= next) = .ok (result,notes) ↔
      ∃ value early late, first = .ok (value,early) ∧ next value = .ok (result,late) ∧ notes = early ++ late := by
  change Traced.bind first next = _ ↔ _
  cases first with
  | error error => simp [bind]
  | ok pair =>
    obtain ⟨value,early⟩ := pair
    cases following : next value with
    | error error =>
      simp only [bind,following,reduceCtorEq,false_iff]
      rintro ⟨_,_,late,same,step,_⟩
      cases same
      rw [following] at step
      cases step
    | ok pair =>
      obtain ⟨outcome,late⟩ := pair
      simp only [bind,following]
      constructor
      · intro same
        cases same
        exact ⟨value,early,late,rfl,following,rfl⟩
      · rintro ⟨_,_,_,same,step,rfl⟩
        cases same
        rw [following] at step
        cases step
        rfl
@[simp] lemma pure_eq_ok : (Pure.pure value : Traced ε ω α) = .ok (result,notes) ↔ value = result ∧ notes = [] := by
  change (Except.ok (value,[]) : Except ε (α × List ω)) = .ok (result,notes) ↔ _
  simp [eq_comm]
@[simp] lemma fail_eq_ok {result : α × List ω} : (fail error : Traced ε ω α) = .ok result ↔ False := by
  simp [fail]
lemma lift_eq_ok {first : Except ε α} : (liftM first : Traced ε ω α) = .ok (result,notes) ↔ first = .ok result ∧ notes = [] := by
  change (lift first : Traced ε ω α) = _ ↔ _
  cases first with
  | error error => simp [lift]
  | ok value =>
    change (Except.ok (value,[]) : Except ε (α × List ω)) = .ok (result,notes) ↔ _
    simp [eq_comm]
lemma bind_yields {result : β} : Yields (first >>= next) result ↔ ∃ value, Yields first value ∧ Yields (next value) result := by
  constructor
  · rintro ⟨notes,done⟩
    obtain ⟨value,early,late,step,rest,_⟩ := bind_eq_ok.mp done
    exact ⟨value,⟨early,step⟩,⟨late,rest⟩⟩
  · rintro ⟨value,⟨early,step⟩,⟨late,rest⟩⟩
    exact ⟨early ++ late,bind_eq_ok.mpr ⟨value,early,late,step,rest,rfl⟩⟩
@[simp] lemma pure_yields : Yields (Pure.pure value : Traced ε ω α) result ↔ value = result := by simp [Yields]
@[simp] lemma fail_yields : ¬ Yields (fail error : Traced ε ω α) result := by simp [Yields]
lemma guard_yields {guard : Prop} [Decidable guard] {rest : Traced ε ω α} :
    Yields (if guard then fail error else rest) result ↔ ¬ guard ∧ Yields rest result := by
  by_cases held : guard <;> simp [held]
@[simp] lemma lift_yields {first : Except ε α} : Yields (liftM first : Traced ε ω α) result ↔ first = .ok result := by
  simp [Yields,lift_eq_ok]
end Traced
end Narf.Lib
