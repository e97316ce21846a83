import Mathlib

namespace Narf.Lib.Runs

/-! Runs of a system that takes one event at a time: an event applies to a state or it does not. -/
variable {σ ε : Type*} (step : σ → ε → Option σ)
/-- The state after the events, if each of them applies where it comes. -/
def run (s : σ) : List ε → Option σ
  | [] => some s
  | e :: rest => (step s e).bind (fun t => run t rest)
/-- Every event of the run meets the condition in the state it comes to. -/
def Meets (P : σ → ε → Prop) (s : σ) : List ε → Prop
  | [] => True
  | e :: rest => P s e ∧ (match step s e with
    | some t => Meets P t rest
    | none => True)
instance decidableMeets (P : σ → ε → Prop) [∀ s e, Decidable (P s e)] (s : σ) (es : List ε) : Decidable (Meets step P s es) :=
  match es with
  | [] => isTrue trivial
  | e :: rest =>
    haveI : Decidable (match step s e with
      | some t => Meets step P t rest
      | none => True) :=
      match step s e with
      | some t => decidableMeets P t rest
      | none => isTrue trivial
    inferInstanceAs (Decidable (_ ∧ _))

variable {step} {I Q : σ → Prop} {P : σ → ε → Prop} {s t : σ} {e : ε} {es : List ε}
lemma run_cons : run step s (e :: es) = some t ↔ ∃ m, step s e = some m ∧ run step m es = some t := by
  simp [run,Option.bind_eq_some_iff]
lemma Meets.head (meets : Meets step P s (e :: es)) : P s e := meets.1
lemma Meets.tail {m : σ} (meets : Meets step P s (e :: es)) (taken : step s e = some m) : Meets step P m es := by
  have rest := meets.2
  rw [taken] at rest
  exact rest
/-- What every step that meets the condition keeps holds after every run that meets it. -/
lemma invariant_of_meets (keeps : ∀ s e t, I s → P s e → step s e = some t → I t) (start : I s)
    (meets : Meets step P s es) (reached : run step s es = some t) : I t := by
  induction es generalizing s with
  | nil => cases reached; exact start
  | cons e rest ih =>
    obtain ⟨m,taken,later⟩ := run_cons.mp reached
    exact ih (keeps s e m start meets.head taken) (meets.tail taken) later
/-- A property that a step from the invariant's states keeps exactly under the condition. -/
lemma exact_of_meets {M : σ → ε → Prop} (keeps : ∀ s e t, I s → M s e → step s e = some t → I t)
    (exactly : ∀ s e t, I s → Q s → step s e = some t → (Q t ↔ P s e)) (use : ∀ s e, M s e → P s e) (start : I s ∧ Q s)
    (meets : Meets step M s es) (reached : run step s es = some t) : Q t ∧ ∀ e u, step t e = some u → (Q u ↔ P t e) := by
  have kept : I t ∧ Q t := by
    refine invariant_of_meets (I := fun s => I s ∧ Q s) ?_ start meets reached
    rintro s e t ⟨inside,old⟩ met taken
    exact ⟨keeps s e t inside met taken,(exactly s e t inside old taken).mpr (use s e met)⟩
  exact ⟨kept.2,fun e u taken => exactly t e u kept.1 kept.2 taken⟩
/-- What every step keeps holds after every run. -/
lemma invariant_of_run (keeps : ∀ s e t, I s → step s e = some t → I t) (start : I s) (reached : run step s es = some t) : I t := by
  induction es generalizing s with
  | nil => cases reached; exact start
  | cons e rest ih =>
    obtain ⟨m,taken,later⟩ := run_cons.mp reached
    exact ih (keeps s e m start taken) later
end Narf.Lib.Runs
