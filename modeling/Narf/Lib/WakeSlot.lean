import Mathlib

namespace Narf.Lib.WakeSlot

/-! A waker slot between two sides. The waiting side registers and then looks once more; the other side
    changes what is waited for, then takes the waker and wakes it. -/

structure Line (ω : Type) where
  slot : Option ω
  /-- Taken by the other side and not yet woken. -/
  hand : Option ω
  /-- The other side has made a change and will look into the slot. -/
  announcing : Bool
  woken : List ω

namespace Line
variable {ω : Type} {l l' : Line ω} {r : ω} {calm calm' : Prop}
/-- The registered waker is in the slot, and there is nothing to wake for or the other side comes to
    it; or it has been taken and is woken. -/
def Watched (l : Line ω) (r : ω) (calm : Prop) : Prop :=
  (l.slot = some r ∧ (calm ∨ l.announcing = true)) ∨ (l.slot = none ∧ (r ∈ l.woken ∨ l.hand = some r))
/-- The change keeps every registration, as long as what it may disturb is announced. -/
def Carries (l l' : Line ω) : Prop :=
  ∀ r (calm calm' : Prop), (calm → calm' ∨ l'.announcing = true) → l.Watched r calm → l'.Watched r calm'
lemma watched_of_register (slot : l.slot = some r) : l.Watched r True := .inl ⟨slot,.inl trivial⟩
lemma Watched.mono (watched : l.Watched r calm) (less : calm → calm') : l.Watched r calm' := by
  rcases watched with ⟨slot,here⟩ | taken
  · exact .inl ⟨slot,here.imp_left less⟩
  · exact .inr taken
/-- A fact that is read after the registration. -/
lemma Watched.recheck (watched : l.Watched r calm) (seen : calm') : l.Watched r (calm ∧ calm') :=
  watched.mono fun held => ⟨held,seen⟩
lemma carries_refl (l : Line ω) : l.Carries l := by
  rintro r calm calm' kept (⟨slot,here⟩ | taken)
  · exact .inl ⟨slot,here.elim kept .inr⟩
  · exact .inr taken
lemma carries_announce (slot : l'.slot = l.slot) (hand : l'.hand = l.hand) (woken : l'.woken = l.woken)
    (announcing : l'.announcing) : l.Carries l' := by
  rintro r calm calm' _ (⟨held,_⟩ | ⟨free,taken⟩)
  · exact .inl ⟨slot.trans held,.inr announcing⟩
  · exact .inr ⟨slot.trans free,by rw [woken,hand]; exact taken⟩
lemma carries_take (slot : l'.slot = none) (hand : l'.hand = l.slot) (woken : l'.woken = l.woken) (empty : l.hand = none) :
    l.Carries l' := by
  rintro r calm calm' _ (⟨held,_⟩ | ⟨_,taken⟩)
  · exact .inr ⟨slot,.inr (hand.trans held)⟩
  · refine .inr ⟨slot,.inl ?_⟩
    rw [woken]
    rcases taken with already | held
    · exact already
    · rw [empty] at held
      cases held
lemma carries_wake {w : ω} (slot : l'.slot = l.slot) (hand : l.hand = some w) (woken : l'.woken = w :: l.woken)
    (quiet : l.announcing = false) : l.Carries l' := by
  rintro r calm calm' kept (⟨held,here⟩ | ⟨free,taken⟩)
  · rcases here with still | announced
    · exact .inl ⟨slot.trans held,kept still⟩
    · rw [quiet] at announced
      cases announced
  · refine .inr ⟨slot.trans free,.inl ?_⟩
    rw [woken]
    rcases taken with already | held
    · exact List.mem_cons_of_mem _ already
    · rw [hand] at held
      cases held
      exact List.mem_cons_self
lemma carries_more (slot : l'.slot = l.slot) (hand : l'.hand = l.hand) (announcing : l'.announcing = l.announcing)
    (woken : ∀ r ∈ l.woken, r ∈ l'.woken) : l.Carries l' := by
  rintro r calm calm' kept (⟨held,here⟩ | ⟨free,taken⟩)
  · refine .inl ⟨slot.trans held,?_⟩
    rcases here with still | announced
    · exact kept still
    · exact .inr (announcing.trans announced)
  · exact .inr ⟨slot.trans free,taken.imp (woken r) fun held => hand.trans held⟩
/-- With the other side at rest, the waker has been taken and woken unless there is nothing to wake for. -/
lemma Watched.at_rest (watched : l.Watched r calm) (hand : l.hand = none) (quiet : l.announcing = false) :
    calm ∨ (l.slot = none ∧ r ∈ l.woken) := by
  rcases watched with ⟨_,here⟩ | ⟨free,taken⟩
  · rcases here with still | announced
    · exact .inl still
    · rw [quiet] at announced
      cases announced
  · rcases taken with already | held
    · exact .inr ⟨free,already⟩
    · rw [hand] at held
      cases held
end Line
end Narf.Lib.WakeSlot
