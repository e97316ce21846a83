import Narf.Capabilities.Confinement

/-! Revocation. Every capability carries the epoch its object was registered with, so an
object is dead for good as soon as its counter has left that value, unless the counter
comes round again. -/

namespace Narf.Capabilities.World
open Option BitVec

variable {w : World}
/-- No counter comes round to 1, the epoch that capabilities carry: an object is not revoked at epoch 0. -/
def NoWrap (w : World) : Op → Prop
  | .revoke cap => w.objects.current_epoch cap.slot.index ≠ some 0#32
  | _ => True
/-- Every object's epoch is at least `floor index` past the first. -/
def Aged (floor : BitVec 32 → Nat) (w : World) : Prop :=
  ∀ index epoch, w.objects.current_epoch index = some epoch → floor index ≤ (epoch - 1#32).toNat

variable {t : ObjectTable} {index epoch : BitVec 32} {floor : BitVec 32 → Nat}
lemma current_epoch_register {kind : CapKind} (found : ObjectTable.current_epoch (t ++ [⟨1#32,kind⟩]) index = some epoch) :
    t.current_epoch index = some epoch ∨ (index.toNat = t.length ∧ epoch = 1#32) := by
  obtain ⟨e,here,rfl⟩ := map_eq_some_iff.mp found
  rw [List.getElem?_append] at here
  split at here
  · exact .inl (map_eq_some_iff.mpr ⟨e,here,rfl⟩)
  · next outside =>
    obtain ⟨inside,same⟩ := List.getElem?_eq_some_iff.mp here
    rw [List.length_singleton] at inside
    refine .inr ⟨by omega,?_⟩
    rw [← same]
    simp
lemma current_epoch_bump {other : BitVec 32} (found : (t.bump_epoch index).current_epoch other = some epoch) :
    ∃ old, t.current_epoch other = some old ∧ epoch = if other = index then old + 1#32 else old := by
  obtain ⟨e,here,rfl⟩ := map_eq_some_iff.mp found
  rw [ObjectTable.bump_epoch,List.getElem?_modify] at here
  obtain ⟨old,there,rfl⟩ := map_eq_some_iff.mp here
  refine ⟨old.epoch,map_eq_some_iff.mpr ⟨old,there,rfl⟩,?_⟩
  by_cases same : other = index
  · simp [same]
  · have apart : index.toNat ≠ other.toNat := fun equal => same (eq_of_toNat_eq equal.symm)
    simp [same,apart]
lemma toNat_succ_of_ne (short : epoch ≠ 0#32) : (epoch + 1#32 - 1#32).toNat = (epoch - 1#32).toNat + 1 := by
  bv_omega
/-- Epochs never fall below a floor that holds now and that fresh objects keep. -/
lemma aged_step (aged : Aged floor w) {op : Op} (noWrap : w.NoWrap op)
    (young : ∀ index : BitVec 32, w.objects.length ≤ index.toNat → floor index = 0) : Aged floor (w.step op) := by
  have minting : ∀ kind right, Aged floor (w.mint (Cap.bootstrap w.objects kind right)) := by
    intro kind right index epoch found
    rcases current_epoch_register found with before | ⟨last,rfl⟩
    · exact aged index epoch before
    · simp [young index (le_of_eq last.symm)]
  cases op with
  | bootstrap kind right => exact minting kind right
  | bootstrap_with creator kind right =>
    simp only [step]
    split
    · next made done => rw [Cap.bootstrap_with_eq done]; exact minting kind right
    · exact aged
  | derive | lookup => simp only [step]; split <;> exact aged
  | revoke cap =>
    intro index epoch found
    obtain ⟨old,before,rfl⟩ := current_epoch_bump found
    have enough := aged index old before
    split
    · next same =>
      subst same
      rw [toNat_succ_of_ne (fun last => noWrap (by rw [before,last]))]
      omega
    · exact enough
  | _ => simp only [step,installed]; split <;> exact aged
lemma length_step (op : Op) : w.objects.length ≤ (w.step op).objects.length := by
  have minting : ∀ kind right, w.objects.length ≤ (w.mint (Cap.bootstrap w.objects kind right)).objects.length := by
    intro kind right
    simp [mint,Cap.bootstrap,ObjectTable.register]
  cases op with
  | bootstrap kind right => exact minting kind right
  | bootstrap_with creator kind right =>
    simp only [step]
    split
    · next made done => rw [Cap.bootstrap_with_eq done]; exact minting kind right
    · exact le_refl _
  | derive | lookup => simp only [step]; split <;> exact le_refl _
  | revoke cap => simp [step,Cap.revoke,ObjectTable.bump_epoch]
  | _ => simp only [step,installed]; split <;> exact le_refl _
lemma aged_run {w' : World} (run : Run NoWrap w w') (aged : Aged floor w)
    (young : ∀ index : BitVec 32, w.objects.length ≤ index.toNat → floor index = 0) : Aged floor w' := by
  have both : Aged floor w' ∧ w.objects.length ≤ w'.objects.length := by
    induction run with
    | refl => exact ⟨aged,le_refl _⟩
    | tail _ last before =>
      obtain ⟨op,_,noWrap,rfl⟩ := last
      refine ⟨aged_step before.1 noWrap (fun index past => young index (le_trans before.2 past)),le_trans before.2 (length_step op)⟩
  exact both.1
/-- The object's epoch is past the one every capability carries. -/
def Dead (w : World) (index : BitVec 32) : Prop := w.objects.current_epoch index ≠ some 1#32
lemma Carries.generation {slot : CapSlot} {right : Right} (inv : w.Confined) (carries : w.Carries slot right) : slot.generation = 1#32 := by
  obtain ⟨m,minted,copy⟩ := carries
  exact copy.generation.trans (inv.mints m minted).generation
lemma Dead.refused (inv : w.Confined) (dead : w.Dead index) :
    (∀ cap ∈ w.caps, cap.slot.index = index → cap.check_live w.objects = .error .Revoked ∧
      ∀ (α : Type) (execute : Cap → Except CapError α), cap.invoke w.objects execute = .error .Revoked) ∧
    (∀ task presented entry, (w.tables task).lookup w.objects presented = .ok entry → entry.index ≠ index) := by
  constructor
  · rintro cap held rfl
    have first := (inv.caps cap held).generation inv
    constructor
    · rw [Cap.check_live,first,if_neg dead]
    · intro α execute
      unfold Cap.invoke
      split
      · rfl
      · next epoch kind found =>
        obtain ⟨e,here,same⟩ := map_eq_some_iff.mp found
        cases same
        rw [first,if_pos (fun equal => dead (map_eq_some_iff.mpr ⟨e,here,equal⟩))]
  · rintro task presented entry done rfl
    obtain ⟨here,filled,_,live⟩ := CapTable.lookup_spec done
    obtain ⟨right,carries⟩ := inv.entries task _ entry here filled
    rw [carries.generation inv] at live
    exact dead live
lemma index_lt {cap : Cap} (inv : w.Confined) (held : cap ∈ w.caps) : cap.slot.index.toNat < w.objects.length := by
  obtain ⟨m,minted,copy⟩ := inv.caps cap held
  obtain ⟨index,_,kind,recorded,_⟩ := inv.mints m minted
  obtain ⟨e,found,_⟩ := map_eq_some_iff.mp recorded
  have inside := (List.getElem?_eq_some_iff.mp found).1
  rw [copy.index,index,toNat_ofNat]
  exact lt_of_le_of_lt (Nat.mod_le _ _) inside
/-- Once an object is revoked, nothing that names it passes a check in any continuation in
    which no counter wraps. -/
theorem revoked_for_good {w' : World} (run : Run NoWrap start w) (cap : Cap) (held : cap ∈ w.caps)
    (noWrap : w.NoWrap (.revoke cap)) (later : Run NoWrap (w.step (.revoke cap)) w') :
    (∀ other ∈ w'.caps, other.slot.index = cap.slot.index → other.check_live w'.objects = .error .Revoked ∧
      ∀ (α : Type) (execute : Cap → Except CapError α), other.invoke w'.objects execute = .error .Revoked) ∧
    (∀ task presented entry, (w'.tables task).lookup w'.objects presented = .ok entry → entry.index ≠ cap.slot.index) := by
  have whole : Run NoWrap start w' := (run.tail ⟨.revoke cap,held,noWrap,rfl⟩).trans later
  refine Dead.refused (confined_run whole confined_start) ?_
  have known := index_lt (confined_run run confined_start) held
  have floor : Aged (fun index => if index = cap.slot.index then 1 else 0) (w.step (.revoke cap)) := by
    intro index epoch found
    obtain ⟨old,before,rfl⟩ := current_epoch_bump found
    dsimp only
    split
    · next same =>
      subst same
      rw [toNat_succ_of_ne (fun last => noWrap (by rw [before,last]))]
      omega
    · exact Nat.zero_le _
  have aged := aged_run later floor (fun index past => by
    have short := Nat.le_trans (length_step (.revoke cap)) past
    have apart : index ≠ cap.slot.index := by
      rintro rfl
      omega
    simp [apart])
  intro alive
  have past := aged cap.slot.index 1#32 alive
  simp at past

/-- A second revocation and a second object do not bring the creator back. -/
theorem revoked_for_good_creator : creator.check_live ((((start.step (.bootstrap .Task .Create)).step (.revoke creator)).step
    (.revoke creator)).step (.bootstrap .Task .Create)).objects = .error .Revoked := by
  have boot : Run NoWrap start (start.step (.bootstrap .Task .Create)) :=
    .single ⟨.bootstrap .Task .Create,trivial,trivial,rfl⟩
  have held : creator ∈ (start.step (.bootstrap .Task .Create)).caps := List.mem_singleton.mpr rfl
  have first : some 1#32 ≠ some 0#32 := by decide
  have second : some 2#32 ≠ some 0#32 := by decide
  exact ((revoked_for_good boot creator held first
    (.tail (.single ⟨.revoke creator,held,second,rfl⟩) ⟨.bootstrap .Task .Create,trivial,trivial,rfl⟩)).1 creator
      (List.mem_cons_of_mem _ held) rfl).1

/-! ### The counter comes round -/
/-- The world after booting and revoking the creator `n` times. -/
def revoked : Nat → World
  | 0 => start.step (.bootstrap .Task .Create)
  | n + 1 => (revoked n).step (.revoke creator)
lemma objects_revoked (n : Nat) : (revoked n).objects = [⟨BitVec.ofNat 32 (n + 1),.Task⟩] := by
  induction n with
  | zero => rfl
  | succ n before =>
    have stepped : (revoked (n + 1)).objects = (revoked n).objects.bump_epoch 0#32 := rfl
    rw [stepped,before,ofNat_add (n + 1) 1]
    rfl
lemma caps_revoked (n : Nat) : (revoked n).caps = [creator] := by
  induction n with
  | zero => rfl
  | succ n before => exact before
lemma run_revoked (n k : Nat) : Run (fun _ _ => True) (revoked n) (revoked (n + k)) := by
  induction k with
  | zero => exact .refl
  | succ k before => exact before.tail ⟨.revoke creator,by simp [Allowed,caps_revoked],trivial,rfl⟩
/-- After 2^32 revocations the creator's capability, issued before all of them, is live again. -/
theorem revoked_revives : ∃ w w', Run (fun _ _ => True) start w ∧ creator ∈ w.caps ∧
    Run (fun _ _ => True) (w.step (.revoke creator)) w' ∧ creator.check_live w'.objects = .ok () := by
  refine ⟨revoked 0,revoked (1 + (2 ^ 32 - 1)),.single ⟨.bootstrap .Task .Create,trivial,trivial,rfl⟩,
    by simp [caps_revoked],run_revoked 1 _,?_⟩
  have back : BitVec.ofNat 32 (1 + (2 ^ 32 - 1) + 1) = 1#32 := by decide
  rw [objects_revoked,back]
  rfl
end Narf.Capabilities.World
