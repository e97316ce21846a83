import Narf.Lib.RingIndex

namespace Narf.Lib.Spsc
open RingIndex List Function

/-! A queue of one producer and one consumer over `2 ^ k` slots: each side advances its own word and
    reads the other's. A message is written before it is published and taken before its place is
    given back. -/

structure View (α : Type) where
  head : Nat
  tail : Nat
  slots : Nat → Option α
  sent : List α
  received : List (Option α)
  /-- In its slot and not published. -/
  written : Option α
  /-- The last message received has its place still. -/
  taken : Bool

namespace View
variable {α : Type} {w k : Nat} {v : View α} {m : α}
def new : View α := ⟨0,0,fun _ => none,[],[],none,false⟩
def queued (v : View α) : List α := v.sent ++ v.written.toList
/-- The places given back. -/
def freed (v : View α) : Nat := v.received.length - v.taken.toNat
structure Sound (w k : Nat) (v : View α) : Prop where
  head : v.head = v.sent.length % 2 ^ w
  tail : v.tail = v.freed % 2 ^ w
  once : v.taken = true → 0 < v.received.length
  order : v.received.length ≤ v.sent.length
  room : v.queued.length ≤ v.freed + 2 ^ k
  fifo : v.received = (v.sent.take v.received.length).map some
  kept : ∀ p, v.received.length ≤ p → p < v.queued.length → v.slots (p % 2 ^ k) = v.queued[p]?
/-- A queue whose consumer leaves the slots it has read empty. -/
structure Tidy (w k : Nat) (v : View α) : Prop extends v.Sound w k where
  clear : ∀ p, v.queued.length ≤ p → p < v.received.length + 2 ^ k → v.slots (p % 2 ^ k) = none
lemma sound_new (slots : Nat → Option α) : Sound w k (⟨0,0,slots,[],[],none,false⟩ : View α) where
  head := (Nat.zero_mod _).symm
  tail := (Nat.zero_mod _).symm
  once taken := by cases taken
  order := le_rfl
  room := Nat.zero_le _
  fifo := rfl
  kept p _ high := absurd high (Nat.not_lt_zero p)
lemma tidy_new : (new : View α).Tidy w k := ⟨sound_new _,fun _ _ _ => rfl⟩
lemma length_queued (v : View α) : v.sent.length ≤ v.queued.length := by
  rw [queued,length_append]
  exact Nat.le_add_right _ _
lemma freed_le (v : View α) : v.freed ≤ v.received.length := Nat.sub_le _ _
lemma freed_of_taken (taken : v.taken) : v.freed = v.received.length - 1 := by
  rw [freed,taken]
  rfl
lemma freed_of_idle (idle : v.taken = false) : v.freed = v.received.length := by
  rw [freed,idle]
  rfl
lemma queued_of_none (none : v.written = none) : v.queued = v.sent := by
  rw [queued,none,Option.toList_none,append_nil]
lemma queued_of_some (some : v.written = some m) : v.queued = v.sent ++ [m] := by
  rw [queued,some,Option.toList_some]
section
variable (sound : v.Sound w k) (small : k < w)
include sound small

/-- The consumer finds the words equal exactly if nothing waits. -/
lemma Sound.empty_iff (idle : v.taken = false) : v.head = v.tail ↔ v.received.length = v.sent.length := by
  have width := turn_lt small
  have room := sound.room
  have order := sound.order
  have queued := length_queued v
  rw [sound.head,sound.tail,freed_of_idle idle] at *
  refine ⟨fun same => residue_inj order (by omega) same.symm,fun same => by rw [same]⟩
lemma Sound.drained_iff (idle : v.taken = false) : v.sent.drop v.received.length = [] ↔ v.head = v.tail := by
  have order := sound.order
  rw [sound.empty_iff small idle,drop_eq_nil_iff]
  omega
lemma Sound.full_iff : 2 ^ k ≤ wrapping_sub w v.head v.tail ↔ v.freed + 2 ^ k ≤ v.sent.length := by
  have width := turn_lt small
  have room := sound.room
  have order := sound.order
  have queued := length_queued v
  have freed := freed_le v
  rw [sound.head,sound.tail,wrapping_sub_word (by omega) (by omega)]
  omega
lemma Sound.index : v.head &&& (2 ^ k - 1) = v.sent.length % 2 ^ k := by
  rw [sound.head,mask_word (le_of_lt small)]
lemma Sound.write (idle : v.written = none) (free : v.sent.length < v.freed + 2 ^ k) (m : α) :
    Sound w k { v with slots := update v.slots (v.head &&& (2 ^ k - 1)) (some m),written := some m } := by
  have freed := freed_le v
  have kept := sound.kept
  rw [queued_of_none idle] at kept
  rw [sound.index small]
  refine ⟨sound.head,sound.tail,sound.once,sound.order,?_,sound.fifo,?_⟩
  · show (v.sent ++ [m]).length ≤ v.freed + 2 ^ k
    rw [length_append,length_singleton]
    omega
  · intro p low high
    change v.received.length ≤ p at low
    change p < (v.sent ++ [m]).length at high
    show update v.slots _ _ _ = (v.sent ++ [m])[p]?
    rw [length_append,length_singleton] at high
    by_cases last : p = v.sent.length
    · rw [last,update_self,getElem?_concat_length]
    · have early : p < v.sent.length := by omega
      rw [update_of_ne,getElem?_append_left early]
      · exact kept p low early
      · intro clash
        exact last (residue_inj (le_of_lt early) (by omega) clash)
end

section
variable (tidy : v.Tidy w k) (small : k < w) (idle : v.written = none) (free : v.sent.length < v.freed + 2 ^ k)
include tidy small idle free
lemma Tidy.empty : v.slots (v.head &&& (2 ^ k - 1)) = none := by
  have freed := freed_le v
  rw [tidy.index small]
  exact tidy.clear _ (by rw [queued_of_none idle]) (by omega)
lemma Tidy.write (m : α) : Tidy w k { v with slots := update v.slots (v.head &&& (2 ^ k - 1)) (some m),written := some m } := by
  refine ⟨tidy.toSound.write small idle free m,?_⟩
  have freed := freed_le v
  have order := tidy.order
  have clear := tidy.clear
  rw [queued_of_none idle] at clear
  rw [tidy.index small]
  intro p low high
  change (v.sent ++ [m]).length ≤ p at low
  change p < v.received.length + 2 ^ k at high
  show update v.slots _ _ _ = none
  rw [length_append,length_singleton] at low
  rw [update_of_ne]
  · exact clear p (by omega) high
  · intro clash
    have := residue_inj (by omega) (by omega) clash.symm
    omega
end
lemma queued_publish (written : v.written = some m) (head : Nat) :
    View.queued { v with head,sent := v.sent ++ [m],written := none } = v.queued := by
  rw [queued_of_some written]
  exact append_nil _
lemma Sound.publish (sound : v.Sound w k) (written : v.written = some m) :
    Sound w k { v with head := wrapping_add w v.head 1,sent := v.sent ++ [m],written := none } := by
  have same := queued_publish written (wrapping_add w v.head 1)
  have order := sound.order
  refine ⟨?_,sound.tail,sound.once,?_,?_,?_,?_⟩
  · show wrapping_add w v.head 1 = (v.sent ++ [m]).length % 2 ^ w
    rw [sound.head,wrapping_succ,length_append,length_singleton]
  · show v.received.length ≤ (v.sent ++ [m]).length
    rw [length_append]
    omega
  · rw [same]
    exact sound.room
  · show v.received = ((v.sent ++ [m]).take v.received.length).map some
    rw [take_append_of_le_length order]
    exact sound.fifo
  · rw [same]
    exact sound.kept
lemma Tidy.publish (tidy : v.Tidy w k) (written : v.written = some m) :
    Tidy w k { v with head := wrapping_add w v.head 1,sent := v.sent ++ [m],written := none } := by
  refine ⟨tidy.toSound.publish written,?_⟩
  rw [queued_publish written]
  exact tidy.clear
section
variable (sound : v.Sound w k) (small : k < w) (idle : v.taken = false)
include sound small idle
lemma Sound.tail_index : v.tail &&& (2 ^ k - 1) = v.received.length % 2 ^ k := by
  rw [sound.tail,mask_word (le_of_lt small),freed_of_idle idle]
lemma Sound.oldest (waits : v.received.length < v.sent.length) : v.slots (v.tail &&& (2 ^ k - 1)) = v.sent[v.received.length]? := by
  have queued := length_queued v
  rw [sound.tail_index small idle,sound.kept _ le_rfl (by omega),View.queued,getElem?_append_left waits]
/-- It may be taken, whatever is left in its slot. -/
lemma Sound.take {slots : Nat → Option α}
    (waits : v.received.length < v.sent.length) (others : ∀ i, i ≠ v.tail &&& (2 ^ k - 1) → slots i = v.slots i) :
    Sound w k { v with slots,received := v.received ++ [v.slots (v.tail &&& (2 ^ k - 1))],taken := true } := by
  have index := sound.tail_index small idle
  have oldest := sound.oldest small idle waits
  have room := sound.room
  rw [freed_of_idle idle] at room
  have longer : (v.received ++ [v.slots (v.tail &&& (2 ^ k - 1))]).length = v.received.length + 1 := by
    rw [length_append,length_singleton]
  refine ⟨sound.head,?_,?_,?_,?_,?_,?_⟩
  · show v.tail = ((v.received ++ [_]).length - 1) % 2 ^ w
    rw [longer,sound.tail,freed_of_idle idle,Nat.add_sub_cancel]
  · intro _
    show 0 < (v.received ++ [_]).length
    rw [longer]
    exact Nat.succ_pos _
  · show (v.received ++ [_]).length ≤ v.sent.length
    rw [longer]
    exact waits
  · show v.queued.length ≤ (v.received ++ [_]).length - 1 + 2 ^ k
    rw [longer]
    omega
  · show v.received ++ [_] = (v.sent.take (v.received ++ [_]).length).map some
    rw [longer,oldest,take_add_one,map_append,← sound.fifo,getElem?_eq_getElem waits]
    rfl
  · intro p low high
    change (v.received ++ [_]).length ≤ p at low
    change p < v.queued.length at high
    rw [longer] at low
    show slots (p % 2 ^ k) = v.queued[p]?
    rw [others,sound.kept p (by omega) high]
    rw [index]
    intro clash
    have := residue_inj (by omega) (by omega) clash.symm
    omega
end
lemma Tidy.take (tidy : v.Tidy w k) (small : k < w) (idle : v.taken = false) (waits : v.received.length < v.sent.length) : Tidy w k { v with
      slots := update v.slots (v.tail &&& (2 ^ k - 1)) none,
      received := v.received ++ [v.slots (v.tail &&& (2 ^ k - 1))],taken := true } := by
  refine ⟨tidy.toSound.take small idle waits fun i other => update_of_ne other ..,?_⟩
  intro p low high
  change v.queued.length ≤ p at low
  change p < (v.received ++ [_]).length + 2 ^ k at high
  rw [length_append,length_singleton] at high
  show update v.slots _ none _ = none
  rw [tidy.tail_index small idle]
  by_cases here : p % 2 ^ k = v.received.length % 2 ^ k
  · rw [here,update_self]
  · rw [update_of_ne here]
    refine tidy.clear p low ?_
    by_contra beyond
    have last : p = v.received.length + 2 ^ k := by omega
    rw [last,Nat.add_mod_right] at here
    exact here rfl
lemma Sound.advance (sound : v.Sound w k) (taken : v.taken) : Sound w k { v with tail := wrapping_add w v.tail 1,taken := false } := by
  have once := sound.once taken
  have room := sound.room
  rw [freed_of_taken taken] at room
  refine ⟨sound.head,?_,fun idle => (by cases idle),sound.order,?_,sound.fifo,sound.kept⟩
  · show wrapping_add w v.tail 1 = v.received.length % 2 ^ w
    rw [sound.tail,wrapping_succ,freed_of_taken taken,Nat.sub_add_cancel once]
  · show v.queued.length ≤ v.received.length + 2 ^ k
    omega
lemma Tidy.advance (tidy : v.Tidy w k) (taken : v.taken) :
    Tidy w k { v with tail := wrapping_add w v.tail 1,taken := false } := ⟨tidy.toSound.advance taken,tidy.clear⟩

/-! ## The last owner -/
/-- What is still in the slots from position word `i` to `head`, taken out one by one. -/
def drain (w k head : Nat) : Nat → (Nat → Option α) → Nat → List (Option α)
  | 0, _, _ => []
  | turns + 1, slots, i =>
    if i = head then []
    else slots (i &&& (2 ^ k - 1)) ::
      drain w k head turns (Function.update slots (i &&& (2 ^ k - 1)) none) (wrapping_add w i 1)
lemma drain_spec (small : k < w) (messages : List α) (p turns : Nat) (slots : Nat → Option α)
    (few : messages.length ≤ 2 ^ k) (enough : messages.length < turns)
    (kept : ∀ i, i < messages.length → slots ((p + i) % 2 ^ k) = messages[i]?) :
    drain w k ((p + messages.length) % 2 ^ w) turns slots (p % 2 ^ w) = messages.map some := by
  have width := turn_lt small
  induction messages generalizing p turns slots with
  | nil =>
    cases turns with
    | zero => rfl
    | succ turns => rw [drain,length_nil,add_zero,if_pos rfl]; rfl
  | cons m rest ih =>
    rw [length_cons] at few enough kept
    obtain ⟨turns,rfl⟩ := Nat.exists_eq_add_of_lt enough
    have first := kept 0 (by omega)
    rw [drain,length_cons,if_neg (residue_ne (by omega) (by omega)).symm,mask_word (le_of_lt small),wrapping_succ,map_cons]
    refine congrArg₂ List.cons first ?_
    rw [show p + (rest.length + 1) = p + 1 + rest.length by omega]
    refine ih (p + 1) (rest.length + 1 + turns) _ (by omega) (by omega) ?_
    intro i bound
    rw [add_assoc,add_comm 1 i,update_of_ne (residue_ne (by omega) (by omega))]
    exact kept (i + 1) (by omega)
/-- With both sides at rest the messages not received are in the slots between the two words. -/
lemma Sound.drain (sound : v.Sound w k) (small : k < w) (no_write : v.written = none) (idle : v.taken = false) :
    View.drain w k v.head (2 ^ w) v.slots v.tail = (v.sent.drop v.received.length).map some := by
  have width := turn_lt small
  have same := queued_of_none no_write
  have room := sound.room
  have kept := sound.kept
  have order := sound.order
  rw [same,freed_of_idle idle] at room
  rw [same] at kept
  have count : (v.sent.drop v.received.length).length = v.sent.length - v.received.length := length_drop
  have total : v.sent.length = v.received.length + (v.sent.drop v.received.length).length := by omega
  rw [sound.head,sound.tail,freed_of_idle idle,total]
  refine drain_spec small _ _ _ _ (by omega) (by omega) ?_
  intro i bound
  rw [getElem?_drop]
  exact kept _ (Nat.le_add_right _ _) (by omega)
end View
end Narf.Lib.Spsc
