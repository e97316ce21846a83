import Narf.Lib.RingIndex

namespace Narf.Lib.SeqRing
open RingIndex List Function

/-! A bounded queue whose slots carry sequence words. A position is reserved, written, published,
    claimed, taken out and released; its slot's word says how far it is. `log` is the list of all
    positions ever reserved, with how far each has come. -/

structure Slot (α : Type) where
  seq : Nat
  val : Option α
inductive Phase where
  | reserved | written | published | claimed | taken | released
  deriving DecidableEq
/-- The sequence number of a slot that position `p` holds, in a ring of `n` slots. -/
def Phase.seq (n p : Nat) : Phase → Nat
  | .reserved => p
  | .written => p
  | .published => p + 1
  | .claimed => p + 1
  | .taken => p + 1
  | .released => p + n
/-- A message, the party that holds its position, and how far it is. -/
structure Entry (α : Type) where
  msg : α
  party : Nat
  phase : Phase
def Entry.val {α : Type} (e : Entry α) : Option α :=
  match e.phase with
  | .written => some e.msg
  | .published => some e.msg
  | .claimed => some e.msg
  | _ => none
def Entry.slot {α : Type} (w k p : Nat) (e : Entry α) : Slot α := ⟨e.phase.seq (2 ^ k) p % 2 ^ w,e.val⟩
variable {α : Type} {w k p q : Nat} {slots : Nat → Slot α} {log : List (Entry α)} {e : Entry α}
/-- The last `2 ^ k` positions hold their slots, all earlier ones are released. -/
structure Sound (w k : Nat) (slots : Nat → Slot α) (log : List (Entry α)) : Prop where
  live : ∀ p e, log[p]? = some e → log.length ≤ p + 2 ^ k → slots (p % 2 ^ k) = e.slot w k p
  fresh : ∀ q, log.length ≤ q → q < 2 ^ k → slots q = ⟨q % 2 ^ w,none⟩
  old : ∀ p e, log[p]? = some e → p + 2 ^ k < log.length → e.phase = .released
/-- The next position has no holder of its slot before it, or that one is released. -/
def Free (k : Nat) (log : List (Entry α)) : Prop :=
  log.length < 2 ^ k ∨ ∃ e, log[log.length - 2 ^ k]? = some e ∧ e.phase = .released
lemma sound_new (small : k ≤ w) : Sound w k (fun i => (⟨i,none⟩ : Slot α)) [] where
  live p e here := by cases here
  fresh q _ bound := by rw [Nat.mod_eq_of_lt (lt_of_lt_of_le bound (Nat.pow_le_pow_right (by decide) small))]
  old p e here := by cases here
lemma lt_of_get (here : log[p]? = some e) : p < log.length := (List.getElem?_eq_some_iff.mp here).1
lemma get_concat {log : List (Entry α)} {q : Nat} {e x : Entry α} (there : (log ++ [x])[q]? = some e) :
    log[q]? = some e ∨ (q = log.length ∧ e = x) := by
  by_cases last : q = log.length
  · rw [last,getElem?_concat_length] at there
    exact .inr ⟨last,(Option.some.inj there).symm⟩
  · have bound := lt_of_get there
    rw [length_append,length_singleton] at bound
    rw [getElem?_append_left (by omega)] at there
    exact .inl there
section
variable (sound : Sound w k slots log)
include sound
lemma Sound.near (here : log[p]? = some e) (held : e.phase ≠ .released) : log.length ≤ p + 2 ^ k :=
  Nat.le_of_not_lt fun far => held (sound.old p e here far)
/-- A position goes on, and its slot with it. -/
lemma Sound.update (here : log[p]? = some e) (near : log.length ≤ p + 2 ^ k) (e' : Entry α) :
    Sound w k (update slots (p % 2 ^ k) (e'.slot w k p)) (log.set p e') := by
  have bound := lt_of_get here
  have others (q : Nat) (different : q ≠ p) (x : Entry α) (there : log[q]? = some x) (close : log.length ≤ q + 2 ^ k) :
      q % 2 ^ k ≠ p % 2 ^ k := by
    have inside := lt_of_get there
    intro clash
    rcases Nat.lt_or_gt_of_ne different with before | after
    · exact different (residue_inj (le_of_lt before) (by omega) clash)
    · exact different (residue_inj (le_of_lt after) (by omega) clash.symm).symm
  refine ⟨?_,?_,?_⟩
  · intro q x there close
    rw [length_set] at close
    by_cases same : q = p
    · subst same
      rw [getElem?_set_self bound] at there
      cases there
      rw [update_self]
    · rw [getElem?_set_ne (Ne.symm same)] at there
      rw [update_of_ne (others q same x there close)]
      exact sound.live q x there close
  · intro q past inside
    rw [length_set] at past
    rw [update_of_ne]
    · exact sound.fresh q past inside
    · intro clash
      have small := Nat.mod_eq_of_lt (lt_trans (lt_of_lt_of_le bound past) inside)
      omega
  · intro q x there far
    rw [length_set] at far
    by_cases same : q = p
    · omega
    · rw [getElem?_set_ne (Ne.symm same)] at there
      exact sound.old q x there far
lemma Sound.next_slot (free : Free k log) : slots (log.length % 2 ^ k) = ⟨log.length % 2 ^ w,none⟩ := by
  rcases free with first | ⟨e,here,done⟩
  · rw [Nat.mod_eq_of_lt first]
    exact sound.fresh _ le_rfl first
  · have bound := lt_of_get here
    by_cases enough : 2 ^ k ≤ log.length
    · have slot := sound.live _ e here (by omega)
      have turn : (log.length - 2 ^ k) % 2 ^ k = log.length % 2 ^ k := by rw [← Nat.mod_eq_sub_mod enough]
      rw [turn] at slot
      rw [slot,Entry.slot,Entry.val,done,Phase.seq,Nat.sub_add_cancel enough]
    · rw [Nat.mod_eq_of_lt (by omega)]
      exact sound.fresh _ le_rfl (by omega)
lemma Sound.append (free : Free k log) (e' : Entry α) :
    Sound w k (Function.update slots (log.length % 2 ^ k) (e'.slot w k log.length)) (log ++ [e']) := by
  have longer : (log ++ [e']).length = log.length + 1 := by rw [length_append,length_singleton]
  refine ⟨?_,?_,?_⟩
  · intro q x there close
    rw [longer] at close
    by_cases last : q = log.length
    · subst last
      rw [getElem?_concat_length] at there
      cases there
      rw [update_self]
    · have inside : q < log.length := by
        have := lt_of_get there
        omega
      rw [getElem?_append_left inside] at there
      rw [update_of_ne]
      · exact sound.live q x there (by omega)
      · intro clash
        exact last (residue_inj (le_of_lt inside) (by omega) clash)
  · intro q past inside
    rw [longer] at past
    rw [update_of_ne]
    · exact sound.fresh q (by omega) inside
    · intro clash
      have small := Nat.mod_eq_of_lt (lt_trans (Nat.lt_of_succ_le past) inside)
      omega
  · intro q x there far
    rw [longer] at far
    have positive := Nat.two_pow_pos k
    have inside : q < log.length := by omega
    rw [getElem?_append_left inside] at there
    by_cases oldest : q + 2 ^ k = log.length
    · rcases free with first | ⟨e,here,done⟩
      · omega
      · have same : q = log.length - 2 ^ k := by omega
        rw [← same,there] at here
        cases here
        exact done
    · exact sound.old q x there (by omega)
/-- Who holds the slot of the next position, if it is not free. -/
lemma Sound.next_held (busy : ¬ Free k log) : 2 ^ k ≤ log.length ∧ ∃ e, log[log.length - 2 ^ k]? = some e ∧ e.phase ≠ .released ∧
      slots (log.length % 2 ^ k) = e.slot w k (log.length - 2 ^ k) := by
  have enough : 2 ^ k ≤ log.length := Nat.le_of_not_lt fun first => busy (.inl first)
  have inside : log.length - 2 ^ k < log.length := Nat.sub_lt (lt_of_lt_of_le (Nat.two_pow_pos k) enough) (Nat.two_pow_pos k)
  refine ⟨enough,log[log.length - 2 ^ k],getElem?_eq_getElem inside,?_,?_⟩
  · intro done
    exact busy (.inr ⟨_,getElem?_eq_getElem inside,done⟩)
  · rw [Nat.mod_eq_sub_mod enough]
    exact sound.live _ _ (getElem?_eq_getElem inside) (by omega)
end

variable {phase : Phase}
/-- In a ring of two slots or more a position that is not released is behind the next turn of its slot. -/
lemma Phase.seq_lt (two : 0 < k) (held : phase ≠ .released) (p : Nat) : p ≤ phase.seq (2 ^ k) p ∧ phase.seq (2 ^ k) p < p + 2 ^ k := by
  have more : 2 ≤ 2 ^ k := Nat.le_self_pow (by omega) 2
  cases phase with
  | released => exact absurd rfl held
  | reserved | written => exact ⟨le_rfl,Nat.lt_add_of_pos_right (Nat.two_pow_pos k)⟩
  | published | claimed | taken => exact ⟨Nat.le_add_right _ _,Nat.add_lt_add_left (by omega) p⟩
lemma Phase.seq_bounds (phase : Phase) (p : Nat) : p ≤ phase.seq (2 ^ k) p ∧ phase.seq (2 ^ k) p ≤ p + 2 ^ k := by
  have one := Nat.two_pow_pos k
  cases phase with
  | released => exact ⟨Nat.le_add_right _ _,le_rfl⟩
  | reserved | written => exact ⟨le_rfl,Nat.le_add_right _ _⟩
  | published | claimed | taken => exact ⟨Nat.le_add_right _ _,Nat.add_le_add_left one p⟩
/-- The sender's check: the slot word is the next position exactly if the slot is free. -/
lemma Sound.free_iff (sound : Sound w k slots log) (two : 0 < k) (small : k < w) :
    wrapping_sub w (slots (log.length % 2 ^ k)).seq (log.length % 2 ^ w) = 0 ↔ Free k log := by
  have positive := Nat.two_pow_pos k
  have width := turn_lt small
  refine ⟨fun zero => ?_,fun free => ?_⟩
  · by_contra busy
    obtain ⟨enough,e,here,held,slot⟩ := sound.next_held busy
    obtain ⟨low,high⟩ := Phase.seq_lt two held (log.length - 2 ^ k)
    rw [slot,Entry.slot] at zero
    exact wrapping_sub_behind_ne (by omega) (by omega) zero
  · rw [sound.next_slot free]
    exact (wrapping_sub_eq_zero le_rfl (by omega)).mpr rfl
/-- The receiver's check at the next position: nothing is published there. -/
lemma Sound.next_unpublished (sound : Sound w k slots log) (small : k < w) (wide : 1 < w) :
    wrapping_sub w (slots (log.length % 2 ^ k)).seq ((log.length + 1) % 2 ^ w) ≠ 0 := by
  by_cases free : Free k log
  · rw [sound.next_slot free]
    exact wrapping_sub_succ_ne (by omega) _
  · have positive := Nat.two_pow_pos k
    have width : 2 ^ k + 1 < 2 ^ w := by
      have half : 2 ^ k ≤ 2 ^ (w - 1) := Nat.pow_le_pow_right (by decide) (by omega)
      have whole : 2 ^ w = 2 ^ (w - 1) * 2 := by
        rw [← pow_succ]
        congr 1
        omega
      have more : 2 ≤ 2 ^ (w - 1) := Nat.le_self_pow (by omega) 2
      omega
    obtain ⟨enough,e,here,held,slot⟩ := sound.next_held free
    obtain ⟨low,high⟩ := Phase.seq_bounds (k := k) e.phase (log.length - 2 ^ k)
    rw [slot,Entry.slot]
    exact wrapping_sub_behind_ne (by omega) (by omega)
/-- What a party sees that comes late to the slot of position `p`: the latest turn of that slot. -/
lemma Sound.inspect (sound : Sound w k slots log) (passed : p < log.length) :
    ∃ q e, log[q]? = some e ∧ (q = p ∨ p + 2 ^ k ≤ q) ∧ log.length ≤ q + 2 ^ k ∧ slots (p % 2 ^ k) = e.slot w k q := by
  have positive := Nat.two_pow_pos k
  have turns : p + 2 ^ k * ((log.length - 1 - p) / 2 ^ k) + (log.length - 1 - p) % 2 ^ k = log.length - 1 := by
    have := Nat.div_add_mod (log.length - 1 - p) (2 ^ k)
    omega
  have rest := Nat.mod_lt (log.length - 1 - p) positive
  have inside : p + 2 ^ k * ((log.length - 1 - p) / 2 ^ k) < log.length := by omega
  refine ⟨p + 2 ^ k * ((log.length - 1 - p) / 2 ^ k),_,getElem?_eq_getElem inside,?_,by omega,?_⟩
  · rcases Nat.eq_zero_or_pos ((log.length - 1 - p) / 2 ^ k) with zero | some
    · left
      rw [zero,mul_zero,add_zero]
    · right
      exact Nat.add_le_add_left (Nat.le_mul_of_pos_right _ some) p
  · have slot := sound.live _ _ (getElem?_eq_getElem inside) (by omega)
    rwa [Nat.add_mul_mod_self_left] at slot

/-! ## How a position goes on -/
def advance (log : List (Entry α)) (p : Nat) (phase : Phase) : List (Entry α) := log.modify p (fun e => { e with phase })
/-- The messages in the order of their positions, each with its party. -/
def tags (log : List (Entry α)) : List (Nat × α) := log.map (fun e => (e.party,e.msg))
def unreleased (log : List (Entry α)) : Nat := (log.filter (fun e => e.phase ≠ .released)).length
lemma advance_eq (here : log[p]? = some e) (phase : Phase) : advance log p phase = log.set p { e with phase } := by
  rw [advance,modify_eq_set_getElem?,here]
  rfl
lemma length_advance (log : List (Entry α)) (p : Nat) (phase : Phase) : (advance log p phase).length = log.length :=
  length_modify _ _ _
lemma get_advance_self (here : log[p]? = some e) (phase : Phase) : (advance log p phase)[p]? = some { e with phase } := by
  rw [advance_eq here,getElem?_set_self (lt_of_get here)]
lemma get_advance_ne (different : q ≠ p) : (advance log p phase)[q]? = log[q]? :=
  getElem?_modify_ne _ _ (Ne.symm different)
lemma get_advance (there : (advance log p phase)[q]? = some e) :
    (q = p ∧ ∃ x, log[p]? = some x ∧ e = { x with phase }) ∨ (q ≠ p ∧ log[q]? = some e) := by
  by_cases same : q = p
  · subst same
    rw [advance,getElem?_modify_eq] at there
    obtain ⟨x,here,rfl⟩ := Option.map_eq_some_iff.mp there
    exact .inl ⟨rfl,x,here,rfl⟩
  · rw [get_advance_ne same] at there
    exact .inr ⟨same,there⟩
lemma tags_advance (log : List (Entry α)) (p : Nat) (phase : Phase) : tags (advance log p phase) = tags log := by
  rw [tags,tags,advance]
  apply ext_getElem?
  intro q
  rw [getElem?_map,getElem?_map]
  by_cases same : p = q
  · subst same
    rw [getElem?_modify_eq]
    cases log[p]? with
    | none | some => rfl
  · rw [getElem?_modify_ne _ _ same]
lemma tags_append (log : List (Entry α)) (e : Entry α) : tags (log ++ [e]) = tags log ++ [(e.party,e.msg)] := map_append
lemma length_tags (log : List (Entry α)) : (tags log).length = log.length := length_map ..
lemma Sound.advance (sound : Sound w k slots log) (here : log[p]? = some e) (held : e.phase ≠ .released) (phase : Phase) :
    Sound w k (Function.update slots (p % 2 ^ k) (Entry.slot w k p { e with phase })) (advance log p phase) := by
  rw [advance_eq here]
  exact sound.update here (sound.near here held) _
lemma Free.advance (free : Free k log) (held : ∀ e, log[p]? = some e → e.phase ≠ .released) (phase : Phase) :
    Free k (advance log p phase) := by
  rcases free with first | ⟨e,here,done⟩
  · exact .inl (by rw [length_advance]; exact first)
  · refine .inr ⟨e,?_,done⟩
    rw [length_advance,get_advance_ne]
    · exact here
    · rintro rfl
      exact held e here done
lemma unreleased_suffix (held : ∀ q e, p ≤ q → log[q]? = some e → e.phase ≠ .released) : log.length - p ≤ unreleased log := by
  have all : (log.drop p).filter (·.phase ≠ .released) = log.drop p := by
    rw [filter_eq_self]
    intro e mem
    obtain ⟨i,bound,rfl⟩ := getElem_of_mem mem
    rw [getElem_drop]
    exact decide_eq_true (held (p + i) _ (Nat.le_add_right _ _) (getElem?_eq_getElem _))
  calc log.length - p = ((log.drop p).filter (·.phase ≠ .released)).length := by rw [all,length_drop]
    _ ≤ unreleased log := (((drop_sublist p log).filter _).length_le)

/-! ## The last owner -/
/-- The destructor's loop: from position word `i` to `tail`, the payload of each slot that is published. -/
def drain (w k tail : Nat) : Nat → (Nat → Slot α) → Nat → List (Option α)
  | 0, _, _ => []
  | turns + 1, slots, i =>
    if i = tail then []
    else
      let slot := slots (i &&& (2 ^ k - 1))
      if slot.seq = wrapping_add w i 1 then
        slot.val :: drain w k tail turns (Function.update slots (i &&& (2 ^ k - 1)) ⟨slot.seq,none⟩) (wrapping_add w i 1)
      else drain w k tail turns slots (wrapping_add w i 1)
lemma drain_spec (small : k < w) (messages : List α) (p turns : Nat) (slots : Nat → Slot α)
    (few : messages.length ≤ 2 ^ k) (enough : messages.length < turns)
    (kept : ∀ i, i < messages.length → slots ((p + i) % 2 ^ k) = ⟨(p + i + 1) % 2 ^ w,messages[i]?⟩) :
    drain w k ((p + messages.length) % 2 ^ w) turns slots (p % 2 ^ w) = messages.map some := by
  have width := turn_lt small
  induction messages generalizing p turns slots with
  | nil =>
    cases turns with
    | zero => rfl
    | succ turns => rw [drain,length_nil,add_zero,if_pos rfl]; rfl
  | cons m rest ih =>
    rw [length_cons] at few enough kept
    obtain ⟨turns,rfl⟩ := Nat.exists_eq_add_of_lt enough
    have first := kept 0 (by omega)
    rw [add_zero] at first
    rw [drain,length_cons,if_neg (residue_ne (by omega) (by omega)).symm]
    dsimp only
    rw [mask_word (le_of_lt small),wrapping_succ,first,if_pos rfl,map_cons]
    rw [show p + (rest.length + 1) = p + 1 + rest.length by omega]
    refine congrArg₂ List.cons rfl ?_
    refine ih (p + 1) (rest.length + 1 + turns) _ (by omega) (by omega) ?_
    intro i bound
    rw [add_assoc,add_comm 1 i,update_of_ne (residue_ne (by omega) (by omega))]
    exact kept (i + 1) (by omega)
/-- With everything up to `p` taken and everything from there on published, the loop takes exactly the latter. -/
lemma Sound.drain (sound : Sound w k slots log) (small : k < w) (within : p ≤ log.length)
    (published : ∀ q e, p ≤ q → log[q]? = some e → e.phase = .published) :
    SeqRing.drain w k (log.length % 2 ^ w) (2 ^ w) slots (p % 2 ^ w) = (log.drop p).map (some ·.msg) := by
  have width := turn_lt small
  have count : ((log.drop p).map Entry.msg).length = log.length - p := by rw [length_map,length_drop]
  have total : log.length = p + ((log.drop p).map Entry.msg).length := by omega
  have positive := Nat.two_pow_pos k
  have few : log.length ≤ p + 2 ^ k := by
    by_cases none : p = log.length
    · omega
    · have inside : p < log.length := by omega
      exact sound.near (getElem?_eq_getElem inside) (by rw [published p _ le_rfl (getElem?_eq_getElem inside)]; decide)
  have messages : (log.drop p).map (some ·.msg) = ((log.drop p).map Entry.msg).map some := by
    rw [map_map]
    rfl
  rw [messages,total]
  refine drain_spec small _ _ _ _ (by omega) (by omega) ?_
  intro i bound
  have inside : p + i < log.length := by omega
  have here := getElem?_eq_getElem inside
  have phase := published (p + i) _ (Nat.le_add_right _ _) here
  rw [sound.live _ _ here (by omega),Entry.slot,Entry.val,phase,getElem?_map,getElem?_drop,here]
  rfl
end Narf.Lib.SeqRing
