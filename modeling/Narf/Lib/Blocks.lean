import Mathlib

/-! Blocks of `2^k` units, and lists of them by order. A set of blocks is measured by the
weight it gives every unit: two sets that weigh the same under every weighting cover the
same units equally often, so a weight that is kept by every operation carries disjointness,
the union and the number of units at once. -/

namespace Narf.Lib
open Finset

/-! ### Removal from a vector -/
/-- The vector without its `i`-th element, the last one moved into the gap. -/
def swapRemove {α : Type} (xs : List α) (i : Nat) : List α :=
  match xs.getLast? with
  | none => []
  | some last => (xs.set i last).dropLast

variable {α : Type} {i : Nat}
lemma perm_swapRemove {xs : List α} (inside : i < xs.length) : xs.Perm (xs[i] :: swapRemove xs i) := by
  obtain ⟨init,last,same⟩ := (List.eq_nil_or_concat xs).resolve_left (by rintro rfl; cases inside)
  rw [List.concat_eq_append] at same
  subst same
  have removed : swapRemove (init ++ [last]) i = ((init ++ [last]).set i last).dropLast := by simp [swapRemove]
  rw [removed]
  by_cases early : i < init.length
  · have same : (init ++ [last])[i] = init[i] := List.getElem_append_left early
    rw [same,List.set_append_left _ _ early,List.dropLast_concat,List.set_eq_take_append_cons_drop,if_pos early]
    have parts : init = init.take i ++ init[i] :: init.drop (i + 1) := by
      rw [List.getElem_cons_drop,List.take_append_drop]
    have front : (init ++ [last]).Perm (init[i] :: (init.take i ++ init.drop (i + 1) ++ [last])) := by
      nth_rewrite 1 [parts]
      exact List.perm_middle.append_right _
    refine front.trans (.cons _ ?_)
    exact (List.perm_append_singleton _ _).trans List.perm_middle.symm
  · have atEnd : i = init.length := by
      rw [List.length_append,List.length_singleton] at inside
      omega
    subst atEnd
    simp
lemma length_swapRemove {xs : List α} (inside : i < xs.length) : (swapRemove xs i).length + 1 = xs.length := by
  rw [(perm_swapRemove inside).length_eq,List.length_cons]
lemma getElem?_swapRemove_of_lt {xs : List α} {j : Nat} (before : j < i) (inside : i < xs.length) : (swapRemove xs i)[j]? = xs[j]? := by
  unfold swapRemove
  split
  · next none_ =>
    rw [List.getLast?_eq_none_iff] at none_
    simp [none_] at inside
  · rw [List.getElem?_dropLast,List.length_set,if_pos (by omega),List.getElem?_set_ne (by omega)]

/-! ### Weights -/
/-- The weight of the block of `2^k` units at `s`. -/
def mass (u : Nat → Nat) (k s : Nat) : Nat := ∑ f ∈ Finset.Ico s (s + 2 ^ k), u f

section Mass
variable (u : Nat → Nat) (k s : Nat)
lemma mass_succ : mass u (k + 1) s = mass u k s + mass u k (s + 2 ^ k) := by
  have double : s + 2 ^ (k + 1) = s + 2 ^ k + 2 ^ k := by rw [pow_succ]; omega
  rw [mass,mass,mass,double]
  exact (sum_Ico_consecutive u (Nat.le_add_right _ _) (Nat.le_add_right _ _)).symm
lemma mass_one : mass (fun _ => 1) k s = 2 ^ k := by
  rw [mass,sum_const,Nat.card_Ico,Nat.add_sub_cancel_left,nsmul_eq_mul,mul_one,Nat.cast_id]
lemma mass_add (v : Nat → Nat) : mass (fun f => u f + v f) k s = mass u k s + mass v k s :=
  sum_add_distrib
variable {u k s}
lemma mass_congr {v : Nat → Nat} (same : ∀ f, s ≤ f → f < s + 2 ^ k → u f = v f) : mass u k s = mass v k s :=
  sum_congr rfl (fun f mem => same f (mem_Ico.mp mem).1 (mem_Ico.mp mem).2)
lemma mass_pos_iff : 0 < mass u k s ↔ ∃ f, s ≤ f ∧ f < s + 2 ^ k ∧ 0 < u f := by
  rw [mass,pos_iff_ne_zero,Ne,sum_eq_zero_iff]
  simp [mem_Ico,pos_iff_ne_zero]
lemma mass_single (f : Nat) : mass (Pi.single f 1) k s = if s ≤ f ∧ f < s + 2 ^ k then 1 else 0 := by
  rw [mass,sum_pi_single']
  simp [mem_Ico]
end Mass
/-- The weighting that counts nothing of `D`, and the one that counts nothing else. -/
def off (D : Finset Nat) (u : Nat → Nat) (f : Nat) : Nat := if f ∈ D then 0 else u f
def on (D : Finset Nat) (u : Nat → Nat) (f : Nat) : Nat := if f ∈ D then u f else 0
def Clear (D : Finset Nat) (k s : Nat) : Prop := ∀ f, s ≤ f → f < s + 2 ^ k → f ∉ D

section Parts
variable {D : Finset Nat} {u : Nat → Nat} {k s : Nat}
lemma off_add_on : (fun f => off D u f + on D u f) = u := by
  funext f
  by_cases mem : f ∈ D <;> simp [off,on,mem]
lemma mass_off_of_clear (clear : Clear D k s) : mass (off D u) k s = mass u k s :=
  mass_congr (fun f low high => if_neg (clear f low high))
lemma mass_off_of_subset (within : ∀ f, s ≤ f → f < s + 2 ^ k → f ∈ D) : mass (off D u) k s = 0 :=
  sum_eq_zero (fun f mem =>
    if_pos (within f (mem_Ico.mp mem).1 (mem_Ico.mp mem).2))
lemma clear_of_mass_on (nothing : mass (on D (fun _ => 1)) k s = 0) : Clear D k s := by
  intro f low high mem
  have positive : 0 < mass (on D (fun _ => 1)) k s := mass_pos_iff.mpr ⟨f,low,high,by simp [on,mem]⟩
  omega
lemma sum_off (owned : Finset Nat) : ∑ f ∈ owned, off D u f = ∑ f ∈ owned \ D, u f := by
  rw [sdiff_eq_filter,sum_filter]
  refine sum_congr rfl fun f _ => ?_
  by_cases mem : f ∈ D <;> simp [off,mem]
lemma mass_on_Ico (lo hi : Nat) : mass (on (Finset.Ico lo hi) (fun _ => 1)) k s = min (s + 2 ^ k) hi - max s lo := by
  have common : (Finset.Ico s (s + 2 ^ k)).filter (· ∈ Finset.Ico lo hi) = Finset.Ico (max s lo) (min (s + 2 ^ k) hi) := by
    ext f
    simp only [mem_filter,mem_Ico,max_le_iff,lt_min_iff]
    tauto
  rw [mass,← Nat.card_Ico,← common,card_filter]
  rfl
end Parts

/-! ### The buddy of a block -/
lemma mul_two_pow_xor (q k : Nat) : (q * 2 ^ k) ^^^ 2 ^ k = (q ^^^ 1) * 2 ^ k := by
  have one : 2 ^ k = 1 <<< k := by rw [Nat.shiftLeft_eq,one_mul]
  rw [← Nat.shiftLeft_eq,← Nat.shiftLeft_eq]
  nth_rewrite 1 [one]
  rw [Nat.shiftLeft_xor_distrib]
/-- An aligned block and its buddy are the two halves of the aligned block at the lower of them. -/
lemma buddy_halves {k s : Nat} (aligned : 2 ^ k ∣ s) : 2 ^ (k + 1) ∣ min s (s ^^^ 2 ^ k) ∧
      ((s = min s (s ^^^ 2 ^ k) ∧ s ^^^ 2 ^ k = min s (s ^^^ 2 ^ k) + 2 ^ k) ∨
        (s = min s (s ^^^ 2 ^ k) + 2 ^ k ∧ s ^^^ 2 ^ k = min s (s ^^^ 2 ^ k))) := by
  obtain ⟨q,rfl⟩ := aligned
  rw [mul_comm (2 ^ k) q,mul_two_pow_xor]
  rcases Nat.even_or_odd q with even | odd
  · obtain ⟨r,rfl⟩ := even
    rw [Nat.xor_one_of_even ⟨r,rfl⟩,Nat.succ_mul,min_eq_left (Nat.le_add_right _ _)]
    refine ⟨⟨r,?_⟩,.inl ⟨rfl,rfl⟩⟩
    rw [pow_succ]
    ring
  · obtain ⟨r,rfl⟩ := odd
    rw [Nat.xor_one_of_odd ⟨r,rfl⟩,Nat.add_sub_cancel,Nat.add_one_mul,min_eq_right (Nat.le_add_right _ _)]
    refine ⟨⟨r,?_⟩,.inr ⟨rfl,rfl⟩⟩
    rw [pow_succ]
    ring

/-! ### Lists of blocks by order -/
def listMass (u : Nat → Nat) (k : Nat) (starts : List Nat) : Nat := (starts.map (mass u k)).sum
/-- The weight of all blocks below order `n`. -/
def shelfMass (u : Nat → Nat) (n : Nat) (lists : Nat → List Nat) : Nat := ∑ k ∈ range n, listMass u k (lists k)

section Shelf
variable {u : Nat → Nat} {n k s : Nat} {lists : Nat → List Nat} {starts rest : List Nat}
@[simp] lemma listMass_nil : listMass u k [] = 0 := rfl
@[simp] lemma listMass_cons : listMass u k (s :: rest) = mass u k s + listMass u k rest := by simp [listMass]
@[simp] lemma listMass_append : listMass u k (starts ++ rest) = listMass u k starts + listMass u k rest := by
  simp [listMass]
lemma listMass_perm (perm : starts.Perm rest) : listMass u k starts = listMass u k rest := (perm.map _).sum_eq
lemma shelfMass_add (u v : Nat → Nat) (n : Nat) (lists : Nat → List Nat) :
    shelfMass (fun f => u f + v f) n lists = shelfMass u n lists + shelfMass v n lists := by
  rw [shelfMass,shelfMass,shelfMass,← sum_add_distrib]
  refine sum_congr rfl fun k _ => ?_
  induction lists k with
  | nil => rfl
  | cons first rest ih =>
    simp only [listMass_cons,mass_add,ih]
    omega
lemma shelfMass_update (below : k < n) :
    shelfMass u n (Function.update lists k starts) + listMass u k (lists k) = shelfMass u n lists + listMass u k starts := by
  have mem : k ∈ range n := mem_range.mpr below
  have others : ∑ j ∈ (range n).erase k, listMass u j (Function.update lists k starts j) =
      ∑ j ∈ (range n).erase k, listMass u j (lists j) :=
    sum_congr rfl (fun j other => by rw [Function.update_of_ne (ne_of_mem_erase other)])
  rw [shelfMass,shelfMass,← add_sum_erase _ _ mem,← add_sum_erase _ _ mem,others,Function.update_self]
  omega
end Shelf
/-- Two blocks, as order and start, share no unit. -/
def Apart (a b : Nat × Nat) : Prop := ∀ f, ¬ ((a.2 ≤ f ∧ f < a.2 + 2 ^ a.1) ∧ b.2 ≤ f ∧ f < b.2 + 2 ^ b.1)
instance : Std.Symm Apart := ⟨fun _ _ apart f both => apart f both.symm⟩
lemma pairwise_apart_of_mass {blocks : List (Nat × Nat)}
    (once : ∀ f, (blocks.map (fun b => mass (Pi.single f 1) b.1 b.2)).sum ≤ 1) : blocks.Pairwise Apart := by
  induction blocks with
  | nil => exact .nil
  | cons first rest ih =>
    simp only [List.map_cons,List.sum_cons] at once
    refine .cons (fun other mem f both => ?_) (ih (fun f => le_trans (Nat.le_add_left _ _) (once f)))
    have here := once f
    have there : mass (Pi.single f 1) other.1 other.2 ≤ (rest.map (fun b => mass (Pi.single f 1) b.1 b.2)).sum :=
      List.single_le_sum (fun _ _ => Nat.zero_le _) _ (List.mem_map.mpr ⟨other,mem,rfl⟩)
    rw [mass_single,if_pos both.1] at here
    rw [mass_single,if_pos both.2] at there
    omega
lemma sum_mass_of_apart {u : Nat → Nat} {blocks : List (Nat × Nat)} (apart : blocks.Pairwise Apart) :
    (blocks.map (fun b => mass u b.1 b.2)).sum = ∑ f ∈ blocks.toFinset.biUnion (fun b => Finset.Ico b.2 (b.2 + 2 ^ b.1)), u f := by
  induction blocks with
  | nil => rfl
  | cons first rest ih =>
    obtain ⟨clear,apart⟩ := List.pairwise_cons.mp apart
    rw [List.map_cons,List.sum_cons,ih apart,List.toFinset_cons,biUnion_insert,sum_union,mass]
    rw [disjoint_biUnion_right]
    intro b mem
    refine disjoint_left.mpr fun f here there => ?_
    exact clear b (List.mem_toFinset.mp mem) f ⟨mem_Ico.mp here,mem_Ico.mp there⟩
end Narf.Lib
