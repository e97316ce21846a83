import Narf.Net.IpFragment

namespace Narf.Net.IpFragment
open Lib List

/-! Reassembly keeps its queues and its accounts in order under every sequence of fragments, and a
    datagram it returns is a tiling by fragments that do not overlap. -/

/-! ## Pieces of a datagram -/
/-- The piece puts the byte at the position. -/
def Run.Puts (r : Run) (i : Nat) (b : Byte) : Prop := r.offset ≤ i ∧ r.data[i - r.offset]? = some b
def Run.Apart (a b : Run) : Prop := a.stop ≤ b.offset ∨ b.stop ≤ a.offset
def Holds (pieces : List Run) (i : Nat) (b : Byte) : Prop := ∃ r ∈ pieces, r.Puts i b
structure Ordered (runs : List Run) : Prop where
  some_ : ∀ r ∈ runs, r.data ≠ []
  order : runs.Pairwise (fun a b => a.stop ≤ b.offset)
def sum_lens (runs : List Run) : Nat := (runs.map (fun r => r.data.length)).sum
variable {runs runs' : List Run} {offset stop i : Nat} {data : List Byte} {r : Run} {b : Byte}
lemma Run.Puts.lt_stop (puts : r.Puts i b) : i < r.stop := by
  have inside := (List.getElem?_eq_some_iff.mp puts.2).1
  have low := puts.1
  simp only [Run.stop]
  omega
lemma exists_puts (low : r.offset ≤ i) (high : i < r.stop) : ∃ b, r.Puts i b := by
  simp only [Run.stop] at high
  have inside : i - r.offset < r.data.length := by omega
  exact ⟨r.data.get ⟨_,inside⟩,low,getElem?_eq_getElem inside⟩
lemma offset_lt_stop (some_ : r.data ≠ []) : r.offset < r.stop := by
  have pos := length_pos_iff.mpr some_
  simp only [Run.stop]
  omega
lemma holds_cons : Holds (r :: runs) i b ↔ r.Puts i b ∨ Holds runs i b := by simp [Holds]
lemma holds_append : Holds (runs ++ runs') i b ↔ Holds runs i b ∨ Holds runs' i b := by
  simp only [Holds,mem_append]
  constructor
  · rintro ⟨r,left | right,puts⟩
    · exact Or.inl ⟨r,left,puts⟩
    · exact Or.inr ⟨r,right,puts⟩
  · rintro (⟨r,left,puts⟩ | ⟨r,right,puts⟩)
    · exact ⟨r,Or.inl left,puts⟩
    · exact ⟨r,Or.inr right,puts⟩
@[simp] lemma holds_nil : ¬ Holds [] i b := by simp [Holds]
lemma ordered_cons : Ordered (r :: runs) ↔ r.data ≠ [] ∧ (∀ q ∈ runs, r.stop ≤ q.offset) ∧ Ordered runs := by
  constructor
  · intro ordered
    obtain ⟨first,rest⟩ := pairwise_cons.mp ordered.order
    exact ⟨ordered.some_ r mem_cons_self,first,fun q mem => ordered.some_ q (mem_cons_of_mem _ mem),rest⟩
  · rintro ⟨some_,first,rest⟩
    refine ⟨fun q mem => ?_,pairwise_cons.mpr ⟨first,rest.order⟩⟩
    rcases mem_cons.mp mem with rfl | later
    · exact some_
    · exact rest.some_ q later

/-! ## Insertion -/
structure Inserted (runs : List Run) (new : Run) (runs' : List Run) : Prop where
  ordered : Ordered runs'
  holds : ∀ i b, Holds runs' i b ↔ Holds runs i b ∨ new.Puts i b
  sum : sum_lens runs' = sum_lens runs + new.data.length
  apart : ∀ r ∈ runs, r.Apart new
  above : ∀ lo ≤ new.offset, (∀ r ∈ runs, lo ≤ r.offset) → ∀ r ∈ runs', lo ≤ r.offset
  below : ∀ hi, new.stop ≤ hi → (∀ r ∈ runs, r.stop ≤ hi) → ∀ r ∈ runs', r.stop ≤ hi

section Insertion
variable {new : Run} (some_ : new.data ≠ [])

include some_ in
lemma inserted_front (ordered : Ordered runs) (ahead : ∀ r ∈ runs, new.stop ≤ r.offset) : Inserted runs new (new :: runs) where
  ordered := ordered_cons.mpr ⟨some_,ahead,ordered⟩
  holds := fun i b => by
    rw [holds_cons]
    exact Or.comm
  sum := by
    simp only [sum_lens,map_cons,sum_cons]
    omega
  apart := fun r mem => Or.inr (ahead r mem)
  above := by
    intro lo low others r mem
    rcases mem_cons.mp mem with rfl | later
    · exact low
    · exact others r later
  below := by
    intro hi high others r mem
    rcases mem_cons.mp mem with rfl | later
    · exact high
    · exact others r later
/-- Insertion further on passes over a run that ends before the new piece. -/
lemma Inserted.pass (inserted : Inserted runs new runs') (ordered : Ordered (r :: runs)) (before : r.stop ≤ new.offset) :
    Inserted (r :: runs) new (r :: runs') := by
  obtain ⟨here,first,rest⟩ := ordered_cons.mp ordered
  refine ⟨ordered_cons.mpr ⟨here,inserted.above r.stop before first,inserted.ordered⟩,?_,?_,?_,?_,?_⟩
  · intro i b
    rw [holds_cons,holds_cons,inserted.holds,or_assoc]
  · have sum := inserted.sum
    simp only [sum_lens,map_cons,sum_cons] at sum ⊢
    omega
  · intro q mem
    rcases mem_cons.mp mem with rfl | later
    · exact Or.inl before
    · exact inserted.apart q later
  · intro lo low others q mem
    rcases mem_cons.mp mem with rfl | later
    · exact others q mem_cons_self
    · exact inserted.above lo low (fun p p_in => others p (mem_cons_of_mem _ p_in)) q later
  · intro hi high others q mem
    rcases mem_cons.mp mem with rfl | later
    · exact others q mem_cons_self
    · exact inserted.below hi high (fun p p_in => others p (mem_cons_of_mem _ p_in)) q later
end Insertion
lemma search_spec (some_ : data ≠ []) (ordered : Ordered runs) (found : search offset (offset + data.length) data runs = .ok runs') :
    Inserted runs ⟨offset,data⟩ runs' := by
  induction runs generalizing runs' with
  | nil =>
    obtain rfl := Except.ok.inj found
    exact inserted_front some_ ordered nofun
  | cons run rest ih =>
    obtain ⟨_,first,others⟩ := ordered_cons.mp ordered
    unfold search at found
    split at found
    · rename_i before
      obtain rfl := Except.ok.inj found
      refine inserted_front some_ ordered fun q mem => ?_
      rcases mem_cons.mp mem with rfl | later
      · exact before
      · have some' := offset_lt_stop (ordered.some_ run mem_cons_self)
        exact le_trans before (le_trans (le_of_lt some') (first q later))
    split at found
    · rename_i after
      cases inner : search offset (offset + data.length) data rest with
      | error e => simp [inner,Except.map] at found
      | ok tail =>
        simp only [inner,Except.map,Except.ok.injEq] at found
        subst found
        exact (ih others inner).pass ordered after
    split at found
    · exact absurd found (by simp)
    · exact absurd found (by simp)
lemma inserted_back {new : Run} (some_ : new.data ≠ []) (ordered : Ordered runs)
    (behind : ∀ r ∈ runs, r.stop ≤ new.offset) : Inserted runs new (runs ++ [new]) := by
  induction runs with
  | nil => exact inserted_front some_ ordered nofun
  | cons run rest ih =>
    obtain ⟨_,_,others⟩ := ordered_cons.mp ordered
    exact (ih others (fun q mem => behind q (mem_cons_of_mem _ mem))).pass ordered (behind run mem_cons_self)
lemma inserted_last {last : Run} (some_ : data ≠ []) (ordered : Ordered (runs ++ [last])) :
    Inserted (runs ++ [last]) ⟨last.stop,data⟩ (runs ++ [{ last with data := last.data ++ data }]) := by
  induction runs with
  | nil =>
    obtain ⟨here,_,_⟩ := ordered_cons.mp ordered
    refine ⟨ordered_cons.mpr ⟨by simp [some_],by simp,⟨by simp,List.Pairwise.nil⟩⟩,?_,?_,?_,?_,?_⟩
    · intro i b
      simp only [nil_append,holds_cons,holds_nil,or_false,Run.Puts]
      by_cases early : i < last.stop
      · simp only [Run.stop] at early ⊢
        constructor
        · rintro ⟨low,read⟩
          rw [getElem?_append_left (by omega)] at read
          exact Or.inl ⟨low,read⟩
        · rintro (⟨low,read⟩ | ⟨low,_⟩)
          · rw [getElem?_append_left (by omega)]
            exact ⟨low,read⟩
          · omega
      · simp only [Run.stop] at early ⊢
        have shift : i - last.offset - last.data.length = i - (last.offset + last.data.length) := by omega
        constructor
        · rintro ⟨low,read⟩
          rw [getElem?_append_right (by omega),shift] at read
          exact Or.inr ⟨by omega,read⟩
        · rintro (⟨_,read⟩ | ⟨low,read⟩)
          · have inside := (List.getElem?_eq_some_iff.mp read).1
            omega
          · rw [getElem?_append_right (by omega),shift]
            exact ⟨by omega,read⟩
    · simp [sum_lens]
    · intro q mem
      obtain rfl := mem_singleton.mp mem
      exact Or.inl le_rfl
    · intro lo low others q mem
      obtain rfl := mem_singleton.mp mem
      exact others last (by simp)
    · intro hi high others q mem
      obtain rfl := mem_singleton.mp mem
      simp only [Run.stop,length_append] at high ⊢
      omega
  | cons run rest ih =>
    obtain ⟨_,first,others⟩ := ordered_cons.mp ordered
    have before := first last (by simp)
    have some' := offset_lt_stop (ordered.some_ last (by simp))
    exact (ih others).pass ordered (le_trans before (le_of_lt some'))
lemma queue_insert_spec (some_ : data ≠ []) (ordered : Ordered runs)
    (found : queue_insert runs offset (offset + data.length) data = .ok runs') : Inserted runs ⟨offset,data⟩ runs' := by
  unfold queue_insert at found
  cases tail : runs.getLast? with
  | none =>
    rw [tail] at found
    obtain rfl := getLast?_eq_none_iff.mp tail
    obtain rfl := Except.ok.inj found
    exact inserted_back some_ ordered nofun
  | some last =>
    rw [tail] at found
    dsimp only at found
    obtain ⟨front,rfl⟩ := getLast?_eq_some_iff.mp tail
    split at found
    · split at found
      · exact absurd found (by simp)
      rename_i behind
      split at found
      · rename_i continues
        obtain rfl := Except.ok.inj found
        subst continues
        rw [dropLast_concat]
        exact inserted_last some_ ordered
      · obtain rfl := Except.ok.inj found
        refine inserted_back some_ ordered fun q mem => ?_
        rcases mem_append.mp mem with early | late
        · have before := (pairwise_append.mp ordered.order).2.2 q early last (by simp)
          have some' := offset_lt_stop (ordered.some_ last (by simp))
          simp only at behind ⊢
          omega
        · obtain rfl := mem_singleton.mp late
          exact Nat.le_of_not_lt behind
    · exact search_spec some_ ordered found

/-! ## Tilings -/
lemma sum_lens_le (ordered : Ordered runs) {lo hi : Nat} (le : lo ≤ hi)
    (inside : ∀ r ∈ runs, lo ≤ r.offset ∧ r.stop ≤ hi) : sum_lens runs ≤ hi - lo := by
  induction runs generalizing lo with
  | nil => exact Nat.zero_le _
  | cons run rest ih =>
    obtain ⟨_,first,others⟩ := ordered_cons.mp ordered
    obtain ⟨low,high⟩ := inside run mem_cons_self
    have bound := ih others high fun q mem => ⟨first q mem,(inside q (mem_cons_of_mem _ mem)).2⟩
    simp only [sum_lens,map_cons,sum_cons,Run.stop] at bound high ⊢
    omega
/-- Runs that fill a range, one after the other, hold its bytes at their positions. -/
lemma tiling (ordered : Ordered runs) {lo hi : Nat} (inside : ∀ r ∈ runs, lo ≤ r.offset ∧ r.stop ≤ hi)
    (full : sum_lens runs = hi - lo) (le : lo ≤ hi) (i : Nat) (b : Byte) :
    (runs.flatMap Run.data)[i]? = some b ↔ Holds runs (lo + i) b := by
  induction runs generalizing lo i with
  | nil => simp
  | cons run rest ih =>
    obtain ⟨_,first,others⟩ := ordered_cons.mp ordered
    obtain ⟨low,high⟩ := inside run mem_cons_self
    have rest_inside : ∀ r ∈ rest, run.stop ≤ r.offset ∧ r.stop ≤ hi :=
      fun q mem => ⟨first q mem,(inside q (mem_cons_of_mem _ mem)).2⟩
    have bound := sum_lens_le others high rest_inside
    simp only [sum_lens,map_cons,sum_cons] at full bound
    -- nothing is left over before the first run
    have starts : run.offset = lo := by
      simp only [Run.stop] at high bound
      omega
    have rest_full : sum_lens rest = hi - run.stop := by
      simp only [Run.stop,sum_lens] at high ⊢
      omega
    rw [flatMap_cons,holds_cons]
    by_cases early : i < run.data.length
    · rw [getElem?_append_left early]
      have same : lo + i - run.offset = i := by omega
      constructor
      · intro read
        refine Or.inl ⟨by omega,?_⟩
        rw [same]
        exact read
      · rintro (⟨_,read⟩ | ⟨q,mem,puts⟩)
        · rw [same] at read
          exact read
        · have far := (rest_inside q mem).1
          have here := puts.1
          simp only [Run.stop] at far
          omega
    · rw [getElem?_append_right (by omega),ih others rest_inside rest_full high]
      have same : run.stop + (i - run.data.length) = lo + i := by
        simp only [Run.stop]
        omega
      rw [same]
      constructor
      · exact Or.inr
      · rintro (puts | later)
        · have here := puts.lt_stop
          simp only [Run.stop] at here
          omega
        · exact later
end Narf.Net.IpFragment
