import Mathlib

namespace Narf.Lib
open List

/-! Finite maps as lists of entries with distinct keys, with sums over their values. -/
structure Table (κ α : Type*) where
  entries : List (κ × α)
  nodup : (entries.map Prod.fst).Nodup

namespace Table
variable {κ α : Type*} [DecidableEq κ]
def empty : Table κ α := ⟨[],nodup_nil⟩
def get (t : Table κ α) (k : κ) : Option α := (t.entries.find? (fun e => e.1 = k)).map Prod.snd
def remove (t : Table κ α) (k : κ) : Table κ α where
  entries := t.entries.filter (fun e => e.1 ≠ k)
  nodup := t.nodup.sublist (filter_sublist.map _)
/-- Add an entry, in the place of an old one for the key. -/
def set (t : Table κ α) (k : κ) (v : α) : Table κ α where
  entries := (k,v) :: (t.remove k).entries
  nodup := by
    refine nodup_cons.mpr ⟨fun member => ?_,(t.remove k).nodup⟩
    obtain ⟨e,inside,same⟩ := mem_map.mp member
    simpa [same] using (mem_filter.mp inside).2
def total (f : α → Nat) (t : Table κ α) : Nat := (t.entries.map (fun e => f e.2)).sum
variable {t : Table κ α} {k k' : κ} {v : α}
@[simp] lemma get_empty : (empty : Table κ α).get k = none := rfl

omit [DecidableEq κ] in
@[simp] lemma total_empty (f : α → Nat) : (empty : Table κ α).total f = 0 := rfl
lemma get_remove : (t.remove k).get k' = if k' = k then none else t.get k' := by
  by_cases same : k' = k
  · subst same
    rw [if_pos rfl,get,Option.map_eq_none_iff,List.find?_eq_none]
    intro e mem
    simpa using (mem_filter.mp mem).2
  · rw [if_neg same,get,get,remove]
    dsimp only
    rw [List.find?_filter]
    congr 2
    funext e
    by_cases here : e.1 = k'
    · simp [here,same]
    · simp [here]
lemma get_set : (t.set k v).get k' = if k' = k then some v else t.get k' := by
  by_cases same : k' = k
  · subst same
    simp [get,set]
  · have others : (t.remove k).get k' = t.get k' := by rw [get_remove,if_neg same]
    rw [if_neg same,← others]
    simp [get,set,Ne.symm same]
lemma get_remove_iff : (t.remove k).get k' = some v ↔ k' ≠ k ∧ t.get k' = some v := by
  rw [get_remove,Option.ite_none_left_eq_some]
lemma get_set_iff {w : α} : (t.set k w).get k' = some v ↔ k' = k ∧ w = v ∨ k' ≠ k ∧ t.get k' = some v := by
  rw [get_set]
  split <;> simp [*]
lemma get_of_mem {e : κ × α} (mem : e ∈ t.entries) : t.get e.1 = some e.2 := by
  obtain ⟨entries,nodup⟩ := t
  induction entries with
  | nil => cases mem
  | cons first rest ih =>
    rw [map_cons,nodup_cons] at nodup
    rcases mem_cons.mp mem with rfl | later
    · simp [get]
    · have differs : first.1 ≠ e.1 := fun same => nodup.1 (same ▸ mem_map_of_mem later)
      have found := ih nodup.2 later
      simpa [get,differs] using found
lemma mem_of_get (found : t.get k = some v) : (k,v) ∈ t.entries := by
  obtain ⟨e,there,rfl⟩ := Option.map_eq_some_iff.mp found
  have same : e.1 = k := by simpa using find?_some there
  exact same ▸ mem_of_find?_eq_some there
lemma total_remove (f : α → Nat) (t : Table κ α) (k : κ) : t.total f = (t.get k).elim 0 f + (t.remove k).total f := by
  obtain ⟨entries,nodup⟩ := t
  induction entries with
  | nil => rfl
  | cons first rest ih =>
    rw [map_cons,nodup_cons] at nodup
    have later := ih nodup.2
    by_cases same : first.1 = k
    · have absent : ∀ e ∈ rest, ¬ e.1 = k := by
        intro e mem there
        exact nodup.1 ((same.trans there.symm) ▸ mem_map_of_mem mem)
      have kept : rest.filter (fun e => !decide (e.1 = k)) = rest := filter_eq_self.mpr (by simpa using absent)
      simp [total,get,remove,same,kept]
    · simp only [total,get,remove] at later ⊢
      simp only [List.find?_cons,filter_cons,same,decide_false,ne_eq,not_false_eq_true,decide_true,if_true,
        map_cons,sum_cons] at later ⊢
      omega
lemma total_set (f : α → Nat) : (t.set k v).total f = f v + (t.remove k).total f := by simp [total,set]
end Table
end Narf.Lib
