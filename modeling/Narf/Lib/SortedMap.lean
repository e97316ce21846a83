import Mathlib

namespace Narf.Lib
open List

/-! Finite maps over an ordered key, kept as the list of their entries in key order. Every
    operation is a filter of that list, so it splits along any cut of the entries. -/

variable {K V S : Type*}
/-- Rewrite the values of the selected keys in key order, with a state that the visitor carries
    from one value to the next. -/
def visitEntries (p : K → Bool) (visit : V → S → V × S) : List (K × V) → S → List (K × V) × S
  | [], s => ([],s)
  | e :: es, s =>
    if p e.1 then
      let seen := visit e.2 s
      let rest := visitEntries p visit es seen.2
      ((e.1,seen.1) :: rest.1,rest.2)
    else
      let rest := visitEntries p visit es s
      (e :: rest.1,rest.2)
lemma visitEntries_append (p : K → Bool) (visit : V → S → V × S) (l r : List (K × V)) (s : S) : visitEntries p visit (l ++ r) s =
      ((visitEntries p visit l s).1 ++ (visitEntries p visit r (visitEntries p visit l s).2).1,
        (visitEntries p visit r (visitEntries p visit l s).2).2) := by
  induction l generalizing s with
  | nil => rfl
  | cons e es ih =>
    by_cases selected : p e.1
    · simp [visitEntries,selected,ih]
    · simp [visitEntries,selected,ih]
variable {p : K → Bool} {l : List (K × V)} {e : K × V}
lemma visitEntries_skip (visit : V → S → V × S) (s : S) (no : ∀ a ∈ l, p a.1 = false) : visitEntries p visit l s = (l,s) := by
  induction l with
  | nil => rfl
  | cons e es ih =>
    have rest := ih fun a mem => no a (mem_cons_of_mem _ mem)
    simp [visitEntries,no e mem_cons_self,rest]
lemma map_fst_visitEntries (p : K → Bool) (visit : V → S → V × S) (l : List (K × V)) (s : S) :
    (visitEntries p visit l s).1.map Prod.fst = l.map Prod.fst := by
  induction l generalizing s with
  | nil => rfl
  | cons e es ih =>
    by_cases selected : p e.1
    · simp [visitEntries,selected,ih]
    · simp [visitEntries,selected,ih]
section Entries
variable [LinearOrder K]
/-- Strictly increasing keys: each key occurs once. -/
def Sorted (l : List (K × V)) : Prop := l.Pairwise (fun a b => a.1 < b.1)
def lookup (l : List (K × V)) (k : K) : Option V :=
  (l.find? (fun e => e.1 = k)).map Prod.snd
def insertEntry (l : List (K × V)) (k : K) (v : V) : List (K × V) :=
  l.filter (fun e => e.1 < k) ++ (k,v) :: l.filter (fun e => k < e.1)
def eraseEntry (l : List (K × V)) (k : K) : List (K × V) :=
  l.filter (fun e => e.1 ≠ k)
def lastWhere (p : K → Bool) (l : List (K × V)) : Option (K × V) :=
  (l.filter (fun e => p e.1)).getLast?
def firstWhere (p : K → Bool) (l : List (K × V)) : Option (K × V) :=
  (l.filter (fun e => p e.1)).head?

variable {l r : List (K × V)} {e : K × V} {p : K × V → Bool} {k : K}
lemma sorted_node : Sorted (l ++ e :: r) ↔ Sorted l ∧ Sorted r ∧ (∀ a ∈ l, a.1 < e.1) ∧ ∀ b ∈ r, e.1 < b.1 := by
  simp only [Sorted,pairwise_append,pairwise_cons,mem_cons]
  constructor
  · rintro ⟨left,⟨upper,right⟩,across⟩
    exact ⟨left,right,fun a mem => across a mem e (Or.inl rfl),upper⟩
  · rintro ⟨left,right,under,upper⟩
    refine ⟨left,⟨upper,right⟩,?_⟩
    rintro a mem b (rfl | above)
    · exact under a mem
    · exact (under a mem).trans (upper b above)

omit [LinearOrder K] in
lemma filter_all (every : ∀ a ∈ l, p a) : l.filter p = l := filter_eq_self.mpr every

omit [LinearOrder K] in
lemma filter_none (no : ∀ a ∈ l, p a = false) : l.filter p = [] := filter_eq_nil_iff.mpr (fun a mem => by simp [no a mem])
lemma Sorted.insertEntry (sorted : Sorted l) (k : K) (v : V) : Sorted (insertEntry l k v) := by
  refine sorted_node.mpr ⟨sorted.filter _,sorted.filter _,?_,?_⟩
  · intro a mem
    simpa using (mem_filter.mp mem).2
  · intro b mem
    simpa using (mem_filter.mp mem).2
lemma Sorted.eraseEntry (sorted : Sorted l) (k : K) : Sorted (eraseEntry l k) :=
  sorted.filter _
section Cut
variable {l r : List (K × V)} {e : K × V} {k : K} {v : V}

section
variable (sorted : Sorted (l ++ e :: r))
include sorted
lemma insertEntry_left (before : k < e.1) : insertEntry (l ++ e :: r) k v = insertEntry l k v ++ e :: r := by
  obtain ⟨_,_,_,upper⟩ := sorted_node.mp sorted
  have low : r.filter (fun a => decide (a.1 < k)) = [] :=
    filter_none (fun a mem => by simpa using (before.trans (upper a mem)).le)
  have high : r.filter (fun a => decide (k < a.1)) = r :=
    filter_all (fun a mem => by simpa using before.trans (upper a mem))
  simp [insertEntry,filter_append,before,before.not_gt,low,high]
lemma insertEntry_right (after : e.1 < k) : insertEntry (l ++ e :: r) k v = l ++ e :: insertEntry r k v := by
  obtain ⟨_,_,under,_⟩ := sorted_node.mp sorted
  have low : l.filter (fun a => decide (a.1 < k)) = l :=
    filter_all (fun a mem => by simpa using (under a mem).trans after)
  have high : l.filter (fun a => decide (k < a.1)) = [] :=
    filter_none (fun a mem => by simpa using ((under a mem).trans after).le)
  simp [insertEntry,filter_append,after,after.not_gt,low,high]
lemma insertEntry_self : insertEntry (l ++ e :: r) e.1 v = l ++ (e.1,v) :: r := by
  obtain ⟨_,_,under,upper⟩ := sorted_node.mp sorted
  have low : l.filter (fun a => decide (a.1 < e.1)) = l :=
    filter_all (fun a mem => by simpa using under a mem)
  have high : r.filter (fun a => decide (e.1 < a.1)) = r :=
    filter_all (fun a mem => by simpa using upper a mem)
  have noHigh : l.filter (fun a => decide (e.1 < a.1)) = [] :=
    filter_none (fun a mem => by simpa using (under a mem).le)
  have noLow : r.filter (fun a => decide (a.1 < e.1)) = [] :=
    filter_none (fun a mem => by simpa using (upper a mem).le)
  simp [insertEntry,filter_append,low,high,noHigh,noLow]
lemma eraseEntry_left (before : k < e.1) : eraseEntry (l ++ e :: r) k = eraseEntry l k ++ e :: r := by
  obtain ⟨_,_,_,upper⟩ := sorted_node.mp sorted
  have right : r.filter (fun a => decide (a.1 ≠ k)) = r :=
    filter_all (fun a mem => by simpa using (before.trans (upper a mem)).ne')
  rw [eraseEntry,filter_append,filter_cons,right]
  simp [eraseEntry,before.ne']
lemma eraseEntry_right (after : e.1 < k) : eraseEntry (l ++ e :: r) k = l ++ e :: eraseEntry r k := by
  obtain ⟨_,_,under,_⟩ := sorted_node.mp sorted
  have left_ : l.filter (fun a => decide (a.1 ≠ k)) = l :=
    filter_all (fun a mem => by simpa using ((under a mem).trans after).ne)
  rw [eraseEntry,filter_append,filter_cons,left_]
  simp [eraseEntry,after.ne]
lemma eraseEntry_self : eraseEntry (l ++ e :: r) e.1 = l ++ r := by
  obtain ⟨_,_,under,upper⟩ := sorted_node.mp sorted
  have left_ : l.filter (fun a => decide (a.1 ≠ e.1)) = l :=
    filter_all (fun a mem => by simpa using (under a mem).ne)
  have right : r.filter (fun a => decide (a.1 ≠ e.1)) = r :=
    filter_all (fun a mem => by simpa using (upper a mem).ne')
  rw [eraseEntry,filter_append,filter_cons,left_,right]
  simp
lemma lookup_left (before : k < e.1) : lookup (l ++ e :: r) k = lookup l k := by
  obtain ⟨_,_,_,upper⟩ := sorted_node.mp sorted
  have absent : r.find? (fun a => decide (a.1 = k)) = none :=
    find?_eq_none.mpr (fun a mem => by simpa using (before.trans (upper a mem)).ne')
  simp [lookup,find?_append,before.ne',absent]
lemma lookup_right (after : e.1 < k) : lookup (l ++ e :: r) k = lookup r k := by
  obtain ⟨_,_,under,_⟩ := sorted_node.mp sorted
  have absent : l.find? (fun a => decide (a.1 = k)) = none :=
    find?_eq_none.mpr (fun a mem => by simpa using ((under a mem).trans after).ne)
  simp [lookup,find?_append,after.ne,absent]
lemma lookup_self : lookup (l ++ e :: r) e.1 = some e.2 := by
  obtain ⟨_,_,under,_⟩ := sorted_node.mp sorted
  have absent : l.find? (fun a => decide (a.1 = e.1)) = none :=
    find?_eq_none.mpr (fun a mem => by simpa using (under a mem).ne)
  simp [lookup,find?_append,absent]
end

variable {p : K → Bool}
/-- A selection closed downwards that takes the middle entry takes everything before it, so the
    last selected entry is there or after it. -/
lemma lastWhere_node (down : ∀ a b, a < b → p b → p a) (sorted : Sorted (l ++ e :: r)) : lastWhere p (l ++ e :: r) =
      if p e.1 then (lastWhere p r).or (some e) else lastWhere p l := by
  obtain ⟨_,_,_,upper⟩ := sorted_node.mp sorted
  by_cases takes : p e.1
  · cases last : (r.filter (p ·.1)).getLast? with
    | none =>
      rw [getLast?_eq_none_iff] at last
      simp [lastWhere,filter_append,takes,last]
    | some x => simp [lastWhere,filter_append,takes,getLast?_append,getLast?_cons,last]
  · have rest : r.filter (p ·.1) = [] := by
      refine filter_none fun a mem => ?_
      by_contra selected
      exact takes (down _ _ (upper a mem) (by simpa using selected))
    simp [lastWhere,filter_append,takes,rest]
lemma firstWhere_node (up : ∀ a b, a < b → p a → p b) (sorted : Sorted (l ++ e :: r)) : firstWhere p (l ++ e :: r) =
      if p e.1 then (firstWhere p l).or (some e) else firstWhere p r := by
  obtain ⟨_,_,under,_⟩ := sorted_node.mp sorted
  by_cases takes : p e.1
  · simp [firstWhere,filter_append,takes,head?_append]
  · have rest : l.filter (p ·.1) = [] := by
      refine filter_none fun a mem => ?_
      by_contra selected
      exact takes (up _ _ (under a mem) (by simpa using selected))
    simp [firstWhere,filter_append,takes,rest]
end Cut
/-- Taking entries from the front until the first key the condition refuses is selecting them. -/
lemma takeWhile_eq_filter {p : K → Bool} (down : ∀ a b, a < b → p b → p a) (sorted : Sorted l) :
    l.takeWhile (p ·.1) = l.filter (p ·.1) := by
  induction l with
  | nil => rfl
  | cons e es ih =>
    obtain ⟨upper,rest⟩ := pairwise_cons.mp sorted
    by_cases takes : p e.1
    · simp [takes,ih rest]
    · have none_ : es.filter (p ·.1) = [] := by
        refine filter_none fun a mem => ?_
        by_contra selected
        exact takes (down _ _ (upper a mem) (by simpa using selected))
      simp [takes,none_]
lemma sorted_iff_keys : Sorted l ↔ (l.map Prod.fst).Pairwise (· < ·) :=
  pairwise_map.symm
lemma lookup_eq_none_iff : lookup l k = none ↔ ∀ e ∈ l, e.1 ≠ k := by simp [lookup]
lemma mem_insertEntry {v : V} : e ∈ insertEntry l k v ↔ e = (k,v) ∨ e ∈ l ∧ e.1 ≠ k := by
  simp only [insertEntry,mem_append,mem_cons,mem_filter,decide_eq_true_eq]
  constructor
  · rintro (⟨mem,below⟩ | rfl | ⟨mem,above⟩)
    · exact Or.inr ⟨mem,below.ne⟩
    · exact Or.inl rfl
    · exact Or.inr ⟨mem,above.ne'⟩
  · rintro (rfl | ⟨mem,other⟩)
    · exact Or.inr (Or.inl rfl)
    · rcases lt_or_gt_of_ne other with below | above
      · exact Or.inl ⟨mem,below⟩
      · exact Or.inr (Or.inr ⟨mem,above⟩)
lemma Sorted.key_unique (sorted : Sorted l) {a b : K × V} (first : a ∈ l) (second : b ∈ l) (same : a.1 = b.1) : a = b := by
  by_contra different
  have apart := Pairwise.forall_of_forall_of_flip (R := fun x y : K × V => x ≠ y → x.1 ≠ y.1) (l := l)
    (fun _ _ other => absurd rfl other) (sorted.imp (fun below _ => below.ne))
    (sorted.imp (fun below _ => below.ne'))
  exact apart first second different same
lemma lookup_eq_some_iff (sorted : Sorted l) {v : V} : lookup l k = some v ↔ (k,v) ∈ l := by
  constructor
  · intro found
    obtain ⟨e,search,value⟩ := Option.map_eq_some_iff.mp found
    have mem := mem_of_find?_eq_some search
    have key : e.1 = k := by simpa using find?_some search
    have whole : e = (k,v) := Prod.ext key value
    rwa [whole] at mem
  · intro mem
    cases found : lookup l k with
    | none => exact absurd rfl (lookup_eq_none_iff.mp found _ mem)
    | some w =>
      obtain ⟨e,search,value⟩ := Option.map_eq_some_iff.mp found
      have key : e.1 = k := by simpa using find?_some search
      have same := sorted.key_unique (mem_of_find?_eq_some search) mem key
      rw [← value,same]
lemma lookup_insertEntry (sorted : Sorted l) (k : K) (v : V) (k' : K) :
    lookup (insertEntry l k v) k' = if k' = k then some v else lookup l k' := by
  have sorted' := sorted.insertEntry k v
  by_cases same : k' = k
  · rw [if_pos same,lookup_eq_some_iff sorted',mem_insertEntry]
    exact Or.inl (by rw [same])
  · rw [if_neg same]
    apply Option.ext
    intro w
    rw [lookup_eq_some_iff sorted',lookup_eq_some_iff sorted,mem_insertEntry]
    simp [same]
lemma insertEntry_between (v : V) (under : ∀ a ∈ l, a.1 < k) (upper : ∀ b ∈ r, k < b.1) : insertEntry (l ++ r) k v = l ++ (k,v) :: r := by
  have lowL : l.filter (fun a => decide (a.1 < k)) = l := filter_all fun a mem => by simpa using under a mem
  have highL : l.filter (fun a => decide (k < a.1)) = [] :=
    filter_none (fun a mem => by simpa using (under a mem).le)
  have lowR : r.filter (fun a => decide (a.1 < k)) = [] :=
    filter_none (fun a mem => by simpa using (upper a mem).le)
  have highR : r.filter (fun a => decide (k < a.1)) = r := filter_all fun a mem => by simpa using upper a mem
  simp [insertEntry,filter_append,lowL,highL,lowR,highR]
end Entries
lemma lastWhere_split (found : lastWhere p l = some e) : ∃ before after, l = before ++ e :: after ∧ p e.1 ∧ ∀ b ∈ after, p b.1 = false := by
  obtain ⟨front,selected⟩ := getLast?_eq_some_iff.mp found
  obtain ⟨l₁,l₂,rfl,_,last⟩ := filter_eq_append_iff.mp selected
  obtain ⟨m₁,m₂,rfl,_,takes,rest⟩ := filter_eq_cons_iff.mp last
  refine ⟨l₁ ++ m₁,m₂,by rw [append_assoc],takes,?_⟩
  intro b mem
  simpa using filter_eq_nil_iff.mp rest b mem
lemma lastWhere_eq_none (missing : lastWhere p l = none) : ∀ e ∈ l, p e.1 = false := by
  intro e mem
  simpa using filter_eq_nil_iff.mp (getLast?_eq_none_iff.mp missing) e mem
lemma firstWhere_split (found : firstWhere p l = some e) :
    ∃ before after, l = before ++ e :: after ∧ p e.1 ∧ ∀ b ∈ before, p b.1 = false := by
  obtain ⟨rest,selected⟩ := head?_eq_some_iff.mp found
  obtain ⟨l₁,l₂,rfl,none_,takes,_⟩ := filter_eq_cons_iff.mp selected
  exact ⟨l₁,l₂,rfl,takes,fun b mem => by simpa using none_ b mem⟩
lemma firstWhere_eq_none (missing : firstWhere p l = none) : ∀ e ∈ l, p e.1 = false := by
  intro e mem
  simpa using filter_eq_nil_iff.mp (head?_eq_none_iff.mp missing) e mem
/-- A finite map with ordered keys: the entries in key order, each key once. -/
structure SortedMap (K V : Type*) [LinearOrder K] where
  entries : List (K × V)
  sorted : Sorted entries

namespace SortedMap
variable [LinearOrder K] (m : SortedMap K V)
def empty : SortedMap K V := ⟨[],List.Pairwise.nil⟩
def get (k : K) : Option V := lookup m.entries k
def insert (k : K) (v : V) : SortedMap K V := ⟨insertEntry m.entries k v,m.sorted.insertEntry k v⟩
def erase (k : K) : SortedMap K V := ⟨eraseEntry m.entries k,m.sorted.eraseEntry k⟩
def range (lo hi : K) : List (K × V) := m.entries.filter (fun e => lo ≤ e.1 ∧ e.1 < hi)
/-- Rewrite the values of the selected keys, in key order. -/
def visitWhere (p : K → Bool) (visit : V → S → V × S) (s : S) : SortedMap K V × S :=
  (⟨(visitEntries p visit m.entries s).1,
    by rw [sorted_iff_keys,map_fst_visitEntries]; exact sorted_iff_keys.mp m.sorted⟩,
   (visitEntries p visit m.entries s).2)
end SortedMap
end Narf.Lib
