import Narf.Lib.SortedMap

namespace Narf.Memory
open Lib
open List hiding lookup

/-! The physical backing of a region: frames by page offset, stored in blocks of 64 pages. Absent
    blocks and slots read as frame zero, which is "not backed". -/

def BLOCK_PAGES : Nat := 64
/-- The block directory, sorted by the first page of each block, and the logical length. -/
structure RegionBacking where
  blocks : SortedMap Nat (List Nat)
  len : Nat
  /-- A block starts at a multiple of the block size and stays within it and within the length. -/
  aligned : ∀ b ∈ blocks.entries, BLOCK_PAGES ∣ b.1 ∧ b.2.length ≤ BLOCK_PAGES ∧ b.1 + b.2.length ≤ len

namespace RegionBacking
variable {a b : RegionBacking} {i j : Nat}
def new : RegionBacking := ⟨.empty,0,by simp [SortedMap.empty]⟩
def blockOf (index : Nat) : Nat := index / BLOCK_PAGES * BLOCK_PAGES
def slots (b : RegionBacking) (index : Nat) : List Nat := (b.blocks.get (blockOf index)).getD []
def get (b : RegionBacking) (index : Nat) : Option Nat :=
  if b.len ≤ index then none else some ((b.slots index)[index % BLOCK_PAGES]?.getD 0)
def backing_at (b : RegionBacking) (index : Nat) : Nat := (b.get index).getD 0
def padded (slots : List Nat) (length : Nat) : List Nat :=
  slots ++ List.replicate (length - slots.length) 0
lemma mem_slots (nonempty : b.slots i ≠ []) : (blockOf i,b.slots i) ∈ b.blocks.entries := by
  unfold slots at nonempty ⊢
  cases found : b.blocks.get (blockOf i) with
  | none => exact absurd (by rw [found]; rfl) nonempty
  | some s => exact (lookup_eq_some_iff b.blocks.sorted).mp found
lemma length_slots (b : RegionBacking) (i : Nat) : (b.slots i).length ≤ BLOCK_PAGES := by
  by_cases empty : b.slots i = []
  · rw [empty]
    exact Nat.zero_le _
  · exact (b.aligned _ (mem_slots empty)).2.1
lemma slot_within (b : RegionBacking) (i : Nat) (k : Nat) (inside : k < (b.slots i).length) : blockOf i + k < b.len := by
  have nonempty : b.slots i ≠ [] := ne_nil_of_length_pos (by omega)
  have bound := (b.aligned _ (mem_slots nonempty)).2.2
  simp only at bound
  omega
lemma blockOf_add_mod (i : Nat) : blockOf i + i % BLOCK_PAGES = i := Nat.div_add_mod' i BLOCK_PAGES
lemma blockOf_of_dvd {first k : Nat} (dvd : BLOCK_PAGES ∣ first) (small : k < BLOCK_PAGES) :
    blockOf (first + k) = first ∧ (first + k) % BLOCK_PAGES = k := by
  obtain ⟨c,rfl⟩ := dvd
  constructor
  · rw [blockOf,Nat.mul_add_div (by decide),Nat.div_eq_of_lt small]
    simp [mul_comm]
  · rw [Nat.mul_add_mod,Nat.mod_eq_of_lt small]
/-- Outside the logical length no slot is stored, so the length test of `get` decides nothing
    about the frame. -/
lemma backing_at_eq (b : RegionBacking) (i : Nat) : b.backing_at i = (b.slots i)[i % BLOCK_PAGES]?.getD 0 := by
  unfold backing_at get
  split
  · rename_i beyond
    have absent : (b.slots i).length ≤ i % BLOCK_PAGES := by
      by_contra inside
      have within := slot_within b i (i % BLOCK_PAGES) (by omega)
      rw [blockOf_add_mod] at within
      omega
    rw [getElem?_eq_none absent]
  · rfl
lemma backing_at_beyond (beyond : b.len ≤ i) : b.backing_at i = 0 := by simp [backing_at,get,beyond]
/-- `reserve_slot` of an offset and the store of a frame into it. -/
def put (b : RegionBacking) (index frame : Nat) : RegionBacking where
  blocks := b.blocks.insert (blockOf index)
    ((padded (b.slots index) (index % BLOCK_PAGES + 1)).set (index % BLOCK_PAGES) frame)
  len := max b.len (index + 1)
  aligned := by
    intro e member
    have small : index % BLOCK_PAGES < BLOCK_PAGES := Nat.mod_lt _ (by decide)
    rcases mem_insertEntry.mp member with rfl | ⟨old,_⟩
    · have length := length_slots b index
      have split_ := blockOf_add_mod index
      refine ⟨Nat.dvd_mul_left _ _,?_,?_⟩
      · simp only [length_set,padded,length_append,length_replicate]
        omega
      · simp only [length_set,padded,length_append,length_replicate]
        by_cases inside : index % BLOCK_PAGES + 1 ≤ (b.slots index).length
        · have within := slot_within b index ((b.slots index).length - 1) (by omega)
          omega
        · omega
    · obtain ⟨dvd,length,bound⟩ := b.aligned e old
      exact ⟨dvd,length,by omega⟩
lemma getElem?_padded_set {s : List Nat} {k frame : Nat} (m : Nat) :
    (((padded s (k + 1)).set k frame)[m]?).getD 0 = if m = k then frame else (s[m]?).getD 0 := by
  have long : k < (padded s (k + 1)).length := by
    simp only [padded,length_append,length_replicate]
    omega
  by_cases same : m = k
  · subst same
    simp [long]
  · rw [getElem?_set_ne (Ne.symm same),if_neg same,padded]
    by_cases inside : m < s.length
    · rw [getElem?_append_left inside]
    · rw [getElem?_append_right (by omega),getElem?_eq_none (by omega : s.length ≤ m),getElem?_replicate]
      split <;> rfl
lemma backing_at_put (b : RegionBacking) (i frame j : Nat) : (b.put i frame).backing_at j = if j = i then frame else b.backing_at j := by
  rw [backing_at_eq,backing_at_eq]
  have found : (b.put i frame).slots j =
      if blockOf j = blockOf i then (padded (b.slots i) (i % BLOCK_PAGES + 1)).set (i % BLOCK_PAGES) frame
      else b.slots j := by
    unfold slots
    have step := lookup_insertEntry b.blocks.sorted (blockOf i)
      ((padded (b.slots i) (i % BLOCK_PAGES + 1)).set (i % BLOCK_PAGES) frame) (blockOf j)
    change ((lookup (insertEntry _ _ _) _).getD []) = _
    rw [step]
    split
    · rfl
    · rfl
  rw [found]
  by_cases block : blockOf j = blockOf i
  · have agree : b.slots j = b.slots i := by rw [slots,slots,block]
    rw [if_pos block,getElem?_padded_set,agree]
    have same : j % BLOCK_PAGES = i % BLOCK_PAGES ↔ j = i := by
      constructor
      · intro equal
        rw [← blockOf_add_mod j,← blockOf_add_mod i,block,equal]
      · rintro rfl
        rfl
    simp [same]
  · have other : j ≠ i := fun equal => block (by rw [equal])
    rw [if_neg block,if_neg other]

def puts (b : RegionBacking) (frames : List (Nat × Nat)) : RegionBacking :=
  frames.foldl (fun b f => b.put f.1 f.2) b
lemma backing_at_puts (b : RegionBacking) {frames : List (Nat × Nat)} (nodup : (frames.map Prod.fst).Nodup)
    (j : Nat) : (∀ f, (j,f) ∈ frames → (b.puts frames).backing_at j = f) ∧
      (j ∉ frames.map Prod.fst → (b.puts frames).backing_at j = b.backing_at j) := by
  induction frames generalizing b with
  | nil => simp [puts]
  | cons e es ih =>
    rw [map_cons,nodup_cons] at nodup
    obtain ⟨stored,kept⟩ := ih (b.put e.1 e.2) nodup.2
    constructor
    · intro f mem
      rcases mem_cons.mp mem with rfl | later
      · refine (kept nodup.1).trans ?_
        rw [backing_at_put,if_pos rfl]
      · exact stored f later
    · intro absent
      rw [map_cons,mem_cons,not_or] at absent
      refine (kept absent.2).trans ?_
      rw [backing_at_put,if_neg absent.1]
lemma len_puts (b : RegionBacking) (frames : List (Nat × Nat)) {n : Nat} (bound : ∀ f ∈ frames, f.1 < n)
    (start : b.len ≤ n) : (b.puts frames).len ≤ n := by
  induction frames generalizing b with
  | nil => exact start
  | cons e es ih =>
    have first := bound e mem_cons_self
    refine ih (b.put e.1 e.2) (fun f mem => bound f (mem_cons_of_mem _ mem)) ?_
    exact max_le start first
def indexed (b : RegionBacking) : List (Nat × Nat) :=
  b.blocks.entries.flatMap (fun e => e.2.zipIdx.map (fun s => (e.1 + s.2,s.1)))

variable {f : Nat}
lemma mem_indexed : (i,f) ∈ b.indexed ↔ (b.slots i)[i % BLOCK_PAGES]? = some f := by
  rw [indexed,mem_flatMap]
  constructor
  · rintro ⟨e,block,mem⟩
    obtain ⟨⟨g,k⟩,inside,equal⟩ := mem_map.mp mem
    simp only [Prod.mk.injEq] at equal
    obtain ⟨rfl,rfl⟩ := equal
    have at_k : e.2[k]? = some g := mk_mem_zipIdx_iff_getElem?.mp inside
    have bound := (List.getElem?_eq_some_iff.mp at_k).1
    obtain ⟨dvd,length,_⟩ := b.aligned e block
    obtain ⟨first,rest⟩ := blockOf_of_dvd dvd (by omega : k < BLOCK_PAGES)
    have found : b.slots (e.1 + k) = e.2 := by
      rw [slots,first,SortedMap.get,(lookup_eq_some_iff b.blocks.sorted).mpr block]
      rfl
    rw [found,rest]
    exact at_k
  · intro stored
    have bound := (List.getElem?_eq_some_iff.mp stored).1
    have nonempty : b.slots i ≠ [] := ne_nil_of_length_pos (by omega)
    refine ⟨_,mem_slots nonempty,mem_map.mpr ⟨(f,i % BLOCK_PAGES),?_,?_⟩⟩
    · exact mk_mem_zipIdx_iff_getElem?.mpr stored
    · simp [blockOf_add_mod]
lemma lt_of_mem_indexed (mem : (i,f) ∈ b.indexed) : i < b.len := by
  have stored := mem_indexed.mp mem
  have within := slot_within b i _ (List.getElem?_eq_some_iff.mp stored).1
  rwa [blockOf_add_mod] at within
lemma backing_at_of_mem (mem : (i,f) ∈ b.indexed) : b.backing_at i = f := by
  rw [backing_at_eq,mem_indexed.mp mem]
  rfl
lemma mem_indexed_of_ne_zero (backed : b.backing_at i ≠ 0) : (i,b.backing_at i) ∈ b.indexed := by
  rw [mem_indexed]
  rw [backing_at_eq] at backed ⊢
  cases stored : (b.slots i)[i % BLOCK_PAGES]? with
  | none => exact absurd (by rw [stored]; rfl) backed
  | some f => rfl
section
variable (b)
lemma sorted_indexed : (b.indexed.map Prod.fst).Pairwise (· < ·) := by
  rw [indexed,map_flatMap,pairwise_flatMap]
  constructor
  · intro e _
    have offsets : (e.2.zipIdx.map (fun s => (e.1 + s.2,s.1))).map Prod.fst =
        (e.2.zipIdx.map Prod.snd).map (e.1 + ·) := by
      rw [map_map,map_map]
      rfl
    rw [offsets,zipIdx_map_snd]
    exact (pairwise_lt_range').map _ fun x y less => Nat.add_lt_add_left less _
  · refine List.Pairwise.imp_of_mem ?_ b.blocks.sorted
    intro d e first second below
    simp only [mem_map]
    rintro _ ⟨_,⟨⟨f,k⟩,inside,rfl⟩,rfl⟩ _ ⟨_,⟨⟨g,k'⟩,inside',rfl⟩,rfl⟩
    have bound := (List.getElem?_eq_some_iff.mp (mk_mem_zipIdx_iff_getElem?.mp inside)).1
    obtain ⟨⟨c,dvd⟩,length,_⟩ := b.aligned d first
    obtain ⟨⟨c',dvd'⟩,_,_⟩ := b.aligned e second
    simp only [BLOCK_PAGES] at dvd dvd' length ⊢
    omega
lemma nodup_indexed : (b.indexed.map Prod.fst).Nodup := b.sorted_indexed.imp ne_of_lt

def indexed_range (b : RegionBacking) (first stop : Nat) : List (Nat × Nat) :=
  b.indexed.filter (fun s => first ≤ s.1 ∧ s.1 < min stop b.len)
def resident_count (b : RegionBacking) : Nat := b.indexed.countP (fun s => s.2 ≠ 0)
lemma resident_count_eq : b.resident_count = (List.range b.len).countP (b.backing_at · ≠ 0) := by
  have same : ((b.indexed.filter (·.2 ≠ 0)).map Prod.fst).Perm
      ((List.range b.len).filter (b.backing_at · ≠ 0)) := by
    refine (perm_ext_iff_of_nodup ?_ (nodup_range.filter _)).mpr ?_
    · exact (nodup_indexed b).sublist (filter_sublist.map _)
    · intro i
      simp only [mem_map,mem_filter,mem_range,decide_eq_true_eq,Prod.exists,exists_and_right,exists_eq_right]
      constructor
      · rintro ⟨f,mem,backed⟩
        exact ⟨lt_of_mem_indexed mem,by rwa [backing_at_of_mem mem]⟩
      · rintro ⟨_,backed⟩
        exact ⟨_,mem_indexed_of_ne_zero backed,backed⟩
  rw [resident_count,countP_eq_length_filter,countP_eq_length_filter,← same.length_eq,length_map]
lemma resident_count_le : b.resident_count ≤ b.len := by
  rw [resident_count_eq]
  exact countP_le_length.trans (le_of_eq length_range)
def lengthened (b : RegionBacking) (len : Nat) : RegionBacking where
  blocks := b.blocks
  len := max b.len len
  aligned := fun e member => by
    obtain ⟨dvd,length,bound⟩ := b.aligned e member
    exact ⟨dvd,length,by omega⟩
lemma backing_at_lengthened (len i : Nat) : (b.lengthened len).backing_at i = b.backing_at i := by
  rw [backing_at_eq,backing_at_eq]
  rfl
/-- The window of `pages` pages from `first` on, as a backing of its own. -/
def try_window (b : RegionBacking) (first pages : Nat) : RegionBacking :=
  let stop := min (first + pages) b.len
  (new.lengthened (stop - first)).puts ((b.indexed_range first stop).map (fun s => (s.1 - first,s.2)))
lemma backing_at_try_window (first pages i : Nat) :
    (b.try_window first pages).backing_at i = if i < pages then b.backing_at (first + i) else 0 := by
  have nodup : (((b.indexed_range first (min (first + pages) b.len)).map
      (fun s => (s.1 - first,s.2))).map Prod.fst).Nodup := by
    rw [map_map]
    have shifted : (Prod.fst ∘ fun s : Nat × Nat => (s.1 - first,s.2)) = (· - first) ∘ Prod.fst := rfl
    rw [shifted,← map_map]
    refine ((nodup_indexed b).sublist (filter_sublist.map _)).map_on ?_
    intro x inX y inY equal
    obtain ⟨s,memberS,rfl⟩ := mem_map.mp inX
    obtain ⟨t,memberT,rfl⟩ := mem_map.mp inY
    have lowS := (mem_filter.mp memberS).2
    have lowT := (mem_filter.mp memberT).2
    simp only [decide_eq_true_eq] at lowS lowT
    omega
  obtain ⟨stored,kept⟩ := backing_at_puts (new.lengthened (min (first + pages) b.len - first)) nodup i
  have window {f : Nat} : (i,f) ∈ (b.indexed_range first (min (first + pages) b.len)).map
      (fun s => (s.1 - first,s.2)) ↔ (first + i,f) ∈ b.indexed ∧ first + i < min (first + pages) b.len := by
    simp only [mem_map,indexed_range,mem_filter,decide_eq_true_eq,Prod.mk.injEq,Prod.exists]
    constructor
    · rintro ⟨x,g,⟨mem,low,high⟩,shift,rfl⟩
      obtain rfl : x = first + i := by omega
      exact ⟨mem,by omega⟩
    · rintro ⟨mem,high⟩
      exact ⟨first + i,f,⟨mem,by omega,by omega⟩,by omega,rfl⟩
  rw [try_window]
  by_cases inside : i < pages
  · rw [if_pos inside]
    by_cases backed : b.backing_at (first + i) = 0
    · -- an unbacked page is stored as zero or not at all
      rw [backed]
      by_cases listed : i ∈ ((b.indexed_range first (min (first + pages) b.len)).map
          (fun s => (s.1 - first,s.2))).map Prod.fst
      · obtain ⟨⟨x,f⟩,mem,rfl⟩ := mem_map.mp listed
        rw [stored f mem,← backing_at_of_mem (window.mp mem).1,backed]
      · rw [kept listed,backing_at_lengthened]
        rfl
    · have mem := mem_indexed_of_ne_zero backed
      exact stored _ (window.mpr ⟨mem,by have := lt_of_mem_indexed mem; omega⟩)
  · rw [if_neg inside,kept,backing_at_lengthened]
    · rfl
    · intro listed
      obtain ⟨⟨x,f⟩,mem,rfl⟩ := mem_map.mp listed
      have := (window.mp mem).2
      omega
lemma len_try_window (first pages : Nat) : (b.try_window first pages).len ≤ min pages (b.len - first) := by
  refine len_puts _ _ ?_ ?_
  · intro f mem
    obtain ⟨s,inside,rfl⟩ := mem_map.mp mem
    have bounds := (mem_filter.mp inside).2
    simp only [decide_eq_true_eq] at bounds
    omega
  · simp only [lengthened,new]
    omega
end
/-- Append the slots of another backing behind the logical length. -/
def append (a b : RegionBacking) : RegionBacking :=
  (a.puts (b.indexed.map (fun s => (a.len + s.1,s.2)))).lengthened (a.len + b.len)
lemma len_append (a b : RegionBacking) : (a.append b).len = a.len + b.len := by
  have bound := len_puts a (b.indexed.map (fun s => (a.len + s.1,s.2))) (n := a.len + b.len)
    (by
      intro f mem
      obtain ⟨s,inside,rfl⟩ := mem_map.mp mem
      exact Nat.add_lt_add_left (lt_of_mem_indexed inside) _) (Nat.le_add_right _ _)
  simp only [append,lengthened]
  omega
lemma backing_at_append (a b : RegionBacking) (i : Nat) :
    (a.append b).backing_at i = if i < a.len then a.backing_at i else b.backing_at (i - a.len) := by
  have nodup : ((b.indexed.map (fun s => (a.len + s.1,s.2))).map Prod.fst).Nodup := by
    rw [map_map]
    have shifted : (Prod.fst ∘ fun s : Nat × Nat => (a.len + s.1,s.2)) = (a.len + ·) ∘ Prod.fst := rfl
    rw [shifted,← map_map]
    exact (nodup_indexed b).map fun x y equal => Nat.add_left_cancel equal
  obtain ⟨stored,kept⟩ := backing_at_puts a nodup i
  have shifted {f : Nat} : (i,f) ∈ b.indexed.map (fun s => (a.len + s.1,s.2)) ↔
      a.len ≤ i ∧ (i - a.len,f) ∈ b.indexed := by
    simp only [mem_map,Prod.mk.injEq,Prod.exists]
    constructor
    · rintro ⟨x,g,mem,rfl,rfl⟩
      exact ⟨Nat.le_add_right _ _,by rwa [Nat.add_sub_cancel_left]⟩
    · rintro ⟨low,mem⟩
      exact ⟨i - a.len,f,mem,by omega,rfl⟩
  rw [append,backing_at_lengthened]
  by_cases inside : i < a.len
  · rw [if_pos inside,kept]
    intro listed
    obtain ⟨⟨x,f⟩,mem,rfl⟩ := mem_map.mp listed
    have := (shifted.mp mem).1
    simp only at inside
    omega
  · rw [if_neg inside]
    by_cases backed : b.backing_at (i - a.len) = 0
    · rw [backed]
      by_cases listed : i ∈ (b.indexed.map (fun s => (a.len + s.1,s.2))).map Prod.fst
      · obtain ⟨⟨x,f⟩,mem,rfl⟩ := mem_map.mp listed
        rw [stored f mem,← backing_at_of_mem (shifted.mp mem).2,backed]
      · rw [kept listed]
        exact backing_at_beyond (by omega)
    · exact stored _ (shifted.mpr ⟨by omega,mem_indexed_of_ne_zero backed⟩)
lemma resident_count_append (a b : RegionBacking) : (a.append b).resident_count = a.resident_count + b.resident_count := by
  rw [resident_count_eq,resident_count_eq a,resident_count_eq b,len_append,range_add,countP_append,countP_map]
  congr 1
  · refine countP_congr (fun i mem => ?_)
    rw [backing_at_append,if_pos (mem_range.mp mem)]
  · refine countP_congr (fun i _ => ?_)
    simp only [Function.comp_apply]
    rw [backing_at_append,if_neg (by omega),Nat.add_sub_cancel_left]
end RegionBacking
end Narf.Memory
