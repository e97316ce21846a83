import Narf.Memory.Buddy

/-! Conservation in a buddy zone. Each function is described by what it does to the weight of
the free blocks, for every weighting of frames; over a run, free blocks and outstanding
allocations together weigh what the zone owns. -/

namespace Narf.Memory
open List Function

open Narf.Lib

variable {u : Nat → Nat} {lists : Shelf}
/-- Every block starts at a multiple of its size. -/
def Shelf.Aligned (lists : Shelf) : Prop := ∀ order frame, frame ∈ lists order → 2 ^ order ∣ frame

namespace Shelf
def weight (u : Nat → Nat) (lists : Shelf) : Nat := shelfMass u NUM_ORDERS lists
variable {order frame : Nat} {rest : List Nat}
lemma weight_push (below : order < NUM_ORDERS) (frame : Nat) : (lists.push order frame).weight u = lists.weight u + mass u order frame := by
  have moved := @shelfMass_update u NUM_ORDERS order lists (lists order ++ [frame]) below
  simp only [listMass_append,listMass_cons,listMass_nil] at moved
  simp only [weight,push]
  omega
lemma weight_update_perm (below : order < NUM_ORDERS) (perm : (lists order).Perm (frame :: rest)) :
    weight u (update lists order rest) + mass u order frame = lists.weight u := by
  have moved := @shelfMass_update u NUM_ORDERS order lists rest below
  rw [listMass_perm perm,listMass_cons] at moved
  simp only [weight]
  omega
lemma mem_push {k s : Nat} (mem : s ∈ lists.push order frame k) : s ∈ lists k ∨ (k = order ∧ s = frame) := by
  unfold push at mem
  by_cases same : k = order
  · subst same
    rw [update_self,mem_append,mem_singleton] at mem
    exact mem.imp_right fun equal => ⟨rfl,equal⟩
  · rw [update_of_ne same] at mem
    exact .inl mem
lemma Aligned.push (aligned : lists.Aligned) (start : 2 ^ order ∣ frame) : (lists.push order frame).Aligned := by
  intro k s mem
  rcases mem_push mem with old | ⟨rfl,rfl⟩
  · exact aligned k s old
  · exact start
lemma Aligned.update (aligned : lists.Aligned) (fewer : ∀ s ∈ rest, s ∈ lists order) : Aligned (update lists order rest) := by
  intro k s mem
  by_cases same : k = order
  · subst same
    rw [update_self] at mem
    exact aligned k s (fewer s mem)
  · rw [update_of_ne same] at mem
    exact aligned k s mem
end Shelf

namespace BuddyZone

/-! ### Donation -/
lemma fitting_order_spec (start stop : Nat) (nonempty : start < stop) (order : Nat) :
    fitting_order start stop order ≤ order ∧ 2 ^ fitting_order start stop order ∣ start ∧
      start + 2 ^ fitting_order start stop order ≤ stop := by
  induction order with
  | zero => simp [fitting_order]; omega
  | succ order ih =>
    unfold fitting_order
    split
    · next fits =>
      obtain ⟨aligned,inside⟩ := fits
      rw [order_frames,Nat.and_two_pow_sub_one_eq_mod] at aligned
      exact ⟨le_rfl,Nat.dvd_of_mod_eq_zero aligned,inside⟩
    · exact ⟨Nat.le_succ_of_le ih.1,ih.2⟩
lemma donate_blocks_spec (aligned : lists.Aligned) {start stop : Nat} (ordered : start ≤ stop) : (donate_blocks lists start stop).Aligned ∧
      ∀ u, (donate_blocks lists start stop).weight u = lists.weight u + ∑ f ∈ Finset.Ico start stop, u f := by
  fun_induction donate_blocks lists start stop with
  | case1 lists start nonempty order ih =>
    obtain ⟨below,multiple,inside⟩ := fitting_order_spec start stop nonempty MAX_ORDER
    obtain ⟨aligned',weight⟩ := ih (aligned.push multiple) inside
    refine ⟨aligned',fun u => ?_⟩
    rw [weight,Shelf.weight_push (Nat.lt_succ_of_le below),order_frames,mass,add_assoc]
    exact congrArg (lists.weight u + ·) (Finset.sum_Ico_consecutive u (Nat.le_add_right start _) inside)
  | case2 lists start done =>
    have empty : start = stop := by omega
    subst empty
    exact ⟨aligned,fun u => by simp⟩

/-! ### Allocation -/
variable {frame order : Nat}
lemma split_down_spec (aligned : lists.Aligned) {found : Nat} (least : order ≤ found)
    (below : found < NUM_ORDERS) (multiple : 2 ^ found ∣ frame) : (split_down lists frame order found).Aligned ∧
      ∀ u, (split_down lists frame order found).weight u + mass u order frame = lists.weight u + mass u found frame := by
  induction found generalizing lists with
  | zero =>
    obtain rfl : order = 0 := by omega
    exact ⟨aligned,fun u => rfl⟩
  | succ found ih =>
    unfold split_down
    split
    · have half : 2 ^ found ∣ frame := Dvd.dvd.trans (pow_dvd_pow 2 (Nat.le_succ found)) multiple
      have upper : 2 ^ found ∣ frame + order_frames found := Nat.dvd_add half (Nat.dvd_refl _)
      obtain ⟨aligned',weight⟩ := ih (aligned.push upper) (by omega) (by omega) half
      refine ⟨aligned',fun u => ?_⟩
      rw [weight,Shelf.weight_push (by omega),mass_succ,order_frames]
      omega
    · obtain rfl : order = found + 1 := by omega
      exact ⟨aligned,fun u => rfl⟩

/-! ### Freeing -/
lemma findIdx?_perm {list : List Nat} {idx : Nat} (found : list.findIdx? (· == frame) = some idx) :
    list.Perm (frame :: swapRemove list idx) := by
  obtain ⟨inside,here,_⟩ := List.findIdx?_eq_some_iff_getElem.mp found
  rw [beq_iff_eq] at here
  have perm := perm_swapRemove inside
  rwa [here] at perm
lemma buddy_of_spec (multiple : 2 ^ order ∣ frame) : ∃ m, min frame (buddy_of frame order) = m ∧ 2 ^ (order + 1) ∣ m ∧
      ((frame = m ∧ buddy_of frame order = m + 2 ^ order) ∨ (frame = m + 2 ^ order ∧ buddy_of frame order = m)) :=
  ⟨_,rfl,buddy_halves multiple⟩
lemma coalesce_spec (aligned : lists.Aligned) {fuel : Nat} (below : order + fuel < NUM_ORDERS)
    (multiple : 2 ^ order ∣ frame) : (coalesce lists frame order fuel).Aligned ∧
      ∀ u, (coalesce lists frame order fuel).weight u = lists.weight u + mass u order frame := by
  induction fuel generalizing lists frame order with
  | zero => exact ⟨aligned.push multiple,fun u => Shelf.weight_push (by omega) frame⟩
  | succ fuel ih =>
    unfold coalesce
    split
    · next idx found =>
      have perm := findIdx?_perm found
      obtain ⟨m,lowest,whole,halves⟩ := buddy_of_spec multiple
      have kept : ∀ s ∈ swapRemove (lists order) idx, s ∈ lists order :=
        fun s mem => perm.mem_iff.mpr (mem_cons_of_mem _ mem)
      obtain ⟨aligned',weight⟩ := ih (aligned.update kept) (by omega) whole
      rw [lowest]
      refine ⟨aligned',fun u => ?_⟩
      have removed := @Shelf.weight_update_perm u lists order _ _ (by omega) perm
      rw [weight,mass_succ]
      -- the two halves of the merged block are the freed one and its buddy, in either order
      rcases halves with ⟨lower,upper⟩ | ⟨upper,lower⟩
      · rw [upper] at removed
        rw [lower]
        omega
      · rw [lower] at removed
        rw [upper]
        omega
    · exact ⟨aligned.push multiple,fun u => Shelf.weight_push (by omega) frame⟩

/-! ### Removing a range -/
section Remove
variable {lo hi : Nat}
/-- What a function on the lists of a partition does when it takes the frames of `D` out: all
    other weight stays, and what it adds is clear of `D`. -/
structure Strips (D : Finset Nat) (lists lists' : Shelf) : Prop where
  aligned : lists.Aligned → lists'.Aligned
  weight : ∀ u, lists'.weight (off D u) = lists.weight (off D u)
  fresh : ∀ k s, s ∈ lists' k → s ∈ lists k ∨ Clear D k s
lemma Strips.trans {D : Finset Nat} {mid lists' : Shelf} (first : Strips D lists mid) (second : Strips D mid lists') :
    Strips D lists lists' where
  aligned before := second.aligned (first.aligned before)
  weight u := (second.weight u).trans (first.weight u)
  fresh k s mem := by
    rcases second.fresh k s mem with old | clear
    · exact first.fresh k s old
    · exact .inr clear
variable {order block index : Nat}
lemma clear_Ico_of_apart (apart : block + 2 ^ order ≤ lo ∨ hi ≤ block) : Clear (Finset.Ico lo hi) order block := by
  intro f low high mem
  rw [Finset.mem_Ico] at mem
  omega
/-- What putting the parts of a block outside the range back does. -/
structure Retains (lo hi block order : Nat) (lists lists' : Shelf) : Prop where
  aligned : lists'.Aligned
  weight : ∀ u, lists'.weight u = lists.weight u + mass (off (Finset.Ico lo hi) u) order block
  fresh : ∀ k s, s ∈ lists' k → s ∈ lists k ∨ Clear (Finset.Ico lo hi) k s
  above : ∀ k, order < k → lists' k = lists k
lemma retains_push (aligned : lists.Aligned) (below : order < NUM_ORDERS)
    (multiple : 2 ^ order ∣ block) (apart : block + 2 ^ order ≤ lo ∨ hi ≤ block) :
    Retains lo hi block order lists (lists.push order block) where
  aligned := aligned.push multiple
  weight u := by rw [Shelf.weight_push below,mass_off_of_clear (clear_Ico_of_apart apart)]
  fresh k s mem := by
    rcases Shelf.mem_push mem with old | ⟨rfl,rfl⟩
    · exact .inl old
    · exact .inr (clear_Ico_of_apart apart)
  above k higher := update_of_ne (by omega) _ _
lemma retains_nothing (aligned : lists.Aligned) (inside : lo ≤ block ∧ block + 2 ^ order ≤ hi) : Retains lo hi block order lists lists where
  aligned := aligned
  weight u := by rw [mass_off_of_subset (fun f low high => Finset.mem_Ico.mpr (by omega)),add_zero]
  fresh _ _ mem := .inl mem
  above _ _ := rfl
lemma half_dvd (multiple : 2 ^ (order + 1) ∣ block) : 2 ^ order ∣ block :=
  Dvd.dvd.trans (pow_dvd_pow 2 (Nat.le_succ order)) multiple
lemma retain_outside_range_spec (aligned : lists.Aligned) (below : order < NUM_ORDERS)
    (multiple : 2 ^ order ∣ block) : Retains lo hi block order lists (retain_outside_range lists block lo hi order) := by
  induction order generalizing lists block with
  | zero =>
    unfold retain_outside_range
    split
    · next inside => exact retains_nothing aligned inside
    · next outside =>
      rw [order_frames,pow_zero] at outside
      exact retains_push aligned below multiple (by rw [pow_zero]; omega)
  | succ order ih =>
    unfold retain_outside_range
    split
    · next inside => exact retains_nothing aligned inside
    split
    · next apart => exact retains_push aligned below multiple apart
    · have lower := ih aligned (by omega) (half_dvd multiple)
      have upper := ih lower.aligned (by omega) (Nat.dvd_add (half_dvd multiple) (Nat.dvd_refl (order_frames order)))
      refine ⟨upper.aligned,fun u => ?_,fun k s mem => ?_,fun k above => ?_⟩
      · rw [upper.weight,lower.weight,mass_succ,order_frames]
        omega
      · rcases upper.fresh k s mem with old | clear
        · exact lower.fresh k s old
        · exact .inr clear
      · exact (upper.above k (by omega)).trans (lower.above k (by omega))
/-- A block that reaches into the range leaves nothing at its own order. -/
lemma retain_outside_range_same (meets : ¬ (block + order_frames order ≤ lo ∨ hi ≤ block))
    (aligned : lists.Aligned) (below : order < NUM_ORDERS) (multiple : 2 ^ order ∣ block) :
    retain_outside_range lists block lo hi order order = lists order := by
  cases order with
  | zero =>
    unfold retain_outside_range
    rw [order_frames,pow_zero] at meets ⊢
    rw [if_pos (by omega)]
  | succ order =>
    unfold retain_outside_range
    split
    · rfl
    · have lower : Retains lo hi block order lists _ := retain_outside_range_spec aligned (by omega) (half_dvd multiple)
      have upper : Retains lo hi (block + order_frames order) order _ _ :=
        retain_outside_range_spec lower.aligned (by omega)
          (Nat.dvd_add (half_dvd multiple) (Nat.dvd_refl (order_frames order)))
      exact (upper.above _ (Nat.lt_succ_self _)).trans (lower.above _ (Nat.lt_succ_self _))
/-- The scan has seen the list from its front to `index`. -/
def Passed (lo hi order : Nat) (lists : Shelf) (index : Nat) : Prop :=
  ∀ j < index, ∀ s, (lists order)[j]? = some s → Clear (Finset.Ico lo hi) order s
lemma Passed.all (passed : Passed lo hi order lists index) (past : (lists order).length ≤ index) :
    ∀ s ∈ lists order, Clear (Finset.Ico lo hi) order s := by
  intro s mem
  obtain ⟨j,inside,here⟩ := mem_iff_getElem.mp mem
  exact passed j (lt_of_lt_of_le inside past) s (List.getElem?_eq_some_iff.mpr ⟨inside,here⟩)
lemma Strips.refl (D : Finset Nat) (lists : Shelf) : Strips D lists lists :=
  ⟨id,fun _ => rfl,fun _ _ mem => .inl mem⟩
lemma strips_block (aligned : lists.Aligned) (below : order < NUM_ORDERS)
    (perm : (lists order).Perm (block :: swapRemove (lists order) index)) : Strips (Finset.Ico lo hi) lists
      (retain_outside_range (update lists order (swapRemove (lists order) index)) block lo hi order) := by
  have fewer : ∀ s ∈ swapRemove (lists order) index, s ∈ lists order :=
    fun s mem => perm.mem_iff.mpr (mem_cons_of_mem _ mem)
  have multiple : 2 ^ order ∣ block := aligned order block (perm.mem_iff.mpr mem_cons_self)
  have retains : Retains lo hi block order _ _ := retain_outside_range_spec (aligned.update fewer) below multiple
  refine ⟨fun _ => retains.aligned,fun u => ?_,fun k s mem => ?_⟩
  · have removed := @Shelf.weight_update_perm (off (Finset.Ico lo hi) u) lists order _ _ below perm
    have twice : off (Finset.Ico lo hi) (off (Finset.Ico lo hi) u) = off (Finset.Ico lo hi) u := by
      funext f
      by_cases mem : f ∈ Finset.Ico lo hi <;> simp [off,mem]
    rw [retains.weight,twice]
    exact removed
  · rcases retains.fresh k s mem with old | clear
    · by_cases same : k = order
      · subst same
        rw [update_self] at old
        exact .inl (fewer s old)
      · rw [update_of_ne same] at old
        exact .inl old
    · exact .inr clear
lemma remove_from_list_spec (aligned : lists.Aligned) {fuel : Nat} (below : order < NUM_ORDERS)
    (enough : (lists order).length ≤ index + fuel) (passed : Passed lo hi order lists index) :
    Strips (Finset.Ico lo hi) lists (remove_from_list order lo hi lists index fuel) ∧
      ∀ s ∈ remove_from_list order lo hi lists index fuel order, Clear (Finset.Ico lo hi) order s := by
  induction fuel generalizing lists index with
  | zero => exact ⟨Strips.refl _ _,passed.all enough⟩
  | succ fuel ih =>
    cases here : (lists order)[index]? with
    | none =>
      simp only [remove_from_list,here]
      exact ⟨Strips.refl _ _,passed.all (List.getElem?_eq_none_iff.mp here)⟩
    | some block =>
      simp only [remove_from_list,here]
      obtain ⟨inside,found⟩ := List.getElem?_eq_some_iff.mp here
      by_cases apart : hi ≤ block ∨ block + order_frames order ≤ lo
      · rw [if_pos apart]
        refine @ih lists (index + 1) aligned (by omega) fun j before s there => ?_
        rcases Nat.lt_succ_iff_lt_or_eq.mp before with earlier | rfl
        · exact passed j earlier s there
        · rw [here] at there
          cases there
          exact clear_Ico_of_apart apart.symm
      · rw [if_neg apart]
        have perm := perm_swapRemove inside
        rw [found] at perm
        have multiple : 2 ^ order ∣ block := aligned order block (mem_of_getElem? here)
        have fewer : ∀ s ∈ swapRemove (lists order) index, s ∈ lists order :=
          fun s mem => perm.mem_iff.mpr (mem_cons_of_mem _ mem)
        have strips : Strips (Finset.Ico lo hi) lists _ := strips_block aligned below perm
        have same := retain_outside_range_same (apart ·.symm) (aligned.update fewer) below multiple
        rw [update_self] at same
        have shorter := length_swapRemove inside
        obtain ⟨later,clear⟩ := @ih _ index (strips.aligned aligned) (by rw [same]; omega) (fun j before s there => by
          rw [same,getElem?_swapRemove_of_lt before inside] at there
          exact passed j before s there)
        exact ⟨strips.trans later,clear⟩
/-- The scans of a partition, in whatever order, leave only clear blocks in the lists they scan. -/
lemma remove_fold_spec (orders : List Nat) (below : ∀ order ∈ orders, order < NUM_ORDERS) (aligned : lists.Aligned) :
    Strips (Finset.Ico lo hi) lists (orders.foldl (fun lists order => remove_from_list order lo hi lists 0 (lists order).length) lists) ∧
      ∀ k s, k ∈ orders ∨ (∀ s ∈ lists k, Clear (Finset.Ico lo hi) k s) →
        s ∈ orders.foldl (fun lists order => remove_from_list order lo hi lists 0 (lists order).length) lists k →
          Clear (Finset.Ico lo hi) k s := by
  induction orders generalizing lists with
  | nil => exact ⟨Strips.refl _ _,fun k s done mem => done.elim (fun none_ => nomatch none_) (· s mem)⟩
  | cons order rest ih =>
    obtain ⟨first,clear⟩ := @remove_from_list_spec lists lo hi order 0 aligned (lists order).length
      (below order mem_cons_self) (Nat.le_add_left _ _) (fun j before => absurd before (Nat.not_lt_zero j))
    obtain ⟨later,cleared⟩ := ih (fun other mem => below other (mem_cons_of_mem _ mem)) (first.aligned aligned)
    refine ⟨first.trans later,fun k s done mem => cleared k s ?_ mem⟩
    rcases done with listed | before
    · rcases mem_cons.mp listed with rfl | other
      · exact .inr clear
      · exact .inl other
    · refine .inr (fun t there => ?_)
      exact (first.fresh k t there).elim (before t) id
lemma remove_from_shelf_spec (aligned : lists.Aligned) : Strips (Finset.Ico lo hi) lists (remove_from_shelf lo hi lists) ∧
      ∀ k < NUM_ORDERS, ∀ s ∈ remove_from_shelf lo hi lists k, Clear (Finset.Ico lo hi) k s := by
  unfold remove_from_shelf
  obtain ⟨strips,cleared⟩ := @remove_fold_spec lists lo hi (List.range NUM_ORDERS).reverse (by simp) aligned
  exact ⟨strips,fun k below s mem => cleared k s (.inl (by simpa using below)) mem⟩
end Remove
end BuddyZone
end Narf.Memory
