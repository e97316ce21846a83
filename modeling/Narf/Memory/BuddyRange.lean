import Narf.Memory.BuddyRun

/-! What two requests on a zone answer, for any zone and not only along a run: the removal of a
    range of frames, and an allocation below a ceiling. Donated frames have numbers below `2 ^ 64`, so that the end of
    a block is a plain sum. -/

namespace Narf.Memory.BuddyZone
open Lib List Finset

variable {z : BuddyZone} {first count order ceiling f : Nat} {mt : MigrateType}
def Free (z : BuddyZone) (mt : MigrateType) (f : Nat) : Prop :=
  ∃ k < NUM_ORDERS, ∃ s ∈ z.free_lists mt k, s ≤ f ∧ f < s + 2 ^ k
lemma free_iff_weight : z.Free mt f ↔ 0 < (z.free_lists mt).weight (Pi.single f 1) := by
  rw [Shelf.weight,shelfMass,sum_pos_iff]
  simp only [listMass,List.sum_pos_iff_exists_pos_nat,List.mem_map,Finset.mem_range,exists_exists_and_eq_and]
  refine exists_congr fun k => and_congr_right (fun _ => exists_congr (fun s => and_congr_right (fun _ => ?_)))
  rw [mass_single]
  split <;> simp_all

def free_set (z : BuddyZone) : Finset Nat :=
  z.blocks.toFinset.biUnion (fun b => Finset.Ico b.2 (b.2 + 2 ^ b.1))
lemma mem_free_set : f ∈ z.free_set ↔ ∃ mt, z.Free mt f := by
  simp only [free_set,mem_biUnion,mem_toFinset,mem_Ico,Free]
  constructor
  · rintro ⟨⟨k,s⟩,listed,inside⟩
    obtain ⟨below,mt,mem⟩ := mem_blocks.mp listed
    exact ⟨mt,k,below,s,mem,inside⟩
  · rintro ⟨mt,k,below,s,mem,inside⟩
    exact ⟨(k,s),mem_blocks.mpr ⟨below,mt,mem⟩,inside⟩
section
variable (disjoint : z.blocks.Pairwise Apart)
include disjoint
lemma weight_eq_sum (u : Nat → Nat) : z.weight u = ∑ f ∈ z.free_set, u f := by
  rw [← blocksWeight_blocks]
  exact sum_mass_of_apart disjoint
lemma weight_on_range (D : Finset Nat) : z.weight (on D (fun _ => 1)) = (z.free_set ∩ D).card := by
  rw [weight_eq_sum disjoint,← filter_mem_eq_inter,card_filter]
  rfl
/-- The count passes exactly the ranges that do not wrap and are free throughout. -/
lemma covered_iff (nonempty : 0 < count) : first < saturating_add first count ∧ z.covered first (saturating_add first count) = count ↔
      first + count < 2 ^ 64 ∧ Finset.Ico first (first + count) ⊆ z.free_set := by
  have top : saturating_add first count ≤ 2 ^ 64 - 1 := min_le_right _ _
  have stop : saturating_add first count = min (first + count) (2 ^ 64 - 1) := rfl
  have most := card_le_card (@Finset.inter_subset_right _ _ z.free_set (Finset.Ico first (saturating_add first count)))
  rw [Nat.card_Ico] at most
  rw [covered_eq top,weight_on_range disjoint]
  constructor
  · rintro ⟨ahead,full⟩
    obtain same : saturating_add first count = first + count := by omega
    rw [same] at full most
    refine ⟨by omega,inter_eq_right.mp (eq_of_subset_of_card_le inter_subset_right ?_)⟩
    rw [Nat.card_Ico]
    omega
  · rintro ⟨fits,free⟩
    have same : saturating_add first count = first + count := by omega
    rw [same,inter_eq_right.mpr free,Nat.card_Ico]
    omega
lemma remove_free_range_eq (first count : Nat) : z.remove_free_range first count =
      if 0 < count ∧ first + count < 2 ^ 64 ∧ Finset.Ico first (first + count) ⊆ z.free_set then
        (true,z.take_range first (first + count) count) else (false,z) := by
  simp only [remove_free_range]
  by_cases zero : count = 0
  · simp [zero]
  have whole := @covered_iff z first count disjoint (Nat.pos_of_ne_zero zero)
  rw [if_neg zero]
  by_cases all : first + count < 2 ^ 64 ∧ Finset.Ico first (first + count) ⊆ z.free_set
  · obtain ⟨ahead,full⟩ := whole.mpr all
    have stop : saturating_add first count = first + count := by
      rw [saturating_add]
      omega
    rw [if_neg (Nat.not_le_of_lt ahead),if_neg (not_not.mpr full),if_pos ⟨Nat.pos_of_ne_zero zero,all⟩,stop]
  · rw [if_neg (fun yes : 0 < count ∧ _ => all yes.2)]
    split
    · rfl
    · next ahead => exact if_pos (fun full => all (whole.mp ⟨Nat.lt_of_not_le ahead,full⟩))
end
lemma off_single (D : Finset Nat) (f : Nat) : off D (Pi.single f 1) = if f ∈ D then 0 else Pi.single f 1 := by
  funext g
  by_cases same : g = f
  · subst same
    by_cases mem : g ∈ D <;> simp [off,mem]
  · by_cases mem : f ∈ D <;> simp [off,mem,same]
@[simp] lemma shelf_weight_zero (lists : Shelf) : lists.weight 0 = 0 := by
  rw [Shelf.weight,← blocksWeight_shelf]
  exact sum_eq_zero (by simp [mass])
/-- The removal of a range takes all of it or nothing. -/
theorem remove_free_range_exact (aligned : z.Aligned) (disjoint : z.blocks.Pairwise Apart) (first count : Nat) :
    ((z.remove_free_range first count).1 = true ↔
      0 < count ∧ first + count < 2 ^ 64 ∧ ∀ f, first ≤ f → f < first + count → ∃ mt, z.Free mt f) ∧
    ((z.remove_free_range first count).1 = false → (z.remove_free_range first count).2 = z) ∧
    ∀ z', z.remove_free_range first count = (true,z') → (∀ mt f, z'.Free mt f ↔ z.Free mt f ∧ ¬ (first ≤ f ∧ f < first + count)) ∧
      z'.Aligned ∧ z'.blocks.Pairwise Apart ∧
      -- the counters, where they account for the free frames
      (z.free_set.card ≤ z.free_frames → z'.free_frames + count = z.free_frames) ∧
      (z.free_set.card ≤ z.total_frames → z'.total_frames + count = z.total_frames) := by
  have free : Finset.Ico first (first + count) ⊆ z.free_set ↔
      ∀ f, first ≤ f → f < first + count → ∃ mt, z.Free mt f := by
    simp only [subset_iff,mem_Ico,mem_free_set,and_imp]
  rw [remove_free_range_eq disjoint,← free]
  split
  case isFalse refused => exact ⟨iff_of_false nofun refused,fun _ => rfl,nofun⟩
  case isTrue all =>
  refine ⟨iff_of_true rfl all,nofun,?_⟩
  rintro z' ⟨⟩
  have weight (mt : MigrateType) (u : Nat → Nat) :
      ((z.take_range first (first + count) count).free_lists mt).weight u =
        (z.free_lists mt).weight (off (Finset.Ico first (first + count)) u) := weight_remove_from_shelf (aligned mt)
  have card := card_le_card all.2.2
  rw [Nat.card_Ico] at card
  refine ⟨fun mt f => ?_,fun mt => (remove_from_shelf_spec (aligned mt)).1.aligned (aligned mt),?_,?_,?_⟩
  · rw [free_iff_weight,free_iff_weight,weight,off_single,← mem_Ico]
    split <;> simp_all
  · refine pairwise_apart_of_mass (fun f => ?_)
    change blocksWeight _ _ ≤ 1
    rw [blocksWeight_blocks,BuddyZone.weight,weight,weight,off_single]
    split
    · simp
    · change z.weight _ ≤ 1
      rw [weight_eq_sum disjoint,sum_pi_single']
      split <;> omega
  · simp only [take_range]
    omega
  · simp only [take_range]
    omega
/-- One free block, of the two frames 0 and 1. -/
def one_block : BuddyZone := new.set_list .Unmovable 1 [0]
lemma aligned_one_block : one_block.Aligned := by
  intro mt k s mem
  rcases mem_set_list mem with ⟨rfl,rfl,here⟩ | none_
  · simp_all
  · exact nomatch none_
lemma free_one_block (below : f < 2) : one_block.Free .Unmovable f :=
  ⟨1,by decide,0,by simp [one_block,set_list,set_shelf],Nat.zero_le f,below⟩
theorem remove_half_block : ∃ z', one_block.remove_free_range 0 1 = (true,z') ∧ z'.Free .Unmovable 1 := by
  have blocks : one_block.blocks = [(1,0)] := rfl
  obtain ⟨answer,_,taken⟩ := remove_free_range_exact aligned_one_block (by simp [blocks]) 0 1
  have yes := answer.mpr ⟨by decide,by decide,fun f _ high => ⟨.Unmovable,free_one_block (by omega)⟩⟩
  exact ⟨_,Prod.ext yes rfl,((taken _ (Prod.ext yes rfl)).1 _ 1).mpr ⟨free_one_block (by decide),by decide⟩⟩

/-! ### Below a ceiling -/
/-- An aligned block of the order lies inside one free block and below the ceiling. -/
def Fits (z : BuddyZone) (order ceiling : Nat) : Prop :=
  ∃ mt, ∃ k < NUM_ORDERS, ∃ s ∈ z.free_lists mt k, ∃ b, 2 ^ order ∣ b ∧ s ≤ b ∧ b + 2 ^ order ≤ min (s + 2 ^ k) ceiling
/-- A whole free block of the order or a higher one lies below the ceiling. -/
def WholeBelow (z : BuddyZone) (order ceiling : Nat) : Prop :=
  ∃ mt, ∃ k < NUM_ORDERS, order ≤ k ∧ ∃ s ∈ z.free_lists mt k, s + 2 ^ k ≤ ceiling
lemma find_below_isSome {k : Nat} : (z.find_below k ceiling mt).isSome ↔ ∃ s ∈ z.free_lists mt k, s + 2 ^ k ≤ ceiling := by
  simp only [find_below,findIdx?_isSome,any_eq_true,decide_eq_true_eq]
  rfl
lemma take_below_of_find {k idx : Nat} {src_mt : MigrateType} (found : z.find_below k ceiling src_mt = some idx) :
    ∃ s ∈ z.free_lists src_mt k, s + 2 ^ k ≤ ceiling ∧ ∃ z', z.take_below order k idx src_mt mt = some (s,z') := by
  obtain ⟨inside,fits,_⟩ := findIdx?_eq_some_iff_getElem.mp found
  refine ⟨_,getElem_mem inside,of_decide_eq_true fits,?_⟩
  rw [take_below,getElem?_eq_getElem inside]
  exact ⟨_,rfl⟩
/-- The search takes whole blocks only: a free block that straddles the ceiling is passed over
    although its lower part fits. -/
theorem alloc_below_whole (z : BuddyZone) (order ceiling : Nat) (mt : MigrateType) :
    ((z.alloc_below_mt order ceiling mt).isSome ↔ z.WholeBelow order ceiling) ∧
      ((z.Fits order ceiling → (z.alloc_below_mt order ceiling mt).isSome) ↔ z.WholeBelow order ceiling ∨ ¬ z.Fits order ceiling) ∧
      ∀ frame z', z.alloc_below_mt order ceiling mt = some (frame,z') → frame + 2 ^ order ≤ ceiling ∧
        ∃ src_mt, ∃ k < NUM_ORDERS, order ≤ k ∧ frame ∈ z.free_lists src_mt k := by
  have returned (frame : Nat) (z' : BuddyZone) (done : z.alloc_below_mt order ceiling mt = some (frame,z')) :
      ∃ src_mt, ∃ k < NUM_ORDERS, order ≤ k ∧ frame ∈ z.free_lists src_mt k ∧ frame + 2 ^ k ≤ ceiling := by
    unfold alloc_below_mt at done
    split at done
    · cases done
    obtain ⟨src_mt,_,within⟩ := exists_of_findSome?_eq_some done
    obtain ⟨k,listed,taken⟩ := exists_of_findSome?_eq_some within
    obtain ⟨idx,found,taken⟩ := Option.bind_eq_some_iff.mp taken
    obtain ⟨s,member,below,z₁,taken'⟩ := @take_below_of_find z order ceiling mt k idx src_mt found
    obtain ⟨least,small⟩ := mem_orders listed
    cases taken.symm.trans taken'
    exact ⟨src_mt,k,small,least,member,below⟩
  have succeeds : (z.alloc_below_mt order ceiling mt).isSome ↔ z.WholeBelow order ceiling := by
    refine ⟨fun some_ => ?_,?_⟩
    · obtain ⟨⟨frame,z'⟩,done⟩ := Option.isSome_iff_exists.mp some_
      obtain ⟨src_mt,k,small,least,member,below⟩ := returned frame z' done
      exact ⟨src_mt,k,small,least,frame,member,below⟩
    · rintro ⟨src_mt,k,small,least,block⟩
      obtain ⟨idx,found⟩ := Option.isSome_iff_exists.mp (find_below_isSome.mpr block)
      obtain ⟨s,_,_,z',taken⟩ := @take_below_of_find z order ceiling mt k idx src_mt found
      have possible : ¬ MAX_ORDER < order := by
        unfold NUM_ORDERS at small
        omega
      rw [alloc_below_mt,if_neg possible,findSome?_isSome_iff]
      refine ⟨src_mt,by cases mt <;> cases src_mt <;> simp [FALLBACK_ORDER],?_⟩
      rw [alloc_below_within,findSome?_isSome_iff]
      refine ⟨k,mem_range'_1.mpr (by omega),?_⟩
      rw [found]
      exact Option.isSome_iff_exists.mpr ⟨_,taken⟩
  refine ⟨succeeds,by rw [succeeds]; tauto,fun frame z' done => ?_⟩
  obtain ⟨src_mt,k,small,least,member,below⟩ := returned frame z' done
  have grows := Nat.pow_le_pow_right Nat.two_pos least
  exact ⟨by omega,src_mt,k,small,least,member⟩
/-- Frame 0 of the block lies below the ceiling. -/
theorem alloc_below_misses : one_block.Fits 0 1 ∧ one_block.alloc_below_mt 0 1 .Unmovable = none :=
  ⟨⟨.Unmovable,1,by decide,0,by simp [one_block,set_list,set_shelf],0,by simp⟩,rfl⟩
end Narf.Memory.BuddyZone
