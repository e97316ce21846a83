import Narf.Memory.BuddySound

/-! Runs of a buddy zone. -/
namespace Narf.Memory
open Finset Option List

open Narf.Lib

namespace BuddyZone
variable {z : BuddyZone} {u : Nat → Nat}
def weight (u : Nat → Nat) (z : BuddyZone) : Nat :=
  (z.free_lists .Unmovable).weight u + (z.free_lists .Movable).weight u
def Aligned (z : BuddyZone) : Prop := ∀ mt, (z.free_lists mt).Aligned
lemma weight_set_shelf (z : BuddyZone) (mt : MigrateType) (lists : Shelf) :
    (z.set_shelf mt lists).weight u + (z.free_lists mt).weight u = z.weight u + lists.weight u := by
  cases mt <;> simp [weight,set_shelf,Function.update] <;> omega
variable {mt : MigrateType} {lists : Shelf} {order found frame lo hi : Nat} {list : List (Nat × Nat)} {D : Finset Nat}
  {predicate : Nat → Bool} {zones : BuddyZone × BuddyZone}

lemma Aligned.set_shelf (aligned : z.Aligned) (kept : lists.Aligned) : (z.set_shelf mt lists).Aligned := by
  intro other
  by_cases same : other = mt
  · subst same
    simpa [BuddyZone.set_shelf] using kept
  · simpa [BuddyZone.set_shelf,same] using aligned other

/-! ### Allocation and freeing -/
/-- What handing out a block of order `order` at `frame` does. -/
structure HandsOut (z : BuddyZone) (order frame : Nat) (z' : BuddyZone) : Prop where
  multiple : 2 ^ order ∣ frame
  aligned : z'.Aligned
  weight : ∀ u, z'.weight u + mass u order frame = z.weight u
  counted : z'.free_frames = z.free_frames - 2 ^ order
lemma hands_out_split (aligned : z.Aligned) {rest : List Nat} (src_mt dst_mt : MigrateType)
    (least : order ≤ found) (below : found < NUM_ORDERS) (perm : (z.free_lists src_mt found).Perm (frame :: rest))
    {z₁ z₂ : BuddyZone} (taken : z₁ = z.set_list src_mt found rest)
    (split : z₂ = z₁.set_shelf dst_mt (split_down (z₁.free_lists dst_mt) frame order found)) :
    z.HandsOut order frame { z₂ with free_frames := z₂.free_frames - order_frames order } := by
  have start : 2 ^ found ∣ frame := aligned src_mt found frame (perm.mem_iff.mpr mem_cons_self)
  have aligned₁ : z₁.Aligned := by
    rw [taken]
    exact aligned.set_shelf ((aligned src_mt).update (fun s mem => perm.mem_iff.mpr (mem_cons_of_mem _ mem)))
  obtain ⟨aligned₂,weight₂⟩ := split_down_spec (aligned₁ dst_mt) least below start
  refine ⟨Dvd.dvd.trans (pow_dvd_pow 2 least) start,?_,fun u => ?_,?_⟩
  · subst split
    exact aligned₁.set_shelf aligned₂
  · have first : z₁.weight u + (z.free_lists src_mt).weight u =
        z.weight u + Shelf.weight u (Function.update (z.free_lists src_mt) found rest) := by
      rw [taken]
      exact weight_set_shelf z src_mt _
    have second : z₂.weight u + (z₁.free_lists dst_mt).weight u =
        z₁.weight u + (split_down (z₁.free_lists dst_mt) frame order found).weight u := by
      rw [split]
      exact weight_set_shelf z₁ dst_mt _
    have removed := @Shelf.weight_update_perm u (z.free_lists src_mt) found frame rest below perm
    have halves := weight₂ u
    change z₂.weight u + mass u order frame = z.weight u
    omega
  · subst split taken
    rfl
lemma mem_orders (mem : found ∈ range' order (NUM_ORDERS - order)) : order ≤ found ∧ found < NUM_ORDERS := by
  rw [mem_range'_1] at mem
  omega
section
variable (aligned : z.Aligned)
include aligned

variable {order frame : Nat} {mt : MigrateType} {z' : BuddyZone}
lemma alloc_within_spec {src_mt dst_mt : MigrateType}
    (done : z.alloc_within order src_mt dst_mt = some (frame,z')) : z.HandsOut order frame z' := by
  obtain ⟨found,search,done⟩ := bind_eq_some_iff.mp done
  obtain ⟨block,popped,done⟩ := bind_eq_some_iff.mp done
  cases done
  obtain ⟨least,below⟩ := mem_orders (mem_of_find?_eq_some search)
  have perm : (z.free_lists src_mt found).Perm (frame :: (z.free_lists src_mt found).dropLast) := by
    nth_rewrite 1 [← dropLast_append_getLast? frame popped]
    exact perm_append_singleton _ _
  exact hands_out_split aligned src_mt dst_mt least below perm rfl rfl
lemma alloc_mt_spec (done : z.alloc_mt order mt = some (frame,z')) : order ≤ MAX_ORDER ∧ z.HandsOut order frame z' := by
  unfold alloc_mt at done
  split at done
  · cases done
  next small =>
  obtain ⟨src_mt,_,within⟩ := exists_of_findSome?_eq_some done
  exact ⟨by omega,alloc_within_spec aligned within⟩
lemma take_below_spec {src idx : Nat} {src_mt : MigrateType}
    (least : order ≤ src) (below : src < NUM_ORDERS) (done : z.take_below order src idx src_mt mt = some (frame,z')) :
    z.HandsOut order frame z' := by
  obtain ⟨block,here,done⟩ := bind_eq_some_iff.mp done
  cases done
  obtain ⟨inside,found⟩ := List.getElem?_eq_some_iff.mp here
  have perm := perm_swapRemove inside
  rw [found] at perm
  exact hands_out_split aligned src_mt mt least below perm rfl rfl
lemma alloc_below_mt_spec {ceiling : Nat}
    (done : z.alloc_below_mt order ceiling mt = some (frame,z')) : order ≤ MAX_ORDER ∧ z.HandsOut order frame z' := by
  unfold alloc_below_mt at done
  split at done
  · cases done
  next small =>
  obtain ⟨src_mt,_,within⟩ := exists_of_findSome?_eq_some done
  obtain ⟨src,mem,taken⟩ := exists_of_findSome?_eq_some within
  obtain ⟨idx,_,taken⟩ := bind_eq_some_iff.mp taken
  obtain ⟨least,below⟩ := mem_orders mem
  exact ⟨by omega,take_below_spec aligned least below taken⟩
lemma free_mt_spec (mt : MigrateType) (small : order ≤ MAX_ORDER) (multiple : 2 ^ order ∣ frame) :
    (z.free_mt frame order mt).Aligned ∧ (∀ u, (z.free_mt frame order mt).weight u = z.weight u + mass u order frame) ∧
      (z.free_mt frame order mt).free_frames = z.free_frames + 2 ^ order := by
  have below : order + (MAX_ORDER - order) < NUM_ORDERS := by
    simp only [NUM_ORDERS]
    omega
  obtain ⟨aligned',weight'⟩ := coalesce_spec (aligned mt) below multiple
  refine ⟨aligned.set_shelf aligned',fun u => ?_,rfl⟩
  have moved := @weight_set_shelf u z mt (coalesce (z.free_lists mt) frame order (MAX_ORDER - order))
  have merged := weight' u
  change (z.set_shelf mt (coalesce (z.free_lists mt) frame order (MAX_ORDER - order))).weight u = _
  omega
lemma donate_as_spec (first count : Nat) (mt : MigrateType) : (z.donate_as first count mt).Aligned ∧
      (∀ u, (z.donate_as first count mt).weight u = z.weight u + ∑ f ∈ Finset.Ico first (first + count), u f) ∧
      (z.donate_as first count mt).free_frames = z.free_frames + count := by
  obtain ⟨aligned',weight'⟩ := donate_blocks_spec (aligned mt) (Nat.le_add_right first count)
  refine ⟨aligned.set_shelf aligned',fun u => ?_,rfl⟩
  have moved := @weight_set_shelf u z mt (donate_blocks (z.free_lists mt) first (first + count))
  have added := weight' u
  change (z.set_shelf mt (donate_blocks (z.free_lists mt) first (first + count))).weight u = _
  omega
end

/-! ### The blocks of a zone -/
def blocks (z : BuddyZone) : List (Nat × Nat) :=
  [MigrateType.Unmovable,.Movable].flatMap fun mt =>
    (List.range NUM_ORDERS).flatMap fun order => (z.free_lists mt order).map (fun frame => (order,frame))
def blocksWeight (u : Nat → Nat) (blocks : List (Nat × Nat)) : Nat := (blocks.map (fun b => mass u b.1 b.2)).sum
lemma blocksWeight_append (u : Nat → Nat) (first second : List (Nat × Nat)) :
    blocksWeight u (first ++ second) = blocksWeight u first + blocksWeight u second := by
  simp [blocksWeight]
lemma blocksWeight_shelf (u : Nat → Nat) (lists : Shelf) (n : Nat) :
    blocksWeight u ((List.range n).flatMap fun order => (lists order).map (fun frame => (order,frame))) = shelfMass u n lists := by
  induction n with
  | zero => rfl
  | succ n ih =>
    rw [range_succ,flatMap_append,blocksWeight_append,ih,shelfMass,shelfMass,Finset.sum_range_succ]
    simp [blocksWeight,listMass,Function.comp_def]
lemma blocksWeight_blocks (u : Nat → Nat) (z : BuddyZone) : blocksWeight u z.blocks = z.weight u := by
  simp only [blocks,flatMap_cons,flatMap_nil,append_nil,blocksWeight_append,blocksWeight_shelf]
  rfl
lemma mem_blocks : (order,frame) ∈ z.blocks ↔ order < NUM_ORDERS ∧ ∃ mt, frame ∈ z.free_lists mt order := by
  have types : (∃ mt, frame ∈ z.free_lists mt order) ↔
      frame ∈ z.free_lists .Unmovable order ∨ frame ∈ z.free_lists .Movable order := by
    constructor
    · rintro ⟨mt,mem⟩
      cases mt with
      | Unmovable => exact .inl mem
      | Movable => exact .inr mem
    · rintro (mem | mem)
      · exact ⟨_,mem⟩
      · exact ⟨_,mem⟩
  rw [types]
  simp [blocks,and_or_left]
/-- Every unit of a block of positive weight somewhere weighs at least that. -/
lemma mass_le_blocksWeight {b : Nat × Nat} (mem : b ∈ list) : mass u b.1 b.2 ≤ blocksWeight u list :=
  single_le_sum (fun _ _ => Nat.zero_le _) _ (mem_map.mpr ⟨b,mem,rfl⟩)
lemma blocksWeight_congr {v : Nat → Nat} (same : ∀ b ∈ list, mass u b.1 b.2 = mass v b.1 b.2) :
    blocksWeight u list = blocksWeight v list := by
  rw [blocksWeight,map_congr_left same]
  rfl
/-- Lists all of whose blocks are clear of `D` weigh the same without `D`. -/
lemma shelf_weight_off (clear : ∀ k < NUM_ORDERS, ∀ s ∈ lists k, Clear D k s) : lists.weight (off D u) = lists.weight u := by
  rw [Shelf.weight,Shelf.weight,← blocksWeight_shelf,← blocksWeight_shelf]
  refine blocksWeight_congr fun b mem => ?_
  obtain ⟨k,below,here⟩ := List.mem_flatMap.mp mem
  obtain ⟨s,listed,rfl⟩ := List.mem_map.mp here
  exact mass_off_of_clear (clear k (List.mem_range.mp below) s listed)
lemma weight_off_of_clear (clear : ∀ mt, ∀ k < NUM_ORDERS, ∀ s ∈ z.free_lists mt k, Clear D k s) : z.weight (off D u) = z.weight u := by
  rw [weight,weight,shelf_weight_off (clear .Unmovable),shelf_weight_off (clear .Movable)]
lemma weight_remove_from_shelf (aligned : lists.Aligned) :
    (remove_from_shelf lo hi lists).weight u = lists.weight (off (Finset.Ico lo hi) u) := by
  obtain ⟨strips,cleared⟩ := @remove_from_shelf_spec lists lo hi aligned
  rw [← shelf_weight_off cleared,strips.weight]

/-! ### Counting the free frames of a range -/
lemma covered_by_eq {list : List Nat} (top : hi ≤ 2 ^ 64 - 1) (c : Nat) (bound : c ≤ 2 ^ 64 - 1) :
    covered_by order lo hi list c = min (c + listMass (on (Finset.Ico lo hi) (fun _ => 1)) order list) (2 ^ 64 - 1) := by
  induction list generalizing c with
  | nil => exact (min_eq_left bound).symm
  | cons block rest ih =>
    have stop : min (saturating_add block (order_frames order)) hi = min (block + 2 ^ order) hi := by
      rw [saturating_add,order_frames]
      omega
    rw [covered_by,foldl_cons,listMass_cons,mass_on_Ico]
    simp only [stop]
    split
    · next meets =>
      have next := ih (saturating_add c (min (block + 2 ^ order) hi - max block lo)) (min_le_right _ _)
      rw [covered_by] at next
      rw [next,saturating_add]
      omega
    · next apart =>
      have next := ih c bound
      rw [covered_by] at next
      have nothing : min (block + 2 ^ order) hi - max block lo = 0 := by omega
      rw [next,nothing,zero_add]
lemma covered_shelf_eq {n : Nat} (top : hi ≤ 2 ^ 64 - 1) (c : Nat) (bound : c ≤ 2 ^ 64 - 1) :
    (List.range n).foldl (fun covered order => covered_by order lo hi (lists order) covered) c =
      min (c + shelfMass (on (Finset.Ico lo hi) (fun _ => 1)) n lists) (2 ^ 64 - 1) := by
  induction n with
  | zero => exact (min_eq_left bound).symm
  | succ n ih =>
    rw [range_succ,foldl_append,ih,foldl_cons,foldl_nil,
      covered_by_eq top _ (min_le_right _ _),shelfMass,shelfMass,Finset.sum_range_succ]
    omega
lemma covered_eq (top : hi ≤ 2 ^ 64 - 1) : z.covered lo hi = min (z.weight (on (Finset.Ico lo hi) (fun _ => 1))) (2 ^ 64 - 1) := by
  simp only [covered,foldl_cons,foldl_nil]
  rw [covered_shelf_eq top 0 (Nat.zero_le _),covered_shelf_eq top _ (min_le_right _ _)]
  simp only [weight,Shelf.weight]
  omega

/-! ### Draining -/
lemma sweep_spec (predicate : Nat → Bool) (list : List Nat) (i : Nat) (passed : ∀ j < i, ∀ s, list[j]? = some s → predicate s = false) :
    list.Perm ((sweep predicate list i).1 ++ (sweep predicate list i).2) ∧
      (∀ s ∈ (sweep predicate list i).1, predicate s = false) ∧ ∀ s ∈ (sweep predicate list i).2, predicate s := by
  fun_induction sweep predicate list i with
  | case1 list i inside selected kept gone swept ih =>
    obtain ⟨perm,stay,leave⟩ := ih (fun j before s there => by
      rw [getElem?_swapRemove_of_lt before inside] at there
      exact passed j before s there)
    rw [swept] at perm stay leave
    refine ⟨(perm_swapRemove inside).trans ((perm.cons _).trans perm_middle.symm),stay,fun s mem => ?_⟩
    rcases mem_cons.mp mem with rfl | later
    · exact selected
    · exact leave s later
  | case2 list i inside unselected ih =>
    refine ih fun j before s there => ?_
    rcases Nat.lt_succ_iff_lt_or_eq.mp before with earlier | rfl
    · exact passed j earlier s there
    · obtain ⟨_,same⟩ := List.getElem?_eq_some_iff.mp there
      rw [← same]
      simpa using unselected
  | case3 list i done =>
    refine ⟨by simp,fun s mem => ?_,fun s mem => nomatch mem⟩
    obtain ⟨j,inside,here⟩ := mem_iff_getElem.mp mem
    exact passed j (lt_of_lt_of_le inside (Nat.le_of_not_lt done)) s (List.getElem?_eq_some_iff.mpr ⟨inside,here⟩)
/-- A zone on the way from `z` to what draining leaves: blocks have only gone, and only those
    whose frames are in `D`. -/
structure Drains (D : Finset Nat) (z src : BuddyZone) : Prop where
  aligned : src.Aligned
  weight : ∀ u, src.weight (off D u) = z.weight (off D u)
  fewer : ∀ mt k s, s ∈ src.free_lists mt k → s ∈ z.free_lists mt k
  counted : src.free_frames = src.weight (fun _ => 1)
lemma mem_set_list {mt' : MigrateType} {k s : Nat} {list : List Nat} (mem : s ∈ (z.set_list mt order list).free_lists mt' k) :
    (mt' = mt ∧ k = order ∧ s ∈ list) ∨ s ∈ z.free_lists mt' k := by
  unfold set_list set_shelf at mem
  by_cases type : mt' = mt
  · subst type
    by_cases same : k = order
    · subst same
      simp only [Function.update_self] at mem
      exact .inl ⟨rfl,rfl,mem⟩
    · simp only [Function.update_self,Function.update_of_ne same] at mem
      exact .inr mem
  · simp only [Function.update_of_ne type] at mem
    exact .inr mem
section
variable (selected : ∀ mt, ∀ k < NUM_ORDERS, ∀ s ∈ z.free_lists mt k, predicate s → ∀ f, s ≤ f → f < s + 2 ^ k → f ∈ D)
include selected
lemma drain_list_spec (below : order < NUM_ORDERS) (drains : Drains D z zones.1) : Drains D z (drain_list predicate mt zones order).1 ∧
      (∀ mt' k s, s ∈ (drain_list predicate mt zones order).1.free_lists mt' k → s ∈ zones.1.free_lists mt' k) ∧
      ∀ s ∈ (drain_list predicate mt zones order).1.free_lists mt order, predicate s = false := by
  obtain ⟨perm,stay,leave⟩ := sweep_spec predicate (zones.1.free_lists mt order) 0
    (fun j before => absurd before (Nat.not_lt_zero j))
  generalize swept : sweep predicate (zones.1.free_lists mt order) 0 = parts at perm stay leave
  have lists : (drain_list predicate mt zones order).1.free_lists = (zones.1.set_list mt order parts.1).free_lists := by
    simp [drain_list,swept]
  have fewer : ∀ s ∈ parts.1, s ∈ zones.1.free_lists mt order :=
    fun s mem => perm.mem_iff.mpr (mem_append_left _ mem)
  have shrinks : ∀ mt' k s, s ∈ (drain_list predicate mt zones order).1.free_lists mt' k → s ∈ zones.1.free_lists mt' k := by
    intro mt' k s mem
    rw [lists] at mem
    rcases mem_set_list mem with ⟨rfl,rfl,here⟩ | old
    · exact fewer s here
    · exact old
  -- the weight of what the list loses
  have moved : ∀ u, (drain_list predicate mt zones order).1.weight u + listMass u order parts.2 = zones.1.weight u := by
    intro u
    have first := @weight_set_shelf u zones.1 mt (Function.update (zones.1.free_lists mt) order parts.1)
    have second := @shelfMass_update u NUM_ORDERS order (zones.1.free_lists mt) parts.1 below
    rw [listMass_perm perm,listMass_append] at second
    have same : (drain_list predicate mt zones order).1.weight u = (zones.1.set_list mt order parts.1).weight u := by
      simp [weight,lists]
    rw [same]
    simp only [Shelf.weight] at first
    simp only [set_list]
    omega
  refine ⟨⟨?_,fun u => ?_,fun mt' k s mem => drains.fewer mt' k s (shrinks mt' k s mem),?_⟩,shrinks,fun s mem => ?_⟩
  · intro other k s mem
    exact drains.aligned other k s (shrinks other k s mem)
  · have gone : listMass (off D u) order parts.2 = 0 := by
      rw [listMass,List.sum_eq_zero]
      intro x mem
      obtain ⟨s,here,rfl⟩ := mem_map.mp mem
      have before : s ∈ z.free_lists mt order :=
        drains.fewer mt order s (perm.mem_iff.mpr (mem_append_right _ here))
      exact mass_off_of_subset (selected mt order below s before (leave s here))
    have total := moved (off D u)
    rw [gone,add_zero] at total
    exact total.trans (drains.weight u)
  · have total := moved (fun _ => 1)
    have frames : listMass (fun _ => 1) order parts.2 = parts.2.length * order_frames order := by
      rw [listMass,map_congr_left (fun s _ => mass_one order s)]
      simp [order_frames]
    have count : (drain_list predicate mt zones order).1.free_frames =
        zones.1.free_frames - parts.2.length * order_frames order := by
      simp [drain_list,swept]
    rw [count,drains.counted]
    omega
  · rw [lists] at mem
    unfold set_list set_shelf at mem
    simp only [Function.update_self] at mem
    exact stay s mem
lemma drain_fold_spec (mt : MigrateType) (orders : List Nat) (below : ∀ k ∈ orders, k < NUM_ORDERS) (drains : Drains D z zones.1) :
    Drains D z (orders.foldl (drain_list predicate mt) zones).1 ∧
      (∀ mt' k s, s ∈ (orders.foldl (drain_list predicate mt) zones).1.free_lists mt' k → s ∈ zones.1.free_lists mt' k) ∧
      ∀ k ∈ orders, ∀ s ∈ (orders.foldl (drain_list predicate mt) zones).1.free_lists mt k, predicate s = false := by
  induction orders generalizing zones with
  | nil => exact ⟨drains,fun _ _ _ mem => mem,fun _ none_ => nomatch none_⟩
  | cons order rest ih =>
    obtain ⟨first,shrinks,clean⟩ := drain_list_spec selected (below order mem_cons_self) drains
    obtain ⟨all,fewer,cleaned⟩ := ih (fun k mem => below k (mem_cons_of_mem _ mem)) first
    refine ⟨all,fun mt' k s mem => shrinks mt' k s (fewer mt' k s mem),fun k listed s mem => ?_⟩
    rcases mem_cons.mp listed with rfl | other
    · exact clean s (fewer mt k s mem)
    · exact cleaned k other s mem
lemma drain_into_spec (dest : BuddyZone) (aligned : z.Aligned) (counted : z.free_frames = z.weight (fun _ => 1)) :
    Drains D z (z.drain_into dest predicate).1 ∧
      ∀ mt, ∀ k < NUM_ORDERS, ∀ s ∈ (z.drain_into dest predicate).1.free_lists mt k, predicate s = false := by
  have start : Drains D z (z,dest).1 := ⟨aligned,fun _ => rfl,fun _ _ _ mem => mem,counted⟩
  have orders : ∀ k ∈ List.range NUM_ORDERS, k < NUM_ORDERS := fun k mem => List.mem_range.mp mem
  obtain ⟨first,_,clean₁⟩ := drain_fold_spec selected .Unmovable (range NUM_ORDERS) orders start
  obtain ⟨second,fewer,clean₂⟩ := drain_fold_spec selected .Movable (range NUM_ORDERS) orders first
  simp only [drain_into,foldl_cons,foldl_nil]
  refine ⟨second,fun mt k below s mem => ?_⟩
  cases mt with
  | Unmovable => exact clean₁ k (List.mem_range.mpr below) s (fewer _ k s mem)
  | Movable => exact clean₂ k (List.mem_range.mpr below) s mem
end
end BuddyZone

/-! ### Runs -/
/-- A zone, the blocks handed out of it by order and first frame, and the frames it owns:
    those donated, without those removed or drained. -/
structure Pool where
  zone : BuddyZone
  outstanding : List (Nat × Nat)
  owned : Finset Nat
inductive PoolOp where
  | donate_as (first_frame frame_count : Nat) (mt : MigrateType)
  | alloc_mt (order : Nat) (mt : MigrateType)
  | alloc_below_mt (order max_frame_no_excl : Nat) (mt : MigrateType)
  | free_mt (frame order : Nat) (mt : MigrateType)
  | remove_free_range (first_frame frame_count : Nat)
  | drain_into (dest : BuddyZone) (predicate : Nat → Bool)

namespace Pool
def start : Pool := ⟨BuddyZone.new,[],∅⟩
/-- A donated range ends below 2^64 and holds no frame of the zone; a freed block is
    outstanding with its order. -/
def Allowed (p : Pool) : PoolOp → Prop
  | .donate_as first count _ => first + count < 2 ^ 64 ∧ Disjoint (Finset.Ico first (first + count)) p.owned
  | .free_mt frame order _ => (order,frame) ∈ p.outstanding
  | _ => True
/-- The frames of the free blocks that `predicate` selects by their first frame. -/
def selected (z : BuddyZone) (predicate : Nat → Bool) : Finset Nat :=
  (z.blocks.filter (fun b => predicate b.2)).toFinset.biUnion (fun b => Finset.Ico b.2 (b.2 + 2 ^ b.1))
def handed (p : Pool) (order : Nat) : Option (Nat × BuddyZone) → Pool
  | some (frame,zone) => { p with zone, outstanding := (order,frame) :: p.outstanding }
  | none => p
def step (p : Pool) : PoolOp → Pool
  | .donate_as first count mt =>
    { p with zone := p.zone.donate_as first count mt, owned := p.owned ∪ Finset.Ico first (first + count) }
  | .alloc_mt order mt => p.handed order (p.zone.alloc_mt order mt)
  | .alloc_below_mt order ceiling mt => p.handed order (p.zone.alloc_below_mt order ceiling mt)
  | .free_mt frame order mt =>
    { p with zone := p.zone.free_mt frame order mt, outstanding := p.outstanding.erase (order,frame) }
  | .remove_free_range first count =>
    match p.zone.remove_free_range first count with
    | (true,zone) => { p with zone, owned := p.owned \ Finset.Ico first (first + count) }
    | (false,zone) => { p with zone }
  | .drain_into dest predicate =>
    { p with zone := (p.zone.drain_into dest predicate).1, owned := p.owned \ selected p.zone predicate }
def Steps (p p' : Pool) : Prop := ∃ op, p.Allowed op ∧ p' = p.step op
/-- A run of any length from the empty zone. -/
def Reachable (p : Pool) : Prop := Relation.ReflTransGen Steps start p

open BuddyZone

structure Conserved (p : Pool) : Prop where
  aligned : p.zone.Aligned
  out : ∀ b ∈ p.outstanding, b.1 ≤ MAX_ORDER ∧ 2 ^ b.1 ∣ b.2
  weight : ∀ u, p.zone.weight u + blocksWeight u p.outstanding = ∑ f ∈ p.owned, u f
  counted : p.zone.free_frames = p.zone.weight (fun _ => 1)
  bounded : ∀ f ∈ p.owned, f < 2 ^ 64 - 1

variable {p : Pool}
lemma weight_new (u : Nat → Nat) : BuddyZone.new.weight u = 0 := by
  simp [BuddyZone.weight,BuddyZone.new,Shelf.weight,shelfMass]
lemma conserved_start : start.Conserved where
  aligned _ _ _ mem := absurd mem not_mem_nil
  out _ mem := absurd mem not_mem_nil
  weight u := by simp [start,weight_new,blocksWeight]
  counted := (weight_new _).symm
  bounded _ mem := absurd mem (notMem_empty _)
variable {first count order : Nat}
lemma conserved_donate (inv : p.Conserved) (mt : MigrateType) (ends : first + count < 2 ^ 64)
    (apart : Disjoint (Finset.Ico first (first + count)) p.owned) : (p.step (.donate_as first count mt)).Conserved := by
  obtain ⟨aligned,weight,counted⟩ := donate_as_spec inv.aligned first count mt
  refine ⟨aligned,inv.out,fun u => ?_,?_,fun f mem => ?_⟩
  · have before := inv.weight u
    simp only [step]
    rw [weight,sum_union apart.symm]
    omega
  · simp only [step]
    rw [counted,weight,inv.counted,sum_const,Nat.card_Ico,Nat.add_sub_cancel_left,nsmul_eq_mul,mul_one,Nat.cast_id]
  · rcases mem_union.mp mem with old | new
    · exact inv.bounded f old
    · have := (mem_Ico.mp new).2
      omega
lemma conserved_handed (inv : p.Conserved) {result : Option (Nat × BuddyZone)}
    (hands : ∀ frame z', result = some (frame,z') → order ≤ MAX_ORDER ∧ p.zone.HandsOut order frame z') :
    (p.handed order result).Conserved := by
  cases result with
  | none => exact inv
  | some out =>
    obtain ⟨frame,z'⟩ := out
    obtain ⟨small,hands⟩ := hands frame z' rfl
    refine ⟨hands.aligned,fun b mem => ?_,fun u => ?_,?_,inv.bounded⟩
    · rcases mem_cons.mp mem with rfl | old
      · exact ⟨small,hands.multiple⟩
      · exact inv.out b old
    · have before := inv.weight u
      have taken := hands.weight u
      simp only [handed,blocksWeight,List.map_cons,List.sum_cons] at *
      omega
    · have taken := hands.weight (fun _ => 1)
      rw [mass_one] at taken
      simp only [handed]
      rw [hands.counted,inv.counted]
      omega
lemma conserved_free (inv : p.Conserved) {frame : Nat} (mt : MigrateType) (held : (order,frame) ∈ p.outstanding) :
    (p.step (.free_mt frame order mt)).Conserved := by
  obtain ⟨small,multiple⟩ := inv.out _ held
  obtain ⟨aligned,weight,counted⟩ := free_mt_spec inv.aligned mt small multiple
  refine ⟨aligned,fun b mem => inv.out b (mem_of_mem_erase mem),fun u => ?_,?_,inv.bounded⟩
  · have before := inv.weight u
    have perm := (perm_cons_erase held).map fun b => mass u b.1 b.2
    have total := perm.sum_eq
    simp only [List.map_cons,List.sum_cons] at total
    simp only [step,blocksWeight] at *
    rw [weight]
    omega
  · simp only [step]
    rw [counted,weight,inv.counted,mass_one]

/-! ### What the weights say about single frames -/
section
variable (inv : p.Conserved)
include inv
lemma Conserved.once (f : Nat) : blocksWeight (Pi.single f 1) (p.zone.blocks ++ p.outstanding) = if f ∈ p.owned then 1 else 0 := by
  rw [blocksWeight_append,blocksWeight_blocks,inv.weight,sum_pi_single']
lemma Conserved.mem_owned_iff (f : Nat) : f ∈ p.owned ↔ ∃ b ∈ p.zone.blocks ++ p.outstanding, b.2 ≤ f ∧ f < b.2 + 2 ^ b.1 := by
  have once := inv.once f
  constructor
  · intro mem
    rw [if_pos mem] at once
    by_contra nowhere
    have nothing : blocksWeight (Pi.single f 1) (p.zone.blocks ++ p.outstanding) = 0 := by
      rw [blocksWeight,List.sum_eq_zero]
      intro x listed
      obtain ⟨b,here,rfl⟩ := mem_map.mp listed
      rw [mass_single,if_neg (fun covers => nowhere ⟨b,here,covers⟩)]
    omega
  · rintro ⟨b,here,covers⟩
    have positive := @mass_le_blocksWeight (Pi.single f 1) _ b here
    rw [mass_single,if_pos covers] at positive
    by_contra absent
    rw [if_neg absent] at once
    omega
lemma Conserved.disjoint : (p.zone.blocks ++ p.outstanding).Pairwise Apart := by
  refine pairwise_apart_of_mass fun f => ?_
  have once := inv.once f
  rw [blocksWeight] at once
  rw [once]
  split <;> omega
lemma Conserved.same_start {mt mt' : MigrateType} {k k' s s' f : Nat} (below : k < NUM_ORDERS)
    (below' : k' < NUM_ORDERS) (mem : s ∈ p.zone.free_lists mt k) (member' : s' ∈ p.zone.free_lists mt' k')
    (here : s ≤ f ∧ f < s + 2 ^ k) (there : s' ≤ f ∧ f < s' + 2 ^ k') : s = s' := by
  by_contra differ
  have apart := inv.disjoint.forall
    (mem_append_left _ (mem_blocks.mpr ⟨below,mt,mem⟩)) (mem_append_left _ (mem_blocks.mpr ⟨below',mt',member'⟩))
    (fun same => differ (Prod.mk.inj same).2)
  exact apart f ⟨here,there⟩
end

/-! ### Taking frames out -/
section
variable (inv : p.Conserved)
include inv

/-- Frames that are all free or not owned can be taken out by leaving the rest as it was. -/
lemma conserved_without {D : Finset Nat} {zone : BuddyZone} (aligned : zone.Aligned)
    (weight : ∀ u, zone.weight u = p.zone.weight (off D u)) (clear : ∀ b ∈ p.outstanding, Clear D b.1 b.2)
    (counted : zone.free_frames = zone.weight (fun _ => 1)) : ({ p with zone, owned := p.owned \ D } : Pool).Conserved where
  aligned := aligned
  out := inv.out
  weight u := by
    have rest : blocksWeight (off D u) p.outstanding = blocksWeight u p.outstanding :=
      blocksWeight_congr (fun b mem => mass_off_of_clear (clear b mem))
    have before := inv.weight (off D u)
    rw [rest,sum_off] at before
    simp only
    rw [weight,before]
  counted := counted
  bounded f mem := inv.bounded f (mem_sdiff.mp mem).1
lemma Conserved.covered (ahead : first < saturating_add first count)
    (full : p.zone.covered first (saturating_add first count) = count) : saturating_add first count = first + count ∧
      p.zone.weight (on (Finset.Ico first (first + count)) (fun _ => 1)) = count ∧
      ∀ b ∈ p.outstanding, Clear (Finset.Ico first (first + count)) b.1 b.2 := by
  have top : saturating_add first count ≤ 2 ^ 64 - 1 := min_le_right _ _
  rw [covered_eq top] at full
  have total := inv.weight (on (Finset.Ico first (saturating_add first count)) (fun _ => 1))
  have most : ∑ f ∈ p.owned, on (Finset.Ico first (saturating_add first count)) (fun _ => 1) f ≤
      saturating_add first count - first := by
    rw [← Nat.card_Ico]
    simp only [on]
    rw [← sum_filter,sum_const,nsmul_eq_mul,mul_one,Nat.cast_id]
    exact card_le_card fun f mem => (mem_filter.mp mem).2
  have stop : saturating_add first count ≤ first + count := min_le_left _ _
  have exact_ : saturating_add first count = first + count := by omega
  rw [exact_] at total most full
  refine ⟨exact_,by omega,fun b mem => clear_of_mass_on ?_⟩
  have little := @mass_le_blocksWeight (on (Finset.Ico first (first + count)) (fun _ => 1)) _ b mem
  omega
lemma conserved_take_range (free : p.zone.weight (on (Finset.Ico first (first + count)) (fun _ => 1)) = count)
    (clear : ∀ b ∈ p.outstanding, Clear (Finset.Ico first (first + count)) b.1 b.2) :
    ({ p with zone := p.zone.take_range first (first + count) count, owned := p.owned \ Finset.Ico first (first + count) } :
      Pool).Conserved := by
  have weight : ∀ u, (p.zone.take_range first (first + count) count).weight u =
      p.zone.weight (off (Finset.Ico first (first + count)) u) := fun u =>
    congrArg₂ (· + ·) (weight_remove_from_shelf (inv.aligned .Unmovable)) (weight_remove_from_shelf (inv.aligned .Movable))
  have parts : p.zone.weight (fun _ => 1) = p.zone.weight (off (Finset.Ico first (first + count)) (fun _ => 1)) +
      p.zone.weight (on (Finset.Ico first (first + count)) (fun _ => 1)) := by
    nth_rewrite 1 [← @off_add_on (Finset.Ico first (first + count)) (fun _ => 1)]
    simp only [BuddyZone.weight,Shelf.weight,shelfMass_add]
    omega
  have aligned : (p.zone.take_range first (first + count) count).Aligned :=
    fun mt => (remove_from_shelf_spec (inv.aligned mt)).1.aligned (inv.aligned mt)
  refine conserved_without inv aligned weight clear ?_
  rw [weight]
  change p.zone.free_frames - count = _
  rw [inv.counted]
  omega
lemma conserved_remove (first count : Nat) : (p.step (.remove_free_range first count)).Conserved := by
  simp only [step,remove_free_range]
  by_cases zero : count = 0
  · rw [if_pos zero]
    exact inv
  rw [if_neg zero]
  by_cases empty : saturating_add first count ≤ first
  · rw [if_pos empty]
    exact inv
  rw [if_neg empty]
  by_cases partly : p.zone.covered first (saturating_add first count) ≠ count
  · rw [if_pos partly]
    exact inv
  rw [if_neg partly]
  obtain ⟨stop,free,clear⟩ := inv.covered (Nat.lt_of_not_le empty) (not_not.mp partly)
  rw [stop]
  exact conserved_take_range inv free clear

omit inv in
lemma mem_selected {z : BuddyZone} {predicate : Nat → Bool} {f : Nat} : f ∈ selected z predicate ↔
      ∃ k < NUM_ORDERS, ∃ mt, ∃ s ∈ z.free_lists mt k, predicate s ∧ s ≤ f ∧ f < s + 2 ^ k := by
  simp only [selected,mem_biUnion,List.mem_toFinset,List.mem_filter,mem_Ico]
  constructor
  · rintro ⟨⟨k,s⟩,⟨listed,chosen⟩,inside⟩
    obtain ⟨below,mt,mem⟩ := mem_blocks.mp listed
    exact ⟨k,below,mt,s,mem,chosen,inside⟩
  · rintro ⟨k,below,mt,s,mem,chosen,inside⟩
    exact ⟨(k,s),⟨mem_blocks.mpr ⟨below,mt,mem⟩,chosen⟩,inside⟩
lemma conserved_drain (dest : BuddyZone) (predicate : Nat → Bool) : (p.step (.drain_into dest predicate)).Conserved := by
  have chosen : ∀ mt, ∀ k < NUM_ORDERS, ∀ s ∈ p.zone.free_lists mt k, predicate s →
      ∀ f, s ≤ f → f < s + 2 ^ k → f ∈ selected p.zone predicate :=
    fun mt k below s mem true_ f low high => mem_selected.mpr ⟨k,below,mt,s,mem,true_,low,high⟩
  obtain ⟨drains,kept⟩ := drain_into_spec chosen dest inv.aligned inv.counted
  have clear : ∀ mt, ∀ k < NUM_ORDERS, ∀ s ∈ (p.zone.drain_into dest predicate).1.free_lists mt k,
      Clear (selected p.zone predicate) k s := by
    intro mt k below s mem f low high drained
    obtain ⟨k',below',mt',s',member',true_,inside⟩ := mem_selected.mp drained
    have same := inv.same_start below below' (drains.fewer mt k s mem) member' ⟨low,high⟩ inside
    rw [← same,kept mt k below s mem] at true_
    cases true_
  refine conserved_without inv drains.aligned (fun u => ?_) (fun b mem f low high drained => ?_) drains.counted
  · rw [← weight_off_of_clear clear]
    exact drains.weight u
  · obtain ⟨k,below,mt,s,here,_,inside⟩ := mem_selected.mp drained
    have apart := (pairwise_append.mp inv.disjoint).2.2 (k,s) (mem_blocks.mpr ⟨below,mt,here⟩) b mem
    exact apart f ⟨inside,low,high⟩
end
lemma conserved_step (inv : p.Conserved) {op : PoolOp} (allowed : p.Allowed op) : (p.step op).Conserved := by
  cases op with
  | donate_as first count mt => exact conserved_donate inv mt allowed.1 allowed.2
  | alloc_mt order mt => exact conserved_handed inv (fun _ _ done => alloc_mt_spec inv.aligned done)
  | alloc_below_mt order ceiling mt => exact conserved_handed inv (fun _ _ done => alloc_below_mt_spec inv.aligned done)
  | free_mt frame order mt => exact conserved_free inv mt allowed
  | remove_free_range first count => exact conserved_remove inv first count
  | drain_into dest predicate => exact conserved_drain inv dest predicate
lemma conserved_reachable (run : p.Reachable) : p.Conserved := by
  induction run with
  | refl => exact conserved_start
  | tail _ last before =>
    obtain ⟨op,allowed,rfl⟩ := last
    exact conserved_step before allowed
/-- Conservation: free blocks are aligned, no two blocks share a frame, together they are the
    frames the zone owns, and the counter is the number of free frames. -/
theorem zone_conserved (run : p.Reachable) : (∀ mt order frame, frame ∈ p.zone.free_lists mt order → 2 ^ order ∣ frame) ∧
      (p.zone.blocks ++ p.outstanding).Pairwise Apart ∧
      (∀ f, f ∈ p.owned ↔ ∃ b ∈ p.zone.blocks ++ p.outstanding, b.2 ≤ f ∧ f < b.2 + 2 ^ b.1) ∧
      p.zone.free_frames = (p.zone.blocks.map (fun b => 2 ^ b.1)).sum := by
  have inv := conserved_reachable run
  refine ⟨inv.aligned,inv.disjoint,inv.mem_owned_iff,?_⟩
  rw [inv.counted,← blocksWeight_blocks,blocksWeight,map_congr_left (fun b _ => mass_one b.1 b.2)]
/-- A block is asked for after a donation. -/
def asked : Pool := (start.step (.donate_as 3 5 .Movable)).step (.alloc_mt 1 .Movable)
theorem zone_conserved_donated : ∃ b ∈ asked.zone.blocks ++ asked.outstanding, b.2 ≤ 7 ∧ 7 < b.2 + 2 ^ b.1 := by
  have owned : 7 ∈ asked.owned := by
    simp only [asked,step,handed]
    split <;> exact Finset.mem_union_right _ (by decide)
  have donated : (start.step (.donate_as 3 5 .Movable)).Reachable :=
    .single ⟨.donate_as 3 5 .Movable,⟨by decide,disjoint_empty_right _⟩,rfl⟩
  exact ((zone_conserved (donated.tail ⟨.alloc_mt 1 .Movable,trivial,rfl⟩)).2.2.1 7).mp owned
end Pool
end Narf.Memory
