import Narf.Lib.Blocks
import Narf.Memory.Word

/-! The buddy allocator of one zone: free lists by migratetype and order. A block is known by
its order and its first frame number. Frame numbers are kept below 2^64 by what is donated,
so additions are exact; where the source saturates, so does the model. -/

namespace Narf.Memory
open Narf.Lib Function List

def MAX_ORDER : Nat := 13
def NUM_ORDERS : Nat := MAX_ORDER + 1
inductive MigrateType where
  | Unmovable | Movable
  deriving DecidableEq
/-- The partitions a request of the type is served from, in turn. -/
def FALLBACK_ORDER : MigrateType → List MigrateType
  | .Unmovable => [.Unmovable,.Movable]
  | .Movable => [.Movable,.Unmovable]
def order_frames (order : Nat) : Nat := 2 ^ order
def buddy_of (frame_no order : Nat) : Nat := frame_no ^^^ 2 ^ order
abbrev Shelf := Nat → List Nat
def Shelf.push (lists : Shelf) (order frame : Nat) : Shelf := update lists order (lists order ++ [frame])
structure BuddyZone where
  free_lists : MigrateType → Shelf
  total_frames : Nat
  free_frames : Nat

namespace BuddyZone
def new : BuddyZone := ⟨fun _ _ => [],0,0⟩
variable (z : BuddyZone)
def set_shelf (mt : MigrateType) (lists : Shelf) : BuddyZone :=
  { z with free_lists := update z.free_lists mt lists }
def set_list (mt : MigrateType) (order : Nat) (list : List Nat) : BuddyZone :=
  z.set_shelf mt (update (z.free_lists mt) order list)

/-! ### Donation -/
/-- The largest order, from `order` down, whose block at `start` is aligned and ends by `stop`. -/
def fitting_order (start stop : Nat) : Nat → Nat
  | 0 => 0
  | order + 1 =>
    if start &&& (order_frames (order + 1) - 1) = 0 ∧ start + order_frames (order + 1) ≤ stop then order + 1
    else fitting_order start stop order
def donate_blocks (lists : Shelf) (start stop : Nat) : Shelf :=
  if start < stop then
    let order := fitting_order start stop MAX_ORDER
    donate_blocks (lists.push order start) (start + order_frames order) stop
  else lists
termination_by stop - start
decreasing_by
  have positive := Nat.two_pow_pos (fitting_order start stop MAX_ORDER)
  simp only [order_frames]
  omega

def donate_as (first_frame frame_count : Nat) (mt : MigrateType) : BuddyZone :=
  let z := { z with total_frames := z.total_frames + frame_count, free_frames := z.free_frames + frame_count }
  z.set_shelf mt (donate_blocks (z.free_lists mt) first_frame (first_frame + frame_count))

/-! ### Allocation -/
/-- Give the upper halves back to `lists` until a block of order `found` has order `order`. -/
def split_down (lists : Shelf) (frame order : Nat) : Nat → Shelf
  | 0 => lists
  | found + 1 => if order < found + 1 then split_down (lists.push found (frame + order_frames found)) frame order found else lists
def find_order (lists : Shelf) (order : Nat) : Option Nat :=
  (range' order (NUM_ORDERS - order)).find? (fun found => !(lists found).isEmpty)
def alloc_within (order : Nat) (src_mt dst_mt : MigrateType) : Option (Nat × BuddyZone) := do
  let found_order ← find_order (z.free_lists src_mt) order
  let frame ← (z.free_lists src_mt found_order).getLast?
  let z := z.set_list src_mt found_order (z.free_lists src_mt found_order).dropLast
  let z := z.set_shelf dst_mt (split_down (z.free_lists dst_mt) frame order found_order)
  some (frame,{ z with free_frames := z.free_frames - order_frames order })
def alloc_mt (order : Nat) (mt : MigrateType) : Option (Nat × BuddyZone) :=
  if MAX_ORDER < order then none
  else (FALLBACK_ORDER mt).findSome? (fun src_mt => z.alloc_within order src_mt mt)
/-- The index of a block of the list that ends below the ceiling. -/
def find_below (order max_frame_no_excl : Nat) (mt : MigrateType) : Option Nat :=
  (z.free_lists mt order).findIdx? (fun f => decide (f + order_frames order ≤ max_frame_no_excl))
/-- Take block `idx` of order `src` and split it down to `order`. At `src = order` there is
    nothing to split, which is the fast path. -/
def take_below (order src idx : Nat) (src_mt mt : MigrateType) : Option (Nat × BuddyZone) := do
  let frame ← (z.free_lists src_mt src)[idx]?
  let z := z.set_list src_mt src (swapRemove (z.free_lists src_mt src) idx)
  let z := z.set_shelf mt (split_down (z.free_lists mt) frame order src)
  some (frame,{ z with free_frames := z.free_frames - order_frames order })
def alloc_below_within (order max_frame_no_excl : Nat) (src_mt mt : MigrateType) : Option (Nat × BuddyZone) :=
  (range' order (NUM_ORDERS - order)).findSome? fun src => do
    let idx ← z.find_below src max_frame_no_excl src_mt
    z.take_below order src idx src_mt mt
def alloc_below_mt (order max_frame_no_excl : Nat) (mt : MigrateType) : Option (Nat × BuddyZone) :=
  if MAX_ORDER < order then none
  else (FALLBACK_ORDER mt).findSome? (fun src_mt => z.alloc_below_within order max_frame_no_excl src_mt mt)

/-! ### Freeing -/
/-- Merge with the buddy while it is free, `fuel` orders up at most. -/
def coalesce (lists : Shelf) (frame order : Nat) : Nat → Shelf
  | 0 => lists.push order frame
  | fuel + 1 =>
    match (lists order).findIdx? (fun f => f == buddy_of frame order) with
    | some idx =>
      coalesce (update lists order (swapRemove (lists order) idx)) (min frame (buddy_of frame order)) (order + 1) fuel
    | none => lists.push order frame
def free_inner (frame order : Nat) (mt : MigrateType) : BuddyZone :=
  let z := { z with free_frames := z.free_frames + order_frames order }
  z.set_shelf mt (coalesce (z.free_lists mt) frame order (MAX_ORDER - order))
def free_mt (frame order : Nat) (mt : MigrateType) : BuddyZone := z.free_inner frame order mt

/-! ### Removing a range -/
/-- The parts of a block outside `[remove_lo, remove_hi)` go back to the lists. A block of
    order 0 is inside or outside. -/
def retain_outside_range (lists : Shelf) (block remove_lo remove_hi : Nat) : Nat → Shelf
  | 0 =>
    if remove_lo ≤ block ∧ block + order_frames 0 ≤ remove_hi then lists else lists.push 0 block
  | order + 1 =>
    if remove_lo ≤ block ∧ block + order_frames (order + 1) ≤ remove_hi then lists
    else if block + order_frames (order + 1) ≤ remove_lo ∨ remove_hi ≤ block then lists.push (order + 1) block
    else
      retain_outside_range (retain_outside_range lists block remove_lo remove_hi order) (block + order_frames order)
        remove_lo remove_hi order
/-- The frames of the range that blocks of order `order` cover. -/
def covered_by (order first_frame stop : Nat) (list : List Nat) (covered : Nat) : Nat :=
  list.foldl (fun covered block =>
    let overlap_lo := max block first_frame
    let overlap_hi := min (saturating_add block (order_frames order)) stop
    if overlap_lo < overlap_hi then saturating_add covered (overlap_hi - overlap_lo) else covered) covered
def covered (z : BuddyZone) (first_frame stop : Nat) : Nat :=
  [MigrateType.Unmovable,.Movable].foldl (fun covered mt =>
    (range NUM_ORDERS).foldl (fun covered order => covered_by order first_frame stop (z.free_lists mt order) covered)
      covered) 0
/-- The scan of one list: every round passes a block or takes one off the list, so `fuel`
    rounds see the whole list when it is no longer. -/
def remove_from_list (order first_frame stop : Nat) (lists : Shelf) (index : Nat) : Nat → Shelf
  | 0 => lists
  | fuel + 1 =>
    match (lists order)[index]? with
    | none => lists
    | some block =>
      if stop ≤ block ∨ block + order_frames order ≤ first_frame then
        remove_from_list order first_frame stop lists (index + 1) fuel
      else
        remove_from_list order first_frame stop
          (retain_outside_range (update lists order (swapRemove (lists order) index)) block first_frame stop order)
          index fuel
/-- All lists of one partition, from the highest order down. -/
@[irreducible] def remove_from_shelf (first_frame stop : Nat) (lists : Shelf) : Shelf :=
  (range NUM_ORDERS).reverse.foldl
    (fun lists order => remove_from_list order first_frame stop lists 0 (lists order).length) lists
/-- The second half of `remove_free_range`: the range is known to be free. -/
def take_range (first_frame stop frame_count : Nat) : BuddyZone where
  free_lists mt := remove_from_shelf first_frame stop (z.free_lists mt)
  total_frames := z.total_frames - frame_count
  free_frames := z.free_frames - frame_count
def remove_free_range (first_frame frame_count : Nat) : Bool × BuddyZone :=
  if frame_count = 0 then (false,z)
  else
    let stop := saturating_add first_frame frame_count
    if stop ≤ first_frame then (false,z)
    else if z.covered first_frame stop ≠ frame_count then (false,z)
    else (true,z.take_range first_frame stop frame_count)

/-! ### Draining -/
/-- The scan of one list: the blocks that stay, and those `predicate` selects in the order
    they are found. -/
def sweep (predicate : Nat → Bool) (list : List Nat) (i : Nat) : List Nat × List Nat :=
  if inside : i < list.length then
    if predicate list[i] then
      let (kept,gone) := sweep predicate (swapRemove list i) i
      (kept,list[i] :: gone)
    else sweep predicate list (i + 1)
  else (list,[])
termination_by list.length - i
decreasing_by
  all_goals have lengths := (perm_swapRemove inside).length_eq
  all_goals simp only [length_cons] at lengths
  all_goals omega

def drain_list (predicate : Nat → Bool) (mt : MigrateType) (zones : BuddyZone × BuddyZone) (order : Nat) : BuddyZone × BuddyZone :=
  let (src,dest) := zones
  let (kept,gone) := sweep predicate (src.free_lists mt order) 0
  let block_frames := gone.length * order_frames order
  ({ src.set_list mt order kept with
      free_frames := src.free_frames - block_frames, total_frames := src.total_frames - block_frames },
    { dest.set_list mt order (dest.free_lists mt order ++ gone) with
      free_frames := dest.free_frames + block_frames, total_frames := dest.total_frames + block_frames })
/-- The source and the destination after the selected blocks have moved. -/
def drain_into (src dest : BuddyZone) (predicate : Nat → Bool) : BuddyZone × BuddyZone :=
  [MigrateType.Unmovable,.Movable].foldl
    (fun zones mt => (range NUM_ORDERS).foldl (drain_list predicate mt) zones) (src,dest)
end BuddyZone
end Narf.Memory
