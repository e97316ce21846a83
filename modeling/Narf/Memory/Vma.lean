import Narf.Memory.Backing
import Narf.Memory.Word

namespace Narf.Memory
open Lib

/-! The table of base-page VMAs of an address space, over the ordered index that the region index
    refines. Addresses are bytes; every region lies in the user half, so no address sum saturates.
    Publication generations and the demand, copy-on-write, swap and guard-marker side tables are
    left out: no page or counter depends on them. -/

abbrev RegionPerms := BitVec 32

namespace RegionPerms
def EXEC : RegionPerms := 1 <<< 0
def WRITE : RegionPerms := 1 <<< 1
def READ : RegionPerms := 1 <<< 2
def LOCKED : RegionPerms := 1 <<< 8
def STACK_GUARD : RegionPerms := 1 <<< 9
def SHARED : RegionPerms := 1 <<< 10
def FILE_DEMAND : RegionPerms := 1 <<< 11
def COW : RegionPerms := 1 <<< 12
def LOCK_ONFAULT : RegionPerms := 1 <<< 13
def BRK_HEAP : RegionPerms := 1 <<< 14
def LOCK_EXEMPT : RegionPerms := 1 <<< 15
def STACK_SEGMENT : RegionPerms := 1 <<< 16
def ANON_MERGEABLE : RegionPerms := 1 <<< 17
def EXTERNAL_REFS : RegionPerms := 1 <<< 21
def PROT_MASK : RegionPerms := 0b111
def contains (p o : RegionPerms) : Bool := p &&& o == o
def prot_only (p : RegionPerms) : RegionPerms := p &&& PROT_MASK
end RegionPerms

open RegionPerms

inductive AddressSpaceError where
  | AlignmentMismatch | Overlap | OutOfRange | Unmapped | AllocationFailed | LockLimit | StackLimit
  | NotImplemented | SharedMapping
inductive FutureLockPolicy where
  | None | Eager | OnFault
  deriving DecidableEq
def FutureLockPolicy.region_bits : FutureLockPolicy → RegionPerms
  | .None => 0
  | .Eager => LOCKED
  | .OnFault => LOCKED ||| LOCK_ONFAULT
def PAGE : Nat := 4096
def USER_HALF_END : Nat := 0x800000000000
structure Region where
  base : Nat
  len : Nat
  perms : RegionPerms
  phys : RegionBacking

namespace Region
def stop (r : Region) : Nat := r.base + r.len
def pages (r : Region) : Nat := r.len / PAGE
def backing_at (r : Region) (index : Nat) : Nat := r.phys.backing_at index
def allows_sparse_backing (r : Region) : Bool :=
  contains r.perms BRK_HEAP || contains r.perms STACK_SEGMENT || contains r.perms FILE_DEMAND ||
    contains r.perms ANON_MERGEABLE
end Region

inductive Counter where
  | mapped_bytes | guard_bytes | locked_bytes | wnx_bytes | resident_pages
  deriving DecidableEq
/-- `RegionAcct`: a value for each counter. -/
abbrev RegionAcct := Counter → Nat

namespace RegionAcct
def locked_accountable (perms : RegionPerms) : Bool :=
  contains perms LOCKED && !contains perms LOCK_EXEMPT && !contains perms STACK_GUARD
def wnx_accountable (perms : RegionPerms) : Bool := contains perms WRITE && !contains perms EXEC
/-- What `len` bytes of the permissions contribute, residency apart. -/
def flat (perms : RegionPerms) (len : Nat) : Counter → Nat
  | .mapped_bytes => len
  | .guard_bytes => if contains perms STACK_GUARD then len else 0
  | .locked_bytes => if locked_accountable perms then len else 0
  | .wnx_bytes => if wnx_accountable perms then len else 0
  | .resident_pages => 0
def share (region : Region) (c : Counter) : Nat :=
  flat region.perms region.len c +
    match c with
    | .resident_pages => region.phys.resident_count
    | _ => 0
def add_flat (acct : RegionAcct) (perms : RegionPerms) (len : Nat) : RegionAcct :=
  fun c => saturating_add (acct c) (flat perms len c)
def add_region (acct : RegionAcct) (region : Region) : RegionAcct :=
  fun c => saturating_add (acct c) (share region c)
def sub_region (acct : RegionAcct) (region : Region) : RegionAcct :=
  fun c => acct c - share region c
def set (acct : RegionAcct) (c : Counter) (value : Nat) : RegionAcct :=
  fun d => if d = c then value else acct d
end RegionAcct
/-- A partial-VMA replacement, prepared while the source is still in the table. -/
structure PreparedRegionSplit where
  source_base : Nat
  head : Option Region
  middle : Region
  tail : Option Region
def PreparedRegionSplit.pieces (split : PreparedRegionSplit) : List Region :=
  split.head.toList ++ split.middle :: split.tail.toList
def prepare_region_split (region : Region) (split_lo split_hi : Nat) (middle_perms : RegionPerms) : PreparedRegionSplit :=
  let head_pages := (split_lo - region.base) / PAGE
  let middle_pages := (split_hi - split_lo) / PAGE
  let tail_pages := (region.stop - split_hi) / PAGE
  { source_base := region.base
    head := if head_pages = 0 then none
      else some ⟨region.base,head_pages * PAGE,region.perms,region.phys.try_window 0 head_pages⟩
    middle := ⟨split_lo,middle_pages * PAGE,middle_perms,region.phys.try_window head_pages middle_pages⟩
    tail := if tail_pages = 0 then none
      else some ⟨split_hi,tail_pages * PAGE,region.perms,
        region.phys.try_window (head_pages + middle_pages) tail_pages⟩ }
/-- The table. `spare` counts the index nodes that are free or reserved, so that insertions of
    new keys do not allocate. -/
structure RegionTable where
  by_base : SortedMap Nat Region
  acct : RegionAcct
  spare : Nat
  future_lock : FutureLockPolicy

namespace RegionTable
def new : RegionTable := ⟨.empty,fun _ => 0,0,.None⟩
variable (t : RegionTable)
def regions : List Region := t.by_base.entries.map Prod.snd
def debug_recount_acct : RegionAcct :=
  t.regions.foldl RegionAcct.add_region (fun _ => 0)
def get (t : RegionTable) (base : Nat) : Option Region := t.by_base.get base
def predecessor (base : Nat) : Option Region :=
  (lastWhere (· < base) t.by_base.entries).map Prod.snd
def predecessor_or_equal (base : Nat) : Option Region :=
  (lastWhere (· ≤ base) t.by_base.entries).map Prod.snd
def successor (base : Nat) : Option Region :=
  (firstWhere (base ≤ ·) t.by_base.entries).map Prod.snd
def range (t : RegionTable) (lo hi : Nat) : List Region := (t.by_base.range lo hi).map Prod.snd
def containing (address : Nat) : Option Region :=
  (t.predecessor_or_equal address).filter (fun r => address < r.stop)
def has_overlap (lo hi : Nat) : Bool :=
  (t.predecessor lo).any (fun r => lo < r.stop) || !(t.range lo hi).isEmpty
def visited (lo hi : Nat) : List Region :=
  ((t.predecessor lo).filter (fun r => lo < r.stop)).toList ++ t.range lo hi
def overlap_start (lo : Nat) : Nat :=
  match (t.predecessor_or_equal lo).filter (fun r => lo < r.stop) with
  | some r => r.base
  | none => lo
def overlapping (lo hi : Nat) : List Region := t.range (t.overlap_start lo) hi
def try_reserve_nodes (additional : Nat) : RegionTable :=
  { t with spare := max t.spare additional }
/-- Insert with the nodes reserved before; `none` when a new key finds no node. -/
def insert_reserved (region : Region) : Option (RegionTable × Option Region) :=
  match t.get region.base with
  | some replaced =>
    some ({ t with
      by_base := t.by_base.insert region.base region
      acct := (t.acct.add_region region).sub_region replaced },some replaced)
  | none =>
    if t.spare = 0 then none
    else some ({ t with
      by_base := t.by_base.insert region.base region
      acct := t.acct.add_region region
      spare := t.spare - 1 },none)
/-- `assert!(insert_reserved(region).is_none())`. -/
def publish (region : Region) : Option RegionTable :=
  match t.insert_reserved region with
  | some (t,none) => some t
  | _ => none
def publish_all (pieces : List Region) : Option RegionTable :=
  pieces.foldlM publish t
def remove (base : Nat) : Option (RegionTable × Region) :=
  (t.get base).map (fun region =>
    ({ t with
      by_base := t.by_base.erase base
      acct := t.acct.sub_region region
      spare := t.spare + 1 },region))
/-- `get_mut`: change a region in place, without accounting. -/
def update (base : Nat) (change : Region → Region) : Option RegionTable :=
  (t.get base).map (fun region => { t with by_base := t.by_base.insert base (change region) })
/-- The preparation of an operation: all its allocations are granted. -/
def prepared (granted : Nat → Bool) (allocations : Nat) : Bool := (List.range allocations).all granted
/-- What an operation leaves behind: the table and its result; `none` is a panic. -/
abbrev Outcome := Option (RegionTable × Except AddressSpaceError Unit)
def insert (region : Region) (granted : Nat → Bool) : Outcome :=
  if (t.get region.base).isNone ∧ ¬ prepared granted 1 then some (t,.error .AllocationFailed)
  else do
    let t := if (t.get region.base).isNone then t.try_reserve_nodes 1 else t
    let (t,_) ← t.insert_reserved region
    some (t,.ok ())
def publish_splits : RegionTable → List PreparedRegionSplit → Option RegionTable
  | t, [] => some t
  | t, split :: rest => do
    let (t,_) ← t.remove split.source_base
    let t ← t.publish_all split.pieces
    t.publish_splits rest
/-- Index nodes a batch of splits needs beyond those of its sources. -/
def additional_nodes (splits : List PreparedRegionSplit) : Nat :=
  (splits.map (fun split => split.pieces.length - 1)).sum
/-- Allocations of a batch of splits: the batch itself, each piece's window, the index nodes. -/
def split_allocations (splits : List PreparedRegionSplit) : Nat :=
  2 + (splits.map (fun split => split.pieces.length)).sum
/-- The boundary splits of `[lo, hi)`: for every region that meets the range, whose permissions
    change, and that is not inside it. -/
def boundary_splits (lo hi : Nat) (change : RegionPerms → Option RegionPerms) : List PreparedRegionSplit :=
  (t.overlapping lo hi).filterMap (fun region =>
    (change region.perms).bind (fun perms =>
      if region.base = max lo region.base ∧ min hi region.stop = region.stop then none
      else some (prepare_region_split region (max lo region.base) (min hi region.stop) perms)))
/-- The permissions after setting or clearing a flag; `none` where nothing changes. -/
def flag_change (flag : RegionPerms) (set : Bool) (perms : RegionPerms) : Option RegionPerms :=
  if (contains perms LOCK_EXEMPT || contains perms STACK_GUARD) && (flag == LOCKED || flag == LOCK_ONFAULT) ||
      contains perms flag == set then none
  else some (if set then perms ||| flag else perms &&& ~~~flag)
def tally (was is : Bool) (len : Nat) (delta : Nat × Nat) : Nat × Nat :=
  match was, is with
  | false, true => (saturating_add delta.1 len,delta.2)
  | true, false => (delta.1,saturating_add delta.2 len)
  | _, _ => delta
/-- The in-place sweep over whole regions, with the locked bytes it adds and takes away. -/
def flag_sweep (flag : RegionPerms) (set : Bool) (region : Region) (delta : Nat × Nat) : Region × (Nat × Nat) :=
  match flag_change flag set region.perms with
  | none => (region,delta)
  | some perms =>
    ({ region with perms := perms },
      tally (RegionAcct.locked_accountable region.perms) (RegionAcct.locked_accountable perms) region.len delta)
/-- Where `for_each_overlapping_mut` starts. -/
def sweep_start (lo : Nat) : Nat :=
  match (t.predecessor lo).filter (fun r => lo < r.stop) with
  | some r => r.base
  | none => lo
def set_region_flag_range (lo hi : Nat) (flag : RegionPerms) (set : Bool) (granted : Nat → Bool) : Outcome :=
  let splits := t.boundary_splits lo hi (flag_change flag set)
  if ¬ prepared granted (split_allocations splits) then some (t,.error .AllocationFailed)
  else do
    let t ← (t.try_reserve_nodes (additional_nodes splits)).publish_splits splits
    let start := t.sweep_start lo
    let swept := t.by_base.visitWhere (fun k => start ≤ k && k < hi) (flag_sweep flag set) (0,0)
    let locked := saturating_add (t.acct .locked_bytes) swept.2.1 - swept.2.2
    some ({ t with by_base := swept.1, acct := t.acct.set .locked_bytes locked },.ok ())
/-- The permissions after a change of protection: the internal flags stay. -/
def prot_change (prot perms : RegionPerms) : RegionPerms := prot ||| (perms &&& ~~~PROT_MASK)
/-- The loop of `mprotect` over the regions in the range. -/
def prot_loop (prot : RegionPerms) (hi : Nat) : Nat → RegionTable → Nat → Nat × Nat → Option (RegionTable × (Nat × Nat))
  | 0, _, _, _ => none
  | fuel + 1, t, cursor, delta =>
    match (t.overlapping cursor hi).head? with
    | none => some (t,delta)
    | some region => do
      let perms := prot_change prot region.perms
      let t ← t.update region.base (fun r => { r with perms := perms })
      t.prot_loop prot hi fuel (max region.stop (cursor + PAGE))
        (tally (RegionAcct.wnx_accountable region.perms) (RegionAcct.wnx_accountable perms) region.len delta)
/-- The ordinary-page part of `mprotect`: prepare the boundary splits, publish them, change the
    regions in place. -/
def mprotect_regions (lo hi : Nat) (prot : RegionPerms) (granted : Nat → Bool) : Outcome :=
  let splits := t.boundary_splits lo hi (fun perms => some (prot_change prot.prot_only perms))
  if ¬ prepared granted (split_allocations splits) then some (t,.error .AllocationFailed)
  else do
    let t ← (t.try_reserve_nodes (additional_nodes splits)).publish_splits splits
    let (t,delta) ← t.prot_loop prot.prot_only hi (t.regions.length + 1) lo (0,0)
    let wnx := saturating_add (t.acct .wnx_bytes) delta.1 - delta.2
    some ({ t with acct := t.acct.set .wnx_bytes wnx },.ok ())
/-- What a punch of `[lo, hi)` keeps of a region it meets. -/
def kept_fragments (lo hi : Nat) (old : Region) : List Region :=
  (if old.base < lo then
      let n := (lo - old.base) / PAGE
      [⟨old.base,n * PAGE,old.perms,old.phys.try_window 0 n⟩] else []) ++
    if hi < old.stop then
      let start := (hi - old.base) / PAGE
      [⟨hi,old.len - start * PAGE,old.perms,old.phys.try_window start (old.phys.len)⟩] else []
def remove_all : RegionTable → List Nat → Option RegionTable
  | t, [] => some t
  | t, base :: rest => do
    let (t,_) ← t.remove base
    t.remove_all rest
/-- The general path of a punch: retire the regions that meet the range, publish what is kept. -/
def punch_overlapping (lo hi preserve_nodes : Nat) (granted : Nat → Bool) : Outcome :=
  let overlaps := t.visited lo hi
  if overlaps.isEmpty then some (t,.ok ())
  else
    let kept := overlaps.flatMap (kept_fragments lo hi)
    -- the key list, three scratch vectors, the index nodes and each kept window
    if ¬ prepared granted (5 + kept.length) then some (t,.error .AllocationFailed)
    else do
      let t ← (t.try_reserve_nodes (kept.length + preserve_nodes)).remove_all (overlaps.map Region.base)
      let t ← t.publish_all kept
      some (t,.ok ())
/-- The ordinary-page part of `punch_fixed_locked_with_shared_reserving`. -/
def punch_regions (lo hi preserve_nodes : Nat) (granted : Nat → Bool) : Outcome :=
  if (t.get lo).any (fun region => region.len = hi - lo) then do
    let (t,_) ← t.remove lo
    some (t,.ok ())
  else t.punch_overlapping lo hi preserve_nodes granted
def anonymous_merge_compatible (first second : RegionPerms) : Bool :=
  let special := SHARED ||| FILE_DEMAND ||| BRK_HEAP ||| LOCK_EXEMPT ||| STACK_GUARD ||| STACK_SEGMENT
  contains first ANON_MERGEABLE && contains second ANON_MERGEABLE && first &&& special == 0 &&
    second &&& special == 0 && first &&& ~~~COW == second &&& ~~~COW
def sparse (region : Region) : Bool := region.phys.len != region.pages
/-- Append an adjacent source to a destination. -/
def absorb (destination source : Region) : Region :=
  { destination with
    phys := if source.phys.len = 0 then destination.phys
      else (destination.phys.lengthened destination.pages).append source.phys
    len := destination.len + source.len
    perms := destination.perms ||| (source.perms &&& COW) }
/-- Detach a source that is to be absorbed; its share stays accounted. -/
def detach (base : Nat) : Option (RegionTable × Region) :=
  (t.remove base).map (fun (t,source) => ({ t with acct := t.acct.add_region source },source))
def detach_all : RegionTable → List Region → Option (RegionTable × List Region)
  | t,[] => some (t,[])
  | t,s :: rest => do
    let (t,source) ← t.detach s.base
    let (t,sources) ← detach_all t rest
    some (t,source :: sources)
/-- The destination of a merge around `base`, and behind it the sources in order; `none` when nothing is to be merged. -/
def merge_plan (base : Nat) : Option (Region × List Region) :=
  (t.get base).bind (fun current =>
    let predecessor := (t.predecessor base).filter (fun p =>
      p.stop = base && anonymous_merge_compatible p.perms current.perms)
    let successor := (t.get current.stop).filter (fun s => anonymous_merge_compatible current.perms s.perms)
    if !contains current.perms ANON_MERGEABLE || (sparse current || predecessor.any sparse || successor.any sparse) then none
    else
      match predecessor,successor with
      | none,none => none
      | some p,none => some (p,[current])
      | none,some s => some (current,[s])
      | some p,some s => some (p,[current,s]))
def coalesce_anonymous_around (base : Nat) (granted : Nat → Bool) : Option RegionTable :=
  match t.merge_plan base with
  | none => some t
  | some (d,sources) =>
    if ¬ prepared granted 1 then some t
    else do
      let (t,sources) ← t.detach_all sources
      t.update d.base (sources.foldl absorb)
/-- `brk_extend_region_limited_locked`: grow the heap by whole pages at `grow_lo`. -/
def brk_extend (grow_lo add_pages limit_bytes : Nat) (bypass_limit : Bool) (granted : Nat → Bool) : Outcome :=
  let add_len := add_pages * PAGE
  let grow_hi := grow_lo + add_len
  let tail_perms := READ ||| WRITE ||| BRK_HEAP ||| t.future_lock.region_bits
  if grow_lo % PAGE ≠ 0 ∨ add_pages = 0 then some (t,.error .AlignmentMismatch)
  else if USER_HALF_END < grow_hi then some (t,.error .OutOfRange)
  else if t.future_lock ≠ .None ∧ ¬ bypass_limit ∧
      limit_bytes < saturating_add (t.acct .locked_bytes) add_len then some (t,.error .LockLimit)
  else if (t.successor grow_lo).any (fun s => s.base < grow_hi) then some (t,.error .Overlap)
  else if (t.get grow_lo).isSome then some (t,.error .Overlap)
  else
    let tail : Region := ⟨grow_lo,add_len,tail_perms,.new⟩
    match t.predecessor grow_lo with
    | some p =>
      if grow_lo < p.stop then some (t,.error .Overlap)
      else if p.stop = grow_lo ∧ p.perms = tail_perms then do
        let t ← t.update p.base (fun r => { r with len := r.len + add_len })
        some ({ t with acct := t.acct.add_flat tail_perms add_len },.ok ())
      else t.insert tail granted
    | none => t.insert tail granted
end RegionTable
end Narf.Memory
