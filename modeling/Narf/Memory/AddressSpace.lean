import Narf.Memory.Vma

namespace Narf.Memory
open Lib RegionPerms

/-! An address space: the table of ordinary regions, the vector of huge mappings and the program
    break. Every operation runs under the address space's transaction lock. Reverse maps, frame
    ownership, notifiers, deferred flushes and swap records are left out, and so is the backing that
    population adds afterwards: no range depends on them. `granted` answers the allocations of an
    operation in turn. -/

inductive HugeSize where
  | M2 | G1
def HugeSize.bytes : HugeSize → Nat
  | .M2 => 2 * 1024 * 1024
  | .G1 => 1024 * 1024 * 1024
structure HugeRegion where
  base : Nat
  len : Nat
  perms : RegionPerms
  size : HugeSize
  frames : List Nat

namespace HugeRegion
def stop (h : HugeRegion) : Nat := h.base + h.len
def overlaps (lo hi : Nat) (h : HugeRegion) : Bool := lo < h.stop && h.base < hi
end HugeRegion

structure AddressSpace where
  regions : RegionTable
  huge : List HugeRegion
  brk_top : Nat
  program_data_bytes : Nat
structure StackGrowthLimits where
  memlock_bytes : Nat
  stack_bytes : Nat
  address_space_bytes : Nat
  bypass_memlock : Bool
structure StackGrowthPlan where
  v_page : Nat
  guard_base : Nat
  new_guard_base : Nat
  npages : Nat
  grown_perms : RegionPerms

namespace AddressSpace
def MMAP_WINDOW_TOP : Nat := 0x7F0000000000
def MAX_GROW : Nat := 256 * 1024
def new (program_data_bytes : Nat) : AddressSpace := ⟨.new,[],0,program_data_bytes⟩
/-- What an operation leaves behind: the address space and its result; `none` is a panic. -/
abbrev Outcome := Option (AddressSpace × Except AddressSpaceError Unit)

variable (s : AddressSpace)
def fails (error : AddressSpaceError) : Outcome := some (s,.error error)

/-! ## Ordinary mappings -/
def lock_mode (requested : Option FutureLockPolicy) (future : FutureLockPolicy) : FutureLockPolicy :=
  match requested, future with
  | some .Eager, .OnFault => .OnFault
  | some mode, _ => mode
  | none, future => future
def locked_perms (mode : FutureLockPolicy) (perms : RegionPerms) : RegionPerms :=
  if contains perms STACK_GUARD || contains perms LOCK_EXEMPT then perms
  else
    match mode with
    | .None => perms
    | .Eager => (perms ||| LOCKED) &&& ~~~LOCK_ONFAULT
    | .OnFault => perms ||| LOCKED ||| LOCK_ONFAULT
/-- The per-page scatter list covers the region, or may be shorter where pages are demanded. -/
def phys_covers (region : Region) : Bool :=
  if region.allows_sparse_backing then region.phys.len ≤ region.pages else region.phys.len == region.pages
def map_region_inner (region : Region) (requested_lock : Option FutureLockPolicy)
    (lock_admission : Option (Nat × Bool)) (granted : Nat → Bool) : Outcome :=
  let perms := if contains region.perms LOCK_ONFAULT then region.perms ||| LOCKED else region.perms
  if contains perms EXTERNAL_REFS && !contains perms SHARED then s.fails .SharedMapping
  else if region.base % PAGE ≠ 0 ∨ region.len % PAGE ≠ 0 then s.fails .AlignmentMismatch
  else if !phys_covers { region with perms := perms } then s.fails .AlignmentMismatch
  else if USER_HALF_END < region.stop then s.fails .OutOfRange
  else if s.huge.any (HugeRegion.overlaps region.base region.stop) then s.fails .Overlap
  else if (s.regions.predecessor region.base).any (fun p => region.base < p.stop) then s.fails .Overlap
  else if (s.regions.successor region.base).any (fun n => n.base < region.stop) then s.fails .Overlap
  else
    let mode := lock_mode requested_lock s.regions.future_lock
    if lock_admission.any (fun limit => mode ≠ .None && !limit.2 &&
        limit.1 < saturating_add (s.regions.acct .locked_bytes) region.len) then s.fails .LockLimit
    else if ¬ RegionTable.prepared granted 1 then s.fails .AllocationFailed
    else
      ((s.regions.try_reserve_nodes 1).publish { region with perms := locked_perms mode perms }).map
        (fun t => ({ s with regions := t },.ok ()))

/-! ## Punching -/
/-- Remove everything in a range; a huge mapping is removed whole or the punch is refused. -/
def punch_fixed_locked_with_shared_reserving (base len preserve_nodes : Nat) (granted : Nat → Bool) : Outcome :=
  if base % PAGE ≠ 0 ∨ len % PAGE ≠ 0 then s.fails .AlignmentMismatch
  else if 2 ^ 64 ≤ base + len then s.fails .OutOfRange
  else
    let lo := base
    let hi := base + len
    if s.huge.any (fun h => h.overlaps lo hi && !(lo ≤ h.base && h.stop ≤ hi)) then s.fails .AlignmentMismatch
    else if !s.huge.any (HugeRegion.overlaps lo hi) && (s.regions.get lo).any (fun region => region.len = hi - lo) then
      (s.regions.remove lo).map (fun removed => ({ s with regions := removed.1 },.ok ()))
    -- the vectors of removed and kept huge mappings
    else if s.huge.any (HugeRegion.overlaps lo hi) && !RegionTable.prepared granted 2 then s.fails .AllocationFailed
    else
      (s.regions.punch_overlapping lo hi preserve_nodes (fun i => granted (i + 2))).map (fun punched =>
        match punched.2 with
        | .error error => (s,.error error)
        | .ok () => ({ s with
            regions := punched.1
            huge := s.huge.filter (fun h => !h.overlaps lo hi) },.ok ()))
def punch_fixed_locked (base len : Nat) (granted : Nat → Bool) : Outcome :=
  s.punch_fixed_locked_with_shared_reserving base len 0 granted

/-! ## Huge mappings -/
def check_locked_mapping_limit (len : Nat) (explicit_lock : Bool) (limit_bytes : Nat) (bypass_limit : Bool) : Bool :=
  let mode : FutureLockPolicy := match explicit_lock, s.regions.future_lock with
    | true, .OnFault => .OnFault
    | true, _ => .Eager
    | false, future => future
  !(mode ≠ .None && !bypass_limit && limit_bytes < saturating_add (s.regions.acct .locked_bytes) len)
/-- `installed` says whether the leaves could be put into the page tables. -/
def map_huge_region_locked (region : HugeRegion) (installed : Bool) : Outcome :=
  let page_size := region.size.bytes
  if region.base % page_size ≠ 0 ∨ region.len = 0 ∨ region.len % page_size ≠ 0 ∨
      region.frames.length ≠ region.len / page_size then s.fails .AlignmentMismatch
  else if USER_HALF_END < region.stop then s.fails .OutOfRange
  else if s.huge.any (HugeRegion.overlaps region.base region.stop) then s.fails .Overlap
  else if s.regions.regions.any (fun r => region.base < r.stop && r.base < region.stop) then s.fails .Overlap
  else if !installed then s.fails .Overlap
  else some ({ s with huge := s.huge ++ [region] },.ok ())
def map_huge_region_locked_limited (region : HugeRegion) (fixed explicit_lock : Bool)
    (limit_bytes : Nat) (bypass_limit installed : Bool) (granted : Nat → Bool) : Outcome :=
  if !s.check_locked_mapping_limit region.len explicit_lock limit_bytes bypass_limit then s.fails .LockLimit
  else
    (if fixed then s.punch_fixed_locked region.base region.len granted else some (s,.ok ())).bind (fun punched =>
      match punched.2 with
      | .error error => some (punched.1,.error error)
      | .ok () => punched.1.map_huge_region_locked
          { region with perms := region.perms &&& ~~~(LOCKED ||| LOCK_ONFAULT) } installed)

/-! ## The program break -/
def huge_bytes : Nat := s.huge.foldl (fun total h => saturating_add total h.len) 0
def page_up (address : Nat) : Nat := saturating_add address 0xFFF / PAGE * PAGE
structure BrkLimits where
  data_limit_bytes : Nat
  address_space_limit_bytes : Nat
  memlock_limit_bytes : Nat
  bypass_memlock_limit : Bool
/-- The break that is left; a request that fails leaves the break as it is. -/
def update_brk_limited (heap_base arena_top requested : Nat) (limits : BrkLimits) (granted : Nat → Bool) : Option (AddressSpace × Nat) :=
  let current := if s.brk_top = 0 then heap_base else s.brk_top
  let s := { s with brk_top := current }
  if requested = 0 then some (s,current)
  else if requested < heap_base ∨ arena_top < requested then some (s,current)
  else if limits.data_limit_bytes ≠ 2 ^ 64 - 1 ∧
      limits.data_limit_bytes < saturating_add (requested - heap_base) s.program_data_bytes then some (s,current)
  else
    let current_aligned := page_up current
    let requested_aligned := page_up requested
    if requested ≤ current then
      if requested_aligned < current_aligned then
        if !s.regions.has_overlap requested_aligned current_aligned then some (s,current)
        else
          (s.punch_fixed_locked requested_aligned (current_aligned - requested_aligned) granted).map (fun punched =>
            match punched.2 with
            | .error _ => (punched.1,current)
            | .ok () => ({ punched.1 with brk_top := requested },requested))
      else some ({ s with brk_top := requested },requested)
    else
      let pages := (requested_aligned - current_aligned) / PAGE
      if pages = 0 then some ({ s with brk_top := requested },requested)
      else if limits.address_space_limit_bytes ≠ 2 ^ 64 - 1 ∧
          limits.address_space_limit_bytes / PAGE < saturating_add
            (saturating_add (s.regions.acct .mapped_bytes - s.regions.acct .guard_bytes) s.huge_bytes / PAGE) pages then
        some (s,current)
      else
        (s.regions.brk_extend current_aligned pages limits.memlock_limit_bytes limits.bypass_memlock_limit
          granted).map (fun extended =>
            match extended.2 with
            | .error _ => (s,current)
            | .ok () => ({ s with regions := extended.1, brk_top := requested },requested))

/-! ## Stack growth -/
def stack_guard_for_fault (t : RegionTable) (v_page : Nat) : Option Nat :=
  (((t.containing v_page).or (t.successor v_page)).filter (fun region =>
    contains region.perms STACK_GUARD && (v_page ≤ region.base && region.base - v_page ≤ MAX_GROW))).map Region.base
/-- The bytes of the stack regions that follow each other from an address on. -/
def contiguous_stack_bytes_from (t : RegionTable) : Nat → Nat → Nat → Nat
  | 0, _, total => total
  | fuel + 1, cursor, total =>
    match t.get cursor with
    | none => total
    | some region =>
      if !contains region.perms STACK_SEGMENT then total
      else contiguous_stack_bytes_from t fuel (saturating_add cursor region.len) (saturating_add total region.len)
def stack_growth_plan (t : RegionTable) (huge_mapped_bytes v_page : Nat) (limits : StackGrowthLimits) :
    Except AddressSpaceError StackGrowthPlan :=
  match stack_guard_for_fault t v_page with
  | none => .error .Unmapped
  | some guard_base =>
    if v_page < PAGE then .error .OutOfRange
    else
      let new_guard_base := v_page - PAGE
      if MMAP_WINDOW_TOP ≤ guard_base ∧ new_guard_base < MMAP_WINDOW_TOP then .error .OutOfRange
      else if t.has_overlap new_guard_base guard_base then .error .Overlap
      else
        let above_base := guard_base + PAGE
        let above := (t.containing above_base).filter (fun above => above.base = above_base)
        let grown_perms := above.elim (READ ||| WRITE ||| STACK_SEGMENT) (fun above =>
          READ ||| WRITE ||| STACK_SEGMENT ||| (above.perms &&& EXEC) |||
            if contains above.perms STACK_SEGMENT then above.perms &&& (LOCKED ||| LOCK_ONFAULT) else 0)
        let npages := (guard_base - v_page) / PAGE + 1
        let growth_bytes := npages * PAGE
        if limits.stack_bytes < saturating_add
            (contiguous_stack_bytes_from t (t.regions.length + 1) above_base 0) growth_bytes then .error .StackLimit
        else if limits.address_space_bytes < saturating_add
            (saturating_add (t.acct .mapped_bytes) growth_bytes) huge_mapped_bytes then .error .StackLimit
        else if contains grown_perms LOCKED && !limits.bypass_memlock &&
            limits.memlock_bytes < saturating_add (t.acct .locked_bytes) growth_bytes then .error .LockLimit
        else .ok ⟨v_page,guard_base,new_guard_base,npages,grown_perms⟩
/-- A page has a leaf in the page tables: every page of a huge mapping has one, and `leaf` tells
    those of ordinary pages. -/
def translates (leaf : Nat → Bool) (page : Nat) : Bool :=
  s.huge.any (fun h => h.base ≤ page && page < h.stop) || leaf page
def stack_growth_range_is_unmapped (leaf : Nat → Bool) (plan : StackGrowthPlan) : Bool :=
  (List.range (plan.npages + 1)).all (fun index => !s.translates leaf (plan.new_guard_base + index * PAGE))
def try_grow_stack_with_limits (vaddr : Nat) (limits : StackGrowthLimits) (leaf : Nat → Bool) (granted : Nat → Bool) : Outcome :=
  match stack_growth_plan s.regions s.huge_bytes (vaddr / PAGE * PAGE) limits with
  | .error error => s.fails error
  | .ok plan =>
    if !s.stack_growth_range_is_unmapped leaf plan then s.fails .NotImplemented
    else if ¬ RegionTable.prepared granted 1 then s.fails .AllocationFailed
    else
      ((s.regions.try_reserve_nodes 2).remove plan.guard_base).bind (fun removed =>
        (removed.1.publish ⟨plan.v_page,plan.npages * PAGE,plan.grown_perms,.new⟩).bind (fun t =>
          (t.publish ⟨plan.new_guard_base,PAGE,STACK_GUARD ||| LOCK_EXEMPT,removed.2.phys⟩).map (fun t =>
            ({ s with regions := t },.ok ()))))

/-! ## Coverage, protection and locking -/
def mapped_end (cursor : Nat) : Option Nat :=
  let regular := (s.regions.containing cursor).map Region.stop
  let huge := (s.huge.find? (fun h => h.base ≤ cursor && cursor < h.stop)).map HugeRegion.stop
  match regular, huge with
  | some a, some b => some (max a b)
  | some a, none => some a
  | none, b => b
/-- The end of the mapped part that starts at the cursor. -/
def mappings_covered_prefix_end (s : AddressSpace) (hi cursor : Nat) : Nat :=
  if cursor < hi then
    match s.mapped_end cursor with
    | none => cursor
    | some stop => if stop ≤ cursor then cursor else s.mappings_covered_prefix_end hi (min stop hi)
  else cursor
termination_by hi - cursor

/-- The parts of a huge mapping after a change of protection. -/
def protect_huge (lo hi : Nat) (prot : RegionPerms) (h : HugeRegion) : List HugeRegion :=
  if !h.overlaps lo hi then [h]
  else
    let page_size := h.size.bytes
    let split_lo := max lo h.base
    let split_hi := min hi h.stop
    let head := (split_lo - h.base) / page_size
    let middle := (split_hi - split_lo) / page_size
    let head_frames := h.frames.take head
    let middle_frames := (h.frames.drop head).take middle
    let tail_frames := (h.frames.drop head).drop middle
    (if head_frames.isEmpty then [] else [⟨h.base,head_frames.length * page_size,h.perms,h.size,head_frames⟩]) ++
      ⟨split_lo,middle_frames.length * page_size,RegionTable.prot_change prot h.perms,h.size,middle_frames⟩ ::
      (if tail_frames.isEmpty then [] else [⟨split_hi,tail_frames.length * page_size,h.perms,h.size,tail_frames⟩])
/-- A huge mapping that the range would cut inside a huge page. -/
def cuts_page (lo hi : Nat) (h : HugeRegion) : Bool :=
  h.overlaps lo hi && ((max lo h.base - h.base) % h.size.bytes ≠ 0 || (min hi h.stop - h.base) % h.size.bytes ≠ 0)
/-- The rewritten leaves of huge mappings are put back where they were, which does not fail. -/
def mprotect_range_wx_checked (base len : Nat) (new_perms : RegionPerms) (granted : Nat → Bool) : Outcome :=
  if base % PAGE ≠ 0 then s.fails .AlignmentMismatch
  else if len = 0 then some (s,.ok ())
  else if 2 ^ 64 ≤ len + 0xFFF then s.fails .OutOfRange
  else
    let lo := base
    let hi := base + (len + 0xFFF) / PAGE * PAGE
    if USER_HALF_END < hi then s.fails .OutOfRange
    else if s.mappings_covered_prefix_end hi lo < hi then s.fails .Unmapped
    else
      (s.regions.mprotect_regions lo hi new_perms granted).map (fun changed =>
        match changed.2 with
        | .error error => (s,.error error)
        | .ok () =>
          if s.huge.any (cuts_page lo hi) then (s,.error .AlignmentMismatch)
          else
            ({ s with
                regions := changed.1
                huge := s.huge.flatMap (protect_huge lo hi new_perms.prot_only) },
              if (s.regions.overlapping lo hi).isEmpty && !s.huge.any (HugeRegion.overlaps lo hi) then .error .Unmapped
              else .ok ()))
def locked_overlap_bytes (t : RegionTable) (lo hi : Nat) : Nat :=
  (t.visited lo hi).foldl (fun total region =>
    if RegionAcct.locked_accountable region.perms then
      saturating_add total (min hi region.stop - max lo region.base) else total) 0
/-- The lock operations: two flag changes over the mapped part of the rounded range. The limit is
    absent where the caller may pass it. -/
def lock_range (base len : Nat) (limit_bytes : Option Nat) (first second : RegionPerms × Bool) (granted granted' : Nat → Bool) : Outcome :=
  if 2 ^ 64 ≤ base + len + 0xFFF then s.fails .OutOfRange
  else
    let lo := base / PAGE * PAGE
    let hi := (base + len + 0xFFF) / PAGE * PAGE
    if lo = hi then some (s,.ok ())
    else if limit_bytes.any (fun limit => limit < saturating_add (s.regions.acct .locked_bytes)
        (hi - lo - locked_overlap_bytes s.regions lo hi)) then s.fails .LockLimit
    else
      let covered_hi := s.mappings_covered_prefix_end hi lo
      (s.regions.set_region_flag_range lo covered_hi first.1 first.2 granted).bind (fun marked =>
        match marked.2 with
        | .error error => some ({ s with regions := marked.1 },.error error)
        | .ok () =>
          (marked.1.set_region_flag_range lo covered_hi second.1 second.2 granted').map (fun marked =>
            ({ s with regions := marked.1 },
              match marked.2 with
              | .error error => .error error
              | .ok () => if covered_hi < hi then .error .Unmapped else .ok ())))
def mlock_range_limited (base len : Nat) (limit_bytes : Option Nat) (granted granted' : Nat → Bool) : Outcome :=
  s.lock_range base len limit_bytes (LOCKED,true) (LOCK_ONFAULT,false) granted granted'
def mlock_range_onfault_limited (base len : Nat) (limit_bytes : Option Nat) (granted granted' : Nat → Bool) : Outcome :=
  s.lock_range base len limit_bytes (LOCKED,true) (LOCK_ONFAULT,true) granted granted'
def munlock_range (base len : Nat) (granted granted' : Nat → Bool) : Outcome :=
  s.lock_range base len none (LOCK_ONFAULT,false) (LOCKED,false) granted granted'
end AddressSpace
end Narf.Memory
