import Narf.Memory.VmaOps

namespace Narf.Memory
open Lib RegionPerms RegionTable

/-! Runs of region-table operations, and the page map they change. -/
namespace RegionTable

inductive Op where
  | insert (region : Region)
  | set_region_flag_range (lo hi : Nat) (flag : RegionPerms) (set : Bool)
  | mprotect (lo hi : Nat) (prot : RegionPerms)
  | punch (lo hi preserve_nodes : Nat)
  | coalesce_anonymous_around (base : Nat)
  | brk_extend (grow_lo add_pages limit_bytes : Nat) (bypass_limit : Bool)
  | set_future_lock (policy : FutureLockPolicy)
/-- Run an operation; `granted` answers its allocations in turn. -/
def Op.run (granted : Nat → Bool) (t : RegionTable) : Op → Outcome
  | .insert region => t.insert region granted
  | .set_region_flag_range lo hi flag set => t.set_region_flag_range lo hi flag set granted
  | .mprotect lo hi prot => t.mprotect_regions lo hi prot granted
  | .punch lo hi preserve_nodes => t.punch_regions lo hi preserve_nodes granted
  | .coalesce_anonymous_around base => (t.coalesce_anonymous_around base granted).map (·,.ok ())
  | .brk_extend grow_lo add_pages limit_bytes bypass_limit =>
    t.brk_extend grow_lo add_pages limit_bytes bypass_limit granted
  | .set_future_lock policy => some ({ t with future_lock := policy },.ok ())
/-- Page-aligned arguments; insertions go into free ranges. The flags that the range operation is
    called with take no part in the guard and the writable counters. -/
def Op.Valid (t : RegionTable) : Op → Prop
  | .insert region => region.Proper ∧ region.Backed ∧ ∀ r ∈ t.regions, r.meets region.base region.stop = false
  | .set_region_flag_range lo hi flag _ => PageRange lo hi ∧ flag &&& (EXEC ||| WRITE ||| STACK_GUARD) = 0
  | .mprotect lo hi _ => PageRange lo hi
  | .punch lo hi _ => lo % PAGE = 0 ∧ hi % PAGE = 0 ∧ lo ≤ hi
  | _ => True
/-- How a successful operation changes the page map. -/
def Op.Effect (t : RegionTable) (was now : Nat → Option (RegionPerms × Nat)) : Op → Prop
  | .insert region => ∀ n, now n = (region.view n).or (was n)
  | .set_region_flag_range lo hi flag set => ∀ n, now n = (was n).bind (fun v =>
      some (if inRange lo hi n then (flag_change flag set v.1).getD v.1 else v.1,v.2))
  | .mprotect lo hi prot => ∀ n, now n = (was n).bind (fun v =>
      some (if inRange lo hi n then prot_change prot.prot_only v.1 else v.1,v.2))
  | .punch lo hi _ => ∀ n, now n = (was n).bind (fun v => if inRange lo hi n then none else some v)
  | .coalesce_anonymous_around _ => ∀ n, (now n).map uncow = (was n).map uncow
  | .brk_extend grow_lo add_pages _ _ => ∀ n, now n = if inRange grow_lo (grow_lo + add_pages * PAGE) n then
      some (READ ||| WRITE ||| BRK_HEAP ||| t.future_lock.region_bits,0) else was n
  | .set_future_lock _ => now = was
/-- What is said of one operation: it does not panic, success changes the page map as specified,
    an error changes nothing. -/
def Exact (t : RegionTable) (op : Op) (outcome : Outcome) : Prop :=
  ∃ t' result, outcome = some (t',result) ∧
    match result with
    | .ok () => op.Effect t t.page_map t'.page_map
    | .error _ => t' = t

variable {t t' : RegionTable} {rs : List Region}
lemma run_spec (op : Op) (granted : Nat → Bool) (shows_ : Shows True t rs) (valid : op.Valid t) :
    ∃ t' result, op.run granted t = some (t',result) ∧ (∃ rs', Shows True t' rs') ∧ match result with
      | .ok () => op.Effect t t.page_map t'.page_map
      | .error _ => t' = t := by
  suffices either : (∃ e, op.run granted t = some (t,.error e)) ∨
      ∃ t' rs', op.run granted t = some (t',.ok ()) ∧ Shows True t' rs' ∧ op.Effect t (view rs) (view rs') by
    rcases either with ⟨e,run⟩ | ⟨t',rs',run,shows',seen⟩
    · exact ⟨t,_,run,⟨rs,shows_⟩,rfl⟩
    · refine ⟨t',_,run,⟨rs',shows'⟩,?_⟩
      rw [page_map_eq shows_.toLists,page_map_eq shows'.toLists]
      exact seen
  cases op with
  | insert region =>
    obtain ⟨proper,backed,free⟩ := valid
    rw [shows_.toLists.regions] at free
    exact (insert_spec shows_ proper free granted (fun _ => backed)).imp_left fun run => ⟨_,run⟩
  | set_region_flag_range lo hi flag set =>
    exact (set_region_flag_range_spec granted valid.1 valid.2 shows_).imp_left fun run => ⟨_,run⟩
  | mprotect lo hi prot => exact (mprotect_regions_spec prot granted valid shows_).imp_left (fun run => ⟨_,run⟩)
  | punch lo hi preserve_nodes =>
    obtain ⟨first,second,le⟩ := valid
    exact (punch_regions_spec ⟨first,second⟩ preserve_nodes granted le shows_).imp_left fun run => ⟨_,run⟩
  | coalesce_anonymous_around base =>
    obtain ⟨t',rs',run,shows',seen⟩ := coalesce_spec base granted shows_
    exact .inr ⟨t',rs',by rw [Op.run,run]; rfl,shows',seen⟩
  | brk_extend grow_lo add_pages limit_bytes bypass_limit =>
    rcases brk_extend_spec grow_lo add_pages limit_bytes bypass_limit granted shows_ with failed | ⟨t',rs',run,shows',_,seen⟩
    · exact .inl failed
    · exact .inr ⟨t',rs',run,shows',seen trivial⟩
  | set_future_lock policy =>
    exact .inr ⟨_,rs,rfl,⟨⟨shows_.entries,shows_.orderly⟩,shows_.backed,shows_.counted⟩,rfl⟩

def Step (t t' : RegionTable) : Prop :=
  ∃ (op : Op) (granted : Nat → Bool) (result : Except AddressSpaceError Unit),
    op.Valid t ∧ op.run granted t = some (t',result)
def Reachable (t : RegionTable) : Prop := Relation.ReflTransGen Step new t
lemma Step.shows (step : Step t t') (shows_ : Shows True t rs) : ∃ rs', Shows True t' rs' := by
  obtain ⟨op,granted,result,valid,run⟩ := step
  obtain ⟨t₁,result₁,run₁,shows₁,_⟩ := run_spec op granted shows_ valid
  rw [run] at run₁
  cases run₁
  exact shows₁
lemma Reachable.shows (reached : Reachable t) : ∃ rs, Shows True t rs := by
  induction reached with
  | refl => exact ⟨[],shows_new True⟩
  | tail _ step ih =>
    obtain ⟨rs,shows_⟩ := ih
    exact step.shows shows_
/-- In every table that operations reach from the empty one, the regions are keyed by their bases
    and disjoint, the maintained counters are those of a recount, and every further operation is
    exact on the page map or changes nothing. -/
theorem vma_operations_exact (reached : Reachable t) : t.by_base.entries = t.regions.map (fun r => (r.base,r)) ∧
    t.regions.Pairwise (fun a b => a.stop ≤ b.base) ∧ t.acct = t.debug_recount_acct ∧
    ∀ (op : Op) (granted : Nat → Bool), op.Valid t → Exact t op (op.run granted t) := by
  obtain ⟨rs,shows_⟩ := reached.shows
  rw [shows_.toLists.regions]
  refine ⟨shows_.entries,shows_.orderly.apart,shows_.recount trivial,?_⟩
  intro op granted valid
  obtain ⟨t',result,run,_,holds⟩ := run_spec op granted shows_ valid
  exact ⟨t',result,run,holds⟩
/-- A heap of four pages, whose two middle pages are then made read-only. -/
theorem vma_operations_exact_heap :
    ∃ t, Reachable t ∧ t.regions.map (fun r => (r.base,r.len)) = [(0x10000,0x1000),(0x11000,0x2000),(0x13000,0x1000)] ∧
      t.acct .wnx_bytes = 0x2000 ∧ t.acct = t.debug_recount_acct := by
  let granted : Nat → Bool := fun _ => true
  have first : Step new _ := ⟨.brk_extend 0x10000 4 0 false,granted,.ok (),trivial,rfl⟩
  have reached : Reachable _ := (Relation.ReflTransGen.single first).tail
    ⟨.mprotect 0x11000 0x13000 READ,granted,.ok (),⟨by decide,by decide,by decide⟩,rfl⟩
  exact ⟨_,reached,by decide,by decide,(vma_operations_exact reached).2.2.1⟩
end RegionTable
end Narf.Memory
