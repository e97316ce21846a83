import Narf.Memory.AddressSpaceOps

namespace Narf.Memory.AddressSpace
open Lib RegionPerms RegionTable HugeRegion List Option

/-! No two mappings of an address space overlap, as long as no heap growth reaches a huge mapping. -/
variable {s s' : AddressSpace} {rs : List Region} {lo hi n : Nat} {granted granted' : Nat → Bool}
variable {result : Except AddressSpaceError Unit}

/-! ## Protection and locking -/
variable {base len : Nat} {t : RegionTable}
lemma mprotect_sound {new_perms : RegionPerms} (sound : Sound s)
    (run : s.mprotect_range_wx_checked base len new_perms granted = some (s',result)) : Sound s' := by
  obtain ⟨rs,shows_⟩ := sound.shows_
  unfold mprotect_range_wx_checked at run
  split at run
  · exact sound.fails run
  rename_i aligned
  split at run
  · cases run
    exact sound
  rename_i some_
  split at run
  · exact sound.fails run
  dsimp only at run
  have range : PageRange base (base + (len + 0xFFF) / PAGE * PAGE) := by
    constructor <;> simp only [PAGE] at * <;> omega
  generalize base + (len + 0xFFF) / PAGE * PAGE = stop at run range
  split at run
  · exact sound.fails run
  split at run
  · exact sound.fails run
  obtain ⟨⟨t,r⟩,changed,equal⟩ := map_eq_some_iff.mp run
  rcases mprotect_regions_spec new_perms granted range shows_ with error | ⟨t',rs',done,shows',seen⟩
  · rw [changed] at error
    obtain ⟨_,rfl⟩ := Prod.mk.inj (some.inj error)
    cases equal
    exact sound
  rw [changed] at done
  cases done
  dsimp only at equal
  split at equal
  · cases equal
    exact sound
  rename_i whole
  rw [Bool.not_eq_true,List.any_eq_false] at whole
  cases equal
  have parts (h : HugeRegion) (mem : h ∈ s.huge) :
      (∀ q ∈ protect_huge base stop new_perms.prot_only h, q.Proper ∧ h.base ≤ q.base ∧ q.stop ≤ h.stop) ∧
        (protect_huge base stop new_perms.prot_only h).Pairwise DisjointFrom :=
    protect_huge_spec (sound.huge h mem) (by simpa using whole h mem) range.pos
  refine ⟨⟨rs',shows'⟩,?_,?_,?_⟩
  · intro q mem
    obtain ⟨h,inside,part⟩ := mem_flatMap.mp mem
    exact ((parts h inside).1 q part).1
  · -- parts of two mappings lie inside mappings that are apart
    refine pairwise_flatMap.mpr ⟨fun h inside => (parts h inside).2,?_⟩
    refine sound.apart.imp_of_mem fun {a b} inA inB apart p inP q inQ => ?_
    obtain ⟨_,first,second⟩ := (parts a inA).1 p inP
    obtain ⟨_,third,fourth⟩ := (parts b inB).1 q inQ
    rcases apart with low | high
    · exact Or.inl (by omega)
    · exact Or.inr (by omega)
  · intro n shown q mem covered
    obtain ⟨h,inside,part⟩ := mem_flatMap.mp mem
    obtain ⟨_,first,second⟩ := (parts h inside).1 q part
    rw [page_map_eq shows'.toLists,seen,isSome_bind] at shown
    refine sound.clear n ?_ h inside ⟨first.trans covered.1,lt_of_lt_of_le covered.2 second⟩
    rw [page_map_eq shows_.toLists]
    simpa using shown
lemma mapped_end_spec {c e : Nat} (sound : Sound s) (found : s.mapped_end c = some e) : c < e ∧ e % PAGE = 0 := by
  obtain ⟨rs,shows_⟩ := sound.shows_
  have regular {r : Region} (inside : s.regions.containing c = some r) : c < r.stop ∧ r.stop % PAGE = 0 := by
    obtain ⟨selected,reaches⟩ := filter_eq_some_iff.mp inside
    obtain ⟨before,after,rfl,_,_⟩ := predecessor_cut shows_.toLists selected
    exact ⟨by simpa using reaches,(shows_.orderly.proper r (by simp)).stop⟩
  have large {h : HugeRegion} (inside : s.huge.find? (fun h => h.base ≤ c && c < h.stop) = some h) :
      c < h.stop ∧ h.stop % PAGE = 0 := by
    have holds := List.find?_some inside
    obtain ⟨base,len⟩ := (sound.huge h (mem_of_find?_eq_some inside)).aligned
    simp only [Bool.and_eq_true,decide_eq_true_eq] at holds
    refine ⟨holds.2,?_⟩
    simp only [HugeRegion.stop,PAGE] at *
    omega
  unfold mapped_end at found
  cases first : s.regions.containing c with
  | none =>
    cases second : s.huge.find? (fun h => h.base ≤ c && c < h.stop) with
    | none => simp [first,second] at found
    | some h =>
      simp only [first,second,map_none,map_some,Option.some.injEq] at found
      exact found ▸ large second
  | some r =>
    cases second : s.huge.find? (fun h => h.base ≤ c && c < h.stop) with
    | none =>
      simp only [first,second,map_none,map_some,Option.some.injEq] at found
      exact found ▸ regular first
    | some h =>
      simp only [first,second,map_some,Option.some.injEq] at found
      obtain ⟨low,high⟩ := regular first
      obtain ⟨low',high'⟩ := large second
      subst found
      rcases le_total r.stop h.stop with le | le
      · rw [max_eq_right le]
        exact ⟨low',high'⟩
      · rw [max_eq_left le]
        exact ⟨low,high⟩
/-- The mapped part ends at a page boundary; it is empty only if nothing is mapped at its start. -/
lemma covered_spec (sound : Sound s) (hiAligned : hi % PAGE = 0) (c : Nat) (aligned : c % PAGE = 0) :
    s.mappings_covered_prefix_end hi c % PAGE = 0 ∧ c ≤ s.mappings_covered_prefix_end hi c ∧
      (c < hi → s.mappings_covered_prefix_end hi c = c → s.mapped_end c = none) := by
  fun_induction mappings_covered_prefix_end s hi c with
  | case1 c below none_ => exact ⟨aligned,le_rfl,fun _ _ => none_⟩
  | case2 c below e found short => exact absurd (mapped_end_spec sound found).1 (by omega)
  | case3 c below e found far ih =>
    obtain ⟨_,endAligned⟩ := mapped_end_spec sound found
    obtain ⟨first,second,_⟩ := ih (by rcases le_total e hi with le | le <;> simp [le,endAligned,hiAligned])
    refine ⟨first,?_,?_⟩
    · omega
    · intro _ same
      omega
  | case4 c past => exact ⟨aligned,le_rfl,fun below => absurd below past⟩
/-- One flag change keeps the mapped pages, over whole pages or where nothing is mapped. -/
lemma flag_sound {flag : RegionPerms} {set : Bool} {r : Except AddressSpaceError Unit}
    (range : PageRange lo hi ∨ ∀ r ∈ rs, r.meets lo hi = false)
    (clear : flag &&& (EXEC ||| WRITE ||| STACK_GUARD) = 0) (shows_ : Shows False s.regions rs)
    (run : s.regions.set_region_flag_range lo hi flag set granted = some (t,r)) (sound : Sound s) :
    Sound { s with regions := t } ∧ ∃ rs', Shows False t rs' ∧ (PageRange lo hi ∨ ∀ r ∈ rs', r.meets lo hi = false) := by
  have unchanged (error : s.regions.set_region_flag_range lo hi flag set granted =
      some (s.regions,.error .AllocationFailed)) : t = s.regions := by
    rw [run] at error
    exact (Prod.mk.inj (some.inj error)).1
  rcases range with whole | none_
  · rcases set_region_flag_range_spec granted whole clear shows_ with error | ⟨t',rs',done,shows',seen⟩
    · obtain rfl := unchanged error
      exact ⟨sound,rs,shows_,Or.inl whole⟩
    · rw [run] at done
      cases done
      refine ⟨sound.with_regions shows' (fun n shown => Or.inl ?_),rs',shows',Or.inl whole⟩
      rw [seen,isSome_bind] at shown
      rw [page_map_eq shows_.toLists]
      simpa using shown
  · have range (r) (mem : r ∈ rs) (meets : r.meets lo hi) : PageRange lo hi := by simp [none_ r mem] at meets
    rcases set_region_flag_range_shows granted range clear shows_ with error | ⟨t',done,shows'⟩
    · obtain rfl := unchanged error
      exact ⟨sound,rs,shows_,Or.inr none_⟩
    · rw [run] at done
      cases done
      rw [map_repaint_cut none_] at shows'
      refine ⟨sound.with_regions shows' (fun n shown => Or.inl ?_),rs,shows',Or.inr none_⟩
      rw [page_map_eq shows_.toLists]
      exact shown
lemma lock_range_sound {limit_bytes : Option Nat} {first second : RegionPerms × Bool}
    (clear : first.1 &&& (EXEC ||| WRITE ||| STACK_GUARD) = 0)
    (clear' : second.1 &&& (EXEC ||| WRITE ||| STACK_GUARD) = 0) (sound : Sound s)
    (run : s.lock_range base len limit_bytes first second granted granted' = some (s',result)) : Sound s' := by
  obtain ⟨rs,shows_⟩ := sound.shows_
  unfold lock_range at run
  split at run
  · exact sound.fails run
  dsimp only at run
  have ordered : base / PAGE * PAGE ≤ (base + len + 0xFFF) / PAGE * PAGE :=
    Nat.mul_le_mul_right _ (Nat.div_le_div_right (by omega))
  have loAligned : base / PAGE * PAGE % PAGE = 0 := Nat.mul_mod_left _ _
  have hiAligned : (base + len + 0xFFF) / PAGE * PAGE % PAGE = 0 := Nat.mul_mod_left _ _
  generalize base / PAGE * PAGE = lo at run ordered loAligned
  generalize (base + len + 0xFFF) / PAGE * PAGE = hi at run ordered hiAligned
  split at run
  · cases run
    exact sound
  rename_i some_
  split at run
  · exact sound.fails run
  obtain ⟨coveredAligned,far,empty⟩ := covered_spec sound hiAligned lo loAligned
  generalize s.mappings_covered_prefix_end hi lo = covered at run coveredAligned far empty
  have range : PageRange lo covered ∨ ∀ r ∈ rs, r.meets lo covered = false := by
    rcases Nat.eq_or_lt_of_le far with same | some_
    · right
      intro r mem
      by_contra meets
      have unmapped := empty (by omega) same.symm
      simp only [Bool.not_eq_false,Region.meets_iff] at meets
      have missing : s.regions.containing lo = none := by
        cases found : s.regions.containing lo with
        | none => rfl
        | some p =>
          rw [mapped_end,found] at unmapped
          cases large : s.huge.find? (fun h => h.base ≤ lo && lo < h.stop) <;> simp [large] at unmapped
      have short := stop_le_of_containing_none shows_.toLists missing mem (by omega)
      omega
    · exact Or.inl ⟨loAligned,coveredAligned,some_⟩
  obtain ⟨⟨t,r⟩,marked,run⟩ := bind_eq_some_iff.mp run
  obtain ⟨sound₁,rs₁,shows₁,range₁⟩ := flag_sound range clear shows_ marked sound
  cases r with
  | error e =>
    cases run
    exact sound₁
  | ok _ =>
    obtain ⟨⟨t₂,r₂⟩,marked₂,equal⟩ := map_eq_some_iff.mp run
    cases equal
    exact (flag_sound (s := { s with regions := t }) range₁ clear' shows₁ marked₂ sound₁).1
lemma coalesce_sound (sound : Sound s)
    (run : s.regions.coalesce_anonymous_around base granted = some t) : Sound { s with regions := t } := by
  obtain ⟨rs,shows_⟩ := sound.shows_
  obtain ⟨t',rs',done,shows',seen⟩ := coalesce_spec base granted shows_
  rw [run] at done
  cases done
  refine sound.with_regions shows' fun n shown => Or.inl ?_
  rw [page_map_eq shows_.toLists]
  have same := congrArg Option.isSome (seen n)
  rw [isSome_map,isSome_map] at same
  exact same ▸ shown

/-! ## Runs -/
inductive Op where
  | map_region (region : Region) (requested_lock : Option FutureLockPolicy) (lock_admission : Option (Nat × Bool))
  | map_huge (region : HugeRegion) (fixed explicit_lock : Bool) (limit_bytes : Nat) (bypass_limit installed : Bool)
  | brk (heap_base arena_top requested : Nat) (limits : BrkLimits)
  | grow_stack (vaddr : Nat) (limits : StackGrowthLimits) (leaf : Nat → Bool)
  | punch_fixed (base len preserve_nodes : Nat)
  | mprotect (base len : Nat) (new_perms : RegionPerms)
  | mlock (base len : Nat) (limit_bytes : Option Nat)
  | mlock_onfault (base len : Nat) (limit_bytes : Option Nat)
  | munlock (base len : Nat)
  | coalesce (base : Nat)
/-- The state after an operation, whatever it returned. -/
def Op.run (granted granted' : Nat → Bool) (s : AddressSpace) : Op → Option AddressSpace
  | .map_region region requested_lock lock_admission =>
    (s.map_region_inner region requested_lock lock_admission granted).map Prod.fst
  | .map_huge region fixed explicit_lock limit_bytes bypass_limit installed =>
    (s.map_huge_region_locked_limited region fixed explicit_lock limit_bytes bypass_limit installed granted).map Prod.fst
  | .brk heap_base arena_top requested limits =>
    (s.update_brk_limited heap_base arena_top requested limits granted).map Prod.fst
  | .grow_stack vaddr limits leaf => (s.try_grow_stack_with_limits vaddr limits leaf granted).map Prod.fst
  | .punch_fixed base len preserve_nodes =>
    (s.punch_fixed_locked_with_shared_reserving base len preserve_nodes granted).map Prod.fst
  | .mprotect base len new_perms => (s.mprotect_range_wx_checked base len new_perms granted).map Prod.fst
  | .mlock base len limit_bytes => (s.mlock_range_limited base len limit_bytes granted granted').map Prod.fst
  | .mlock_onfault base len limit_bytes =>
    (s.mlock_range_onfault_limited base len limit_bytes granted granted').map Prod.fst
  | .munlock base len => (s.munlock_range base len granted granted').map Prod.fst
  | .coalesce base =>
    (s.regions.coalesce_anonymous_around base granted).map (fun t => { s with regions := t })
/-- A mapping has a page: the callers turn empty requests away. -/
def Op.Valid : Op → Prop
  | .map_region region _ _ => 0 < region.len
  | _ => True
/-- A growing break meets no huge mapping. -/
def Op.Clear (s : AddressSpace) : Op → Prop
  | .brk heap_base _ requested _ => s.GrowsClear heap_base requested
  | _ => True
lemma run_sound (op : Op) (valid : op.Valid) (clear : op.Clear s) (sound : Sound s)
    (run : op.run granted granted' s = some s') : Sound s' := by
  cases op with
  | map_region =>
    obtain ⟨⟨s₁,_⟩,done,rfl⟩ := map_eq_some_iff.mp run
    exact map_region_inner_sound sound valid done
  | map_huge =>
    obtain ⟨⟨s₁,_⟩,done,rfl⟩ := map_eq_some_iff.mp run
    exact map_huge_sound sound done
  | brk =>
    obtain ⟨⟨s₁,_⟩,done,rfl⟩ := map_eq_some_iff.mp run
    exact update_brk_sound sound clear done
  | grow_stack =>
    obtain ⟨⟨s₁,_⟩,done,rfl⟩ := map_eq_some_iff.mp run
    exact try_grow_stack_sound sound done
  | punch_fixed =>
    obtain ⟨⟨s₁,_⟩,done,rfl⟩ := map_eq_some_iff.mp run
    exact punch_sound sound done
  | mprotect =>
    obtain ⟨⟨s₁,_⟩,done,rfl⟩ := map_eq_some_iff.mp run
    exact mprotect_sound sound done
  | mlock | mlock_onfault | munlock =>
    simp only [Op.run,mlock_range_limited,mlock_range_onfault_limited,munlock_range] at run
    obtain ⟨⟨s₁,_⟩,done,rfl⟩ := map_eq_some_iff.mp run
    exact lock_range_sound rfl rfl sound done
  | coalesce =>
    obtain ⟨t,done,rfl⟩ := map_eq_some_iff.mp run
    exact coalesce_sound sound done
/-- One operation that a condition on the state before it admits. -/
def Step (admits : AddressSpace → Op → Prop) (s s' : AddressSpace) : Prop :=
  ∃ (op : Op) (granted granted' : Nat → Bool), op.Valid ∧ admits s op ∧ op.run granted granted' s = some s'
def Reachable (admits : AddressSpace → Op → Prop) (s : AddressSpace) : Prop :=
  ∃ program_data_bytes, Relation.ReflTransGen (Step admits) (new program_data_bytes) s
lemma Reachable.sound (reached : Reachable (fun s op => op.Clear s) s) : Sound s := by
  obtain ⟨bytes,steps⟩ := reached
  induction steps with
  | refl => exact sound_new bytes
  | tail _ step ih =>
    obtain ⟨op,_,_,valid,clear,run⟩ := step
    exact run_sound op valid clear ih run
/-- Mappings stay apart in every run whose heap growths meet no huge mapping, and the first growth
    that does meet one ends this. -/
theorem mappings_apart (reached : Reachable (fun s op => op.Clear s) s) :
    Separate s ∧ ∀ (heap_base arena_top requested : Nat) (limits : BrkLimits) (granted : Nat → Bool) (s' : AddressSpace),
      s.update_brk_limited heap_base arena_top requested limits granted = some (s',requested) →
        (Separate s' ↔ s.GrowsClear heap_base requested) := by
  refine ⟨reached.sound.separate,fun heap_base arena_top requested limits granted s' run => ⟨?_,?_⟩⟩
  · intro separate
    exact update_brk_clear reached.sound run separate
  · intro clear
    exact (update_brk_sound reached.sound clear run).separate
/-- A 2 MiB page in the arena of a heap that starts at `0x400000`. -/
def huge_in_arena : Op := .map_huge ⟨0x600000,0x200000,READ ||| WRITE,.M2,[0x40000000]⟩ false false 0 false true
def grow_heap : Op := .brk 0x400000 0x10000000 0x800000 ⟨2 ^ 64 - 1,2 ^ 64 - 1,0,false⟩
def grow_below : Op := .brk 0x400000 0x10000000 0x500000 ⟨2 ^ 64 - 1,2 ^ 64 - 1,0,false⟩
/-- The heap grows over the huge page. -/
theorem heap_grows_over_huge : ∃ s, Reachable (fun _ _ => True) s ∧ ¬ Separate s := by
  have ends : ((huge_in_arena.run (fun _ => true) (fun _ => true) (new 0)).bind (fun s =>
      grow_heap.run (fun _ => true) (fun _ => true) s)).map (fun s =>
        (s.regions.regions.map (fun r => (r.base,r.stop)),s.huge.map (fun h => (h.base,h.stop)))) =
      some ([(0x400000,0x800000)],[(0x600000,0x800000)]) := by decide +kernel
  obtain ⟨s,runs,shape⟩ := map_eq_some_iff.mp ends
  obtain ⟨s₁,first,second⟩ := bind_eq_some_iff.mp runs
  obtain ⟨ordinary,huge⟩ := Prod.mk.inj shape
  obtain ⟨r,_,regions,ends_,_⟩ := map_eq_cons_iff.mp ordinary
  obtain ⟨h,_,larges,ends',_⟩ := map_eq_cons_iff.mp huge
  refine ⟨s,⟨0,?_⟩,fun separate => ?_⟩
  · refine (Relation.ReflTransGen.single ⟨huge_in_arena,_,_,?_,trivial,first⟩).tail ⟨grow_heap,_,_,?_,trivial,second⟩
    · exact trivial
    · exact trivial
  · have apart := separate.2.2.2.2 r (by rw [regions]; exact mem_cons_self) h (by rw [larges]; exact mem_cons_self)
    obtain ⟨low,high⟩ := Prod.mk.inj ends_
    obtain ⟨low',high'⟩ := Prod.mk.inj ends'
    omega
/-- A growth of the heap up to `0x500000`, below the huge page, keeps the two apart. -/
theorem mappings_apart_beside_huge :
    ∃ s, Reachable (fun s op => op.Clear s) s ∧ s.regions.regions.length = 1 ∧ s.huge.length = 1 ∧ Separate s := by
  have ends : ((huge_in_arena.run (fun _ => true) (fun _ => true) (new 0)).bind (fun s =>
      if s.huge.all (fun h => !h.overlaps (page_up (s.current_break 0x400000)) (page_up 0x500000)) then
        grow_below.run (fun _ => true) (fun _ => true) s else none)).map (fun s =>
          (s.regions.regions.length,s.huge.length)) = some (1,1) := by decide +kernel
  obtain ⟨s,runs,shape⟩ := map_eq_some_iff.mp ends
  obtain ⟨s₁,first,second⟩ := bind_eq_some_iff.mp runs
  obtain ⟨clear,second⟩ := Option.ite_none_right_eq_some.mp second
  obtain ⟨one,one'⟩ := Prod.mk.inj shape
  have clears : grow_below.Clear s₁ := by
    intro _ h mem
    simpa using all_eq_true.mp clear h mem
  have reached : Reachable (fun s op => op.Clear s) s :=
    ⟨0,(Relation.ReflTransGen.single ⟨huge_in_arena,_,_,trivial,trivial,first⟩).tail
      ⟨grow_below,_,_,trivial,clears,second⟩⟩
  exact ⟨s,reached,one,one',(mappings_apart reached).1⟩
end Narf.Memory.AddressSpace
