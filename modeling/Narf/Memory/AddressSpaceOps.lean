import Narf.Memory.AddressSpace
import Narf.Memory.VmaOps

namespace Narf.Memory
open Lib RegionPerms RegionTable List Option
open Bool hiding not_not not_or
open HugeRegion (stop)

/-! The mappings of an address space stay apart: the invariant, and the operations that add or drop
    address range. -/

/-! ## Huge mappings -/
namespace HugeRegion
/-- Whole, naturally aligned huge pages in the user half. -/
structure Proper (h : HugeRegion) : Prop where
  base : h.base % h.size.bytes = 0
  len : h.len = h.frames.length * h.size.bytes
  pos : 0 < h.len
  user : h.stop ≤ USER_HALF_END
def covers (n : Nat) (h : HugeRegion) : Prop := h.base ≤ n * PAGE ∧ n * PAGE < h.stop
def DisjointFrom (a b : HugeRegion) : Prop := a.stop ≤ b.base ∨ b.stop ≤ a.base
variable {h q : HugeRegion} {lo hi n : Nat} {prot : RegionPerms}
lemma Proper.aligned (proper : h.Proper) : h.base % PAGE = 0 ∧ h.len % PAGE = 0 := by
  have base := proper.base
  have len := proper.len
  constructor <;> cases size : h.size <;> simp only [size,HugeSize.bytes,PAGE] at * <;> omega
lemma overlaps_eq_false : h.overlaps lo hi = false ↔ h.stop ≤ lo ∨ hi ≤ h.base := by
  simp only [overlaps,and_eq_false_iff,decide_eq_false_iff_not]
  omega
lemma not_covers_of_outside (outside : h.overlaps lo hi = false) (low : lo ≤ n * PAGE) (high : n * PAGE < hi) : ¬ h.covers n := by
  rw [overlaps_eq_false] at outside
  rintro ⟨first,second⟩
  omega
lemma exists_page (proper : h.Proper) (aligned : lo % PAGE = 0) (pos : lo < hi)
    (meets : h.overlaps lo hi) : ∃ n, h.covers n ∧ lo ≤ n * PAGE ∧ n * PAGE < hi := by
  have base := proper.aligned.1
  have size := proper.pos
  simp only [overlaps,and_eq_true,decide_eq_true_eq] at meets
  refine ⟨max lo h.base / PAGE,?_⟩
  simp only [covers,stop,PAGE] at *
  omega
end HugeRegion

namespace AddressSpace
open HugeRegion

variable {s s' : AddressSpace} {rs : List Region} {lo hi n : Nat} {granted : Nat → Bool}
  {result : Except AddressSpaceError Unit}

section Protect
variable {h : HugeRegion} {prot : RegionPerms} (proper : h.Proper) (whole : cuts_page lo hi h = false)
/-- The frame counts of the three parts, and where the parts begin. -/
structure Parts (h : HugeRegion) (lo hi a m : Nat) : Prop where
  head : (h.frames.take a).length = a
  middle : ((h.frames.drop a).take m).length = m
  tail : ((h.frames.drop a).drop m).length = h.frames.length - a - m
  some_ : 0 < m
  low : lo = h.base + a * h.size.bytes
  high : hi = h.base + (a + m) * h.size.bytes
  stop : h.stop = h.base + h.frames.length * h.size.bytes
  fits : a + m ≤ h.frames.length

include proper whole in
lemma parts_of_overlaps (pos : lo < hi) (meets : h.overlaps lo hi) :
    Parts h (max lo h.base) (min hi h.stop) ((max lo h.base - h.base) / h.size.bytes) ((min hi h.stop - max lo h.base) / h.size.bytes) := by
  have len := proper.len
  have size := proper.pos
  simp only [cuts_page,meets,Bool.true_and,Bool.or_eq_false_iff,decide_eq_false_iff_not,not_not] at whole
  obtain ⟨first,second⟩ := whole
  simp only [overlaps,and_eq_true,decide_eq_true_eq] at meets
  have fits : (max lo h.base - h.base) / h.size.bytes + (min hi h.stop - max lo h.base) / h.size.bytes ≤
      h.frames.length := by
    cases kind : h.size <;> simp only [kind,stop,HugeSize.bytes] at * <;> omega
  refine ⟨?_,?_,?_,?_,?_,?_,by rw [stop,len],fits⟩
  · rw [length_take]
    exact Nat.min_eq_left (Nat.le_trans (Nat.le_add_right _ _) fits)
  · rw [length_take,length_drop]
    exact Nat.min_eq_left (Nat.le_sub_of_add_le (Nat.add_comm _ _ ▸ fits))
  · rw [length_drop,length_drop]
  all_goals cases kind : h.size <;> simp only [kind,stop,HugeSize.bytes] at * <;> omega
/-- A run of the frames of a huge mapping, as a mapping of its own. -/
lemma proper_part (proper : h.Proper) {q : HugeRegion} {k : Nat} (size : q.size = h.size)
    (base : q.base = h.base + k * h.size.bytes) (len : q.len = q.frames.length * h.size.bytes)
    (some_ : 0 < q.frames.length) (fits : k + q.frames.length ≤ h.frames.length) : q.Proper ∧ h.base ≤ q.base ∧ q.stop ≤ h.stop := by
  have aligned := proper.base
  have whole := proper.len
  have user := proper.user
  have inside : q.stop ≤ h.stop := by cases kind : h.size <;> simp only [kind,stop,HugeSize.bytes] at * <;> omega
  refine ⟨⟨?_,?_,?_,inside.trans user⟩,by omega,inside⟩
  · rw [size]
    cases kind : h.size <;> simp only [kind,HugeSize.bytes] at * <;> omega
  · rw [len,size]
  · cases kind : h.size <;> simp only [kind,HugeSize.bytes] at * <;> omega

include proper whole in
/-- A change of protection keeps a huge mapping's range, cut at huge-page boundaries. -/
lemma protect_huge_spec (pos : lo < hi) : (∀ q ∈ protect_huge lo hi prot h, q.Proper ∧ h.base ≤ q.base ∧ q.stop ≤ h.stop) ∧
      (protect_huge lo hi prot h).Pairwise DisjointFrom := by
  unfold protect_huge
  by_cases meets : h.overlaps lo hi
  · rw [meets]
    simp only [Bool.not_true,Bool.false_eq_true,if_false]
    have parts := parts_of_overlaps proper whole pos meets
    generalize (max lo h.base - h.base) / h.size.bytes = a at parts ⊢
    generalize (min hi h.stop - max lo h.base) / h.size.bytes = m at parts ⊢
    generalize max lo h.base = split_lo at parts ⊢
    generalize min hi h.stop = split_hi at parts ⊢
    have lens := proper.len
    -- the parts are there exactly when they have frames
    have heads : ∀ q ∈ (if (h.frames.take a).isEmpty then [] else
        [(⟨h.base,(h.frames.take a).length * h.size.bytes,h.perms,h.size,h.frames.take a⟩ : HugeRegion)]),
        (q.Proper ∧ h.base ≤ q.base ∧ q.stop ≤ h.stop) ∧ q.stop ≤ split_lo := by
      intro q mem
      split at mem
      · exact absurd mem not_mem_nil
      · rename_i full
        obtain rfl := mem_singleton.mp mem
        have some_ : 0 < (h.frames.take a).length := by
          rw [length_pos_iff]
          exact fun empty => full (isEmpty_iff.mpr empty)
        refine ⟨proper_part proper (k := 0) rfl (by simp) rfl some_ ?_,?_⟩
        · have := parts.fits
          have := parts.head
          simp only
          omega
        · simp only [stop,parts.head,parts.low]
          exact le_rfl
    have tails : ∀ q ∈ (if ((h.frames.drop a).drop m).isEmpty then [] else
        [(⟨split_hi,((h.frames.drop a).drop m).length * h.size.bytes,h.perms,h.size,(h.frames.drop a).drop m⟩ : HugeRegion)]),
        (q.Proper ∧ h.base ≤ q.base ∧ q.stop ≤ h.stop) ∧ split_hi ≤ q.base := by
      intro q mem
      split at mem
      · exact absurd mem not_mem_nil
      · rename_i full
        obtain rfl := mem_singleton.mp mem
        have some_ : 0 < ((h.frames.drop a).drop m).length := by
          rw [length_pos_iff]
          exact fun empty => full (isEmpty_iff.mpr empty)
        refine ⟨proper_part proper (k := a + m) rfl parts.high rfl some_ ?_,le_rfl⟩
        have := parts.fits
        have := parts.tail
        simp only
        omega
    have middle := proper_part proper (k := a) (q := ⟨split_lo,((h.frames.drop a).take m).length * h.size.bytes,
      prot_change prot h.perms,h.size,(h.frames.drop a).take m⟩) rfl parts.low rfl
      (by have := parts.middle; have := parts.some_; simp only; omega)
      (by have := parts.middle; have := parts.fits; simp only; omega)
    have ends : split_lo + ((h.frames.drop a).take m).length * h.size.bytes = split_hi := by
      rw [parts.middle,parts.low,parts.high,Nat.add_mul,add_assoc]
    refine ⟨?_,pairwise_append.mpr ⟨?_,pairwise_cons.mpr ⟨?_,?_⟩,?_⟩⟩
    · intro q mem
      rcases mem_append.mp mem with mem | mem
      · exact (heads q mem).1
      · rcases mem_cons.mp mem with rfl | mem
        · exact middle
        · exact (tails q mem).1
    · split
      · exact Pairwise.nil
      · exact pairwise_singleton _ _
    · intro q mem
      left
      exact le_trans (le_of_eq ends) (tails q mem).2
    · split
      · exact Pairwise.nil
      · exact pairwise_singleton _ _
    · intro a earlier b later
      left
      have first := (heads a earlier).2
      rcases mem_cons.mp later with rfl | later
      · exact first
      · have second := (tails b later).2
        have between : split_lo ≤ split_hi := by rw [← ends]; exact Nat.le_add_right _ _
        exact (first.trans between).trans second
  · rw [not_eq_true] at meets
    rw [meets]
    refine ⟨?_,pairwise_singleton _ _⟩
    intro q mem
    obtain rfl := mem_singleton.mp mem
    exact ⟨proper,le_rfl,le_rfl⟩
end Protect

/-! ## The invariant -/
/-- The ordinary regions are orderly, the huge mappings are proper and apart, and no page of a
    region lies in a huge mapping. -/
structure Sound (s : AddressSpace) : Prop where
  shows_ : ∃ rs, Shows False s.regions rs
  huge : ∀ h ∈ s.huge, h.Proper
  apart : s.huge.Pairwise DisjointFrom
  clear : ∀ n, (s.regions.page_map n).isSome = true → ∀ h ∈ s.huge, ¬ h.covers n
lemma Sound.fails {e : AddressSpaceError} {result : Except AddressSpaceError Unit} (sound : Sound s)
    (run : s.fails e = some (s',result)) : Sound s' := by
  cases run
  exact sound
/-- What the invariant says of ranges. -/
def Separate (s : AddressSpace) : Prop :=
  (∀ r ∈ s.regions.regions, r.base % PAGE = 0 ∧ r.len % PAGE = 0 ∧ r.stop ≤ USER_HALF_END) ∧
  (∀ h ∈ s.huge, h.base % PAGE = 0 ∧ h.len % PAGE = 0 ∧ h.stop ≤ USER_HALF_END) ∧
  s.regions.regions.Pairwise (fun a b => a.stop ≤ b.base) ∧
  s.huge.Pairwise DisjointFrom ∧
  ∀ r ∈ s.regions.regions, ∀ h ∈ s.huge, r.stop ≤ h.base ∨ h.stop ≤ r.base
lemma isSome_view_iff : (view rs n).isSome ↔ ∃ r ∈ rs, r.base ≤ n * PAGE ∧ n * PAGE < r.stop := by
  rw [view,List.isSome_findSome?,List.any_eq_true]
  simp [isSome_view]
lemma Sound.separate (sound : Sound s) : Separate s := by
  obtain ⟨rs,shows_⟩ := sound.shows_
  have pages := page_map_eq shows_.toLists
  have listed := shows_.toLists.regions
  refine ⟨?_,?_,?_,sound.apart,?_⟩
  · intro r mem
    have proper := shows_.orderly.proper r (listed ▸ mem)
    exact ⟨proper.base,proper.len,proper.user⟩
  · intro h mem
    have proper := sound.huge h mem
    exact ⟨proper.aligned.1,proper.aligned.2,proper.user⟩
  · rw [listed]
    exact shows_.orderly.apart
  · intro r mem h inHuge
    rw [listed] at mem
    have proper := shows_.orderly.proper r mem
    by_contra meets
    have overlap : h.overlaps r.base r.stop := by
      simp only [HugeRegion.overlaps,and_eq_true,decide_eq_true_eq]
      omega
    obtain ⟨n,covered,low,high⟩ := exists_page (sound.huge h inHuge) proper.base (Nat.lt_add_of_pos_right proper.pos) overlap
    refine sound.clear n ?_ h inHuge covered
    rw [pages,isSome_view_iff]
    exact ⟨r,mem,low,high⟩
lemma sound_new (program_data_bytes : Nat) : Sound (new program_data_bytes) where
  shows_ := ⟨[],shows_new False⟩
  huge := nofun
  apart := Pairwise.nil
  clear := fun _ _ _ mem => absurd mem not_mem_nil
variable {t : RegionTable} {b heap_base arena_top requested : Nat} {region : HugeRegion} {installed : Bool}
  {limits : BrkLimits} {plan : StackGrowthPlan} {leaf : Nat → Bool}

/-- Change the regions: every new page is outside the huge mappings. -/
lemma Sound.with_regions (sound : Sound s) (shows' : Shows False t rs) (pages : ∀ n, (view rs n).isSome →
      (s.regions.page_map n).isSome ∨ ∀ h ∈ s.huge, ¬ h.covers n) : Sound { s with regions := t, brk_top := b } where
  shows_ := ⟨rs,shows'⟩
  huge := sound.huge
  apart := sound.apart
  clear := by
    intro n shown h mem
    rw [page_map_eq shows'.toLists] at shown
    rcases pages n shown with old | fresh
    · exact sound.clear n old h mem
    · exact fresh h mem
lemma Sound.with_brk (sound : Sound s) (b : Nat) : Sound { s with brk_top := b } :=
  ⟨sound.shows_,sound.huge,sound.apart,sound.clear⟩

/-! ## The operations -/
lemma short_of_predecessor (lists : t.Lists rs) (clear : ¬ (t.predecessor lo).any (lo < ·.stop)) : ∀ r ∈ rs, r.base < lo → r.stop ≤ lo := by
  cases found : t.predecessor lo with
  | none =>
    intro r mem low
    have absent := predecessor_none lists found r mem
    simp only [decide_eq_false_iff_not] at absent
    exact absurd low absent
  | some p =>
    obtain ⟨before,after,rfl,_,above⟩ := predecessor_cut lists found
    simp only [found,any_some,decide_eq_true_eq] at clear
    simp only [decide_eq_false_iff_not,not_lt] at above
    exact no_reach_of_cut lists.orderly (by omega) above
lemma map_region_inner_sound {region : Region} {requested_lock : Option FutureLockPolicy}
    {lock_admission : Option (Nat × Bool)} (sound : Sound s) (pos : 0 < region.len)
    (run : s.map_region_inner region requested_lock lock_admission granted = some (s',result)) : Sound s' := by
  unfold map_region_inner at run
  dsimp only at run
  generalize (if contains region.perms LOCK_ONFAULT then region.perms ||| LOCKED else region.perms) = perms at run
  split at run
  · exact sound.fails run
  split at run
  · exact sound.fails run
  rename_i aligned
  split at run
  · exact sound.fails run
  split at run
  · exact sound.fails run
  rename_i user
  split at run
  · exact sound.fails run
  rename_i outside
  split at run
  · exact sound.fails run
  rename_i below
  split at run
  · exact sound.fails run
  rename_i above
  split at run
  · exact sound.fails run
  split at run
  · exact sound.fails run
  obtain ⟨t,published,equal⟩ := map_eq_some_iff.mp run
  cases equal
  obtain ⟨rs,shows_⟩ := sound.shows_
  rw [not_or,not_not,not_not] at aligned
  have free := free_of_checks shows_.toLists above (short_of_predecessor shows_.toLists below)
  obtain ⟨t',rs',published',shows',_,seen⟩ := publish_fresh (shows_.reserve 1)
    (p := { region with perms := locked_perms (lock_mode requested_lock s.regions.future_lock) perms })
    ⟨aligned.1,aligned.2,pos,Nat.le_of_not_lt user⟩
    (fun r mem => not_meets (free r mem)) False.elim (lt_of_lt_of_le Nat.zero_lt_one (le_max_right _ _))
  rw [published] at published'
  obtain rfl := some.inj published'
  refine sound.with_regions shows' fun n shown => ?_
  rw [seen,isSome_or,or_eq_true,isSome_view] at shown
  rcases shown with ⟨low,high⟩ | old
  · right
    intro h mem
    have apart : h.overlaps region.base region.stop = false := by
      rw [not_eq_true,List.any_eq_false] at outside
      simpa using outside h mem
    exact not_covers_of_outside apart low high
  · left
    rw [page_map_eq shows_.toLists]
    exact old
lemma punch_sound {base len preserve_nodes : Nat} (sound : Sound s)
    (run : s.punch_fixed_locked_with_shared_reserving base len preserve_nodes granted = some (s',result)) : Sound s' := by
  obtain ⟨rs,shows_⟩ := sound.shows_
  have pages := page_map_eq shows_.toLists
  have fewer {rs' : List Region} (seen : ∀ n, view rs' n =
      (view rs n).bind (fun v => if inRange base (base + len) n then none else some v)) (n : Nat)
      (shown : (view rs' n).isSome) : (s.regions.page_map n).isSome := by
    rw [pages]
    rw [seen] at shown
    cases old : view rs n with
    | none =>
      rw [old] at shown
      exact absurd shown (by simp)
    | some v => rfl
  unfold punch_fixed_locked_with_shared_reserving at run
  dsimp only at run
  split at run
  · exact sound.fails run
  rename_i aligned
  split at run
  · exact sound.fails run
  split at run
  · exact sound.fails run
  rw [not_or,not_not,not_not] at aligned
  have ends : base % PAGE = 0 ∧ (base + len) % PAGE = 0 := by
    simp only [PAGE] at *
    omega
  have le : base ≤ base + len := Nat.le_add_right _ _
  split at run
  · rename_i exact_
    rw [and_eq_true] at exact_
    obtain ⟨⟨t,r⟩,removed,equal⟩ := map_eq_some_iff.mp run
    cases equal
    obtain ⟨t',r',rs',removed',shows',seen⟩ := remove_exact_spec ends le shows_ exact_.2
    rw [removed] at removed'
    obtain ⟨rfl,_⟩ := Prod.mk.inj (some.inj removed')
    exact sound.with_regions shows' fun n shown => Or.inl (fewer seen n shown)
  split at run
  · exact sound.fails run
  obtain ⟨⟨t,r⟩,punched,equal⟩ := map_eq_some_iff.mp run
  rcases punch_overlapping_spec ends preserve_nodes (fun i => granted (i + 2)) le shows_ with
    error | ⟨t',rs',done,shows',seen⟩
  · rw [punched] at error
    obtain ⟨_,rfl⟩ := Prod.mk.inj (some.inj error)
    cases equal
    exact sound
  · rw [punched] at done
    cases done
    cases equal
    refine ⟨⟨rs',shows'⟩,?_,sound.apart.filter _,?_⟩
    · intro h mem
      exact sound.huge h (mem_of_mem_filter mem)
    · intro n shown h mem
      rw [page_map_eq shows'.toLists] at shown
      exact sound.clear n (fewer seen n shown) h (mem_of_mem_filter mem)
lemma map_huge_region_locked_sound (sound : Sound s) (run : s.map_huge_region_locked region installed = some (s',result)) : Sound s' := by
  obtain ⟨rs,shows_⟩ := sound.shows_
  unfold map_huge_region_locked at run
  dsimp only at run
  split at run
  · exact sound.fails run
  rename_i wellFormed
  split at run
  · exact sound.fails run
  rename_i user
  split at run
  · exact sound.fails run
  rename_i free
  split at run
  · exact sound.fails run
  rename_i unused
  split at run
  · exact sound.fails run
  cases run
  simp only [not_or,not_not] at wellFormed
  obtain ⟨base,some_,len,count⟩ := wellFormed
  have proper : region.Proper := by
    refine ⟨base,?_,Nat.pos_of_ne_zero some_,Nat.le_of_not_lt user⟩
    rw [count,Nat.div_mul_cancel (Nat.dvd_of_mod_eq_zero len)]
  refine ⟨⟨rs,shows_⟩,?_,?_,?_⟩
  · intro h mem
    rcases mem_append.mp mem with mem | mem
    · exact sound.huge h mem
    · obtain rfl := mem_singleton.mp mem
      exact proper
  · refine pairwise_append.mpr ⟨sound.apart,pairwise_singleton _ _,?_⟩
    intro a mem b last
    obtain rfl := mem_singleton.mp last
    rw [not_eq_true,List.any_eq_false] at free
    have apart := overlaps_eq_false.mp (by simpa using free a mem)
    exact apart
  · intro n shown h mem
    rcases mem_append.mp mem with mem | mem
    · exact sound.clear n shown h mem
    · obtain rfl := mem_singleton.mp mem
      rw [page_map_eq shows_.toLists,isSome_view_iff] at shown
      obtain ⟨r,inside,low,high⟩ := shown
      rw [not_eq_true,List.any_eq_false,shows_.toLists.regions] at unused
      have apart := unused r inside
      simp only [and_eq_true,decide_eq_true_eq] at apart
      rintro ⟨first,second⟩
      omega
lemma map_huge_sound {fixed explicit_lock bypass_limit : Bool} {limit_bytes : Nat}
    (sound : Sound s) (run : s.map_huge_region_locked_limited region fixed explicit_lock limit_bytes bypass_limit
      installed granted = some (s',result)) : Sound s' := by
  unfold map_huge_region_locked_limited at run
  split at run
  · cases run
    exact sound
  · obtain ⟨⟨s₁,first⟩,punched,rest⟩ := bind_eq_some_iff.mp run
    have sound₁ : Sound s₁ := by
      split at punched
      · exact punch_sound sound punched
      · cases punched
        exact sound
    cases first with
    | error e =>
      cases rest
      exact sound₁
    | ok _ => exact map_huge_region_locked_sound sound₁ rest

/-! ## The program break -/
def current_break (s : AddressSpace) (heap_base : Nat) : Nat := if s.brk_top = 0 then heap_base else s.brk_top
/-- No huge mapping meets the pages that the request adds to the heap. -/
def GrowsClear (s : AddressSpace) (heap_base requested : Nat) : Prop :=
  page_up (s.current_break heap_base) < page_up requested →
    ∀ h ∈ s.huge, h.overlaps (page_up (s.current_break heap_base)) (page_up requested) = false
lemma page_up_mono {a : Nat} (le : a ≤ b) : page_up a ≤ page_up b := by
  refine Nat.mul_le_mul_right _ (Nat.div_le_div_right ?_)
  simp only [saturating_add]
  omega
lemma page_up_aligned (a : Nat) : page_up a % PAGE = 0 := Nat.mul_mod_left _ _
/-- A request shrinks the heap or leaves it, or it grows the heap by the pages up to the new break. -/
lemma update_brk_cases (sound : Sound s) (run : s.update_brk_limited heap_base arena_top requested limits granted = some (s',b)) :
    (Sound s' ∧ (b = requested → page_up requested ≤ page_up (s.current_break heap_base))) ∨
    ∃ t rs', s' = { s with regions := t, brk_top := requested } ∧ Shows False t rs' ∧
      page_up (s.current_break heap_base) < page_up requested ∧
      ∀ n, (view rs' n).isSome = (inRange (page_up (s.current_break heap_base)) (page_up requested) n ||
        (s.regions.page_map n).isSome) := by
  obtain ⟨rs,shows_⟩ := sound.shows_
  unfold update_brk_limited at run
  dsimp only at run
  rw [← current_break] at run
  generalize s.current_break heap_base = current at run ⊢
  have kept := sound.with_brk current
  have stays (run : some ({ s with brk_top := current },current) = some (s',b)) :
      Sound s' ∧ (b = requested → page_up requested ≤ page_up current) := by
    obtain ⟨rfl,rfl⟩ := Prod.mk.inj (some.inj run)
    exact ⟨kept,fun same => Nat.le_of_eq (by rw [same])⟩
  split at run
  · exact Or.inl (stays run)
  split at run
  · exact Or.inl (stays run)
  split at run
  · exact Or.inl (stays run)
  split at run
  · rename_i shrinks
    left
    have lower := page_up_mono shrinks
    split at run
    · split at run
      · exact stays run
      · obtain ⟨⟨s₁,r⟩,punched,equal⟩ := map_eq_some_iff.mp run
        have sound₁ := punch_sound kept punched
        cases r with
        | error e =>
          obtain ⟨rfl,_⟩ := Prod.mk.inj equal
          exact ⟨sound₁,fun _ => lower⟩
        | ok _ =>
          obtain ⟨rfl,_⟩ := Prod.mk.inj equal
          exact ⟨sound₁.with_brk requested,fun _ => lower⟩
    · obtain ⟨rfl,_⟩ := Prod.mk.inj (some.inj run)
      exact ⟨kept.with_brk requested,fun _ => lower⟩
  · rename_i grows
    have upper := page_up_mono (Nat.le_of_not_le grows)
    have first := page_up_aligned current
    have second := page_up_aligned requested
    split at run
    · rename_i none_
      obtain ⟨rfl,_⟩ := Prod.mk.inj (some.inj run)
      refine Or.inl ⟨kept.with_brk requested,fun _ => ?_⟩
      simp only [PAGE] at first second none_
      omega
    rename_i some_
    have ahead : page_up current < page_up requested := by
      refine Nat.lt_of_le_of_ne upper fun same => some_ ?_
      rw [same,Nat.sub_self,Nat.zero_div]
    split at run
    · exact Or.inl (stays run)
    obtain ⟨⟨t,r⟩,extended,equal⟩ := map_eq_some_iff.mp run
    rcases brk_extend_spec (page_up current) ((page_up requested - page_up current) / PAGE) limits.memlock_limit_bytes
      limits.bypass_memlock_limit granted shows_ with ⟨e,error⟩ | ⟨t',rs',done,shows',seen,_⟩
    · rw [extended] at error
      obtain ⟨_,rfl⟩ := Prod.mk.inj (some.inj error)
      exact Or.inl (stays (congrArg some equal))
    · rw [extended] at done
      obtain ⟨rfl,rfl⟩ := Prod.mk.inj (some.inj done)
      obtain ⟨rfl,_⟩ := Prod.mk.inj equal
      have reach : page_up current + (page_up requested - page_up current) / PAGE * PAGE = page_up requested := by
        simp only [PAGE] at first second ⊢
        omega
      rw [reach] at seen
      refine Or.inr ⟨t,rs',rfl,shows',ahead,fun n => ?_⟩
      rw [seen,page_map_eq shows_.toLists]
lemma update_brk_sound (sound : Sound s) (clear : s.GrowsClear heap_base requested)
    (run : s.update_brk_limited heap_base arena_top requested limits granted = some (s',b)) : Sound s' := by
  rcases update_brk_cases sound run with ⟨kept,_⟩ | ⟨t,rs',rfl,shows',ahead,seen⟩
  · exact kept
  · refine sound.with_regions shows' (fun n shown => ?_)
    rw [seen,or_eq_true] at shown
    rcases shown with fresh | old
    · right
      intro h mem
      simp only [inRange_iff] at fresh
      exact not_covers_of_outside (clear ahead h mem) fresh.1 fresh.2
    · exact Or.inl old
lemma update_brk_clear (sound : Sound s) (run : s.update_brk_limited heap_base arena_top requested limits granted = some (s',requested))
    (separate : Separate s') : s.GrowsClear heap_base requested := by
  intro ahead h mem
  rcases update_brk_cases sound run with ⟨_,small⟩ | ⟨t,rs',rfl,shows',_,seen⟩
  · exact absurd (small rfl) (by omega)
  · by_contra meets
    rw [not_eq_false] at meets
    obtain ⟨n,covered,low,high⟩ := exists_page (sound.huge h mem) (page_up_aligned _) ahead meets
    have shown : (view rs' n).isSome := by
      rw [seen]
      simp [inRange,low,high]
    rw [isSome_view_iff] at shown
    obtain ⟨r,inside,first,second⟩ := shown
    have apart := separate.2.2.2.2 r (shows'.toLists.regions ▸ inside) h mem
    obtain ⟨third,fourth⟩ := covered
    omega

/-! ## Stack growth -/
lemma has_overlap_spec (lists : t.Lists rs) (le : lo ≤ hi) (clear : t.has_overlap lo hi = false) : ∀ r ∈ rs, r.meets lo hi = false := by
  have none_ : t.visited lo hi = [] := by
    simp only [has_overlap,or_eq_false_iff,not_eq_false'] at clear
    obtain ⟨first,second⟩ := clear
    rw [visited,isEmpty_iff.mp second,append_nil]
    cases found : t.predecessor lo with
    | none => rfl
    | some p =>
      simp only [found,any_some] at first
      simp [filter_some,first]
  rw [visited_spec lists le,filter_eq_nil_iff] at none_
  intro r mem
  simpa using none_ r mem
lemma stack_guard_spec {v guard_base : Nat} (lists : t.Lists rs)
    (found : stack_guard_for_fault t v = some guard_base) : ∃ g ∈ rs, g.base = guard_base ∧ v ≤ g.base := by
  obtain ⟨g,filtered,rfl⟩ := map_eq_some_iff.mp found
  obtain ⟨selected,holds⟩ := filter_eq_some_iff.mp filtered
  simp only [and_eq_true,decide_eq_true_eq] at holds
  refine ⟨g,?_,rfl,holds.2.1⟩
  rcases or_eq_some_iff.mp selected with inside | ⟨_,next⟩
  · obtain ⟨before_,_⟩ := filter_eq_some_iff.mp inside
    obtain ⟨before,after,rfl,_,_⟩ := predecessor_cut lists before_
    simp
  · exact (successor_cut lists next).1
lemma stack_growth_plan_spec {bytes v : Nat} {limits : StackGrowthLimits}
    (lists : t.Lists rs) (planned : stack_growth_plan t bytes v limits = .ok plan) :
    ∃ g ∈ rs, g.base = plan.guard_base ∧ plan.v_page = v ∧ v ≤ g.base ∧ PAGE ≤ v ∧
      plan.new_guard_base = v - PAGE ∧ plan.npages = (g.base - v) / PAGE + 1 ∧ t.has_overlap (v - PAGE) g.base = false := by
  unfold stack_growth_plan at planned
  cases found : stack_guard_for_fault t v with
  | none =>
    rw [found] at planned
    exact absurd planned (by simp)
  | some guard_base =>
    rw [found] at planned
    dsimp only at planned
    obtain ⟨g,mem,rfl,low⟩ := stack_guard_spec lists found
    split at planned
    · exact absurd planned (by simp)
    rename_i room
    split at planned
    · exact absurd planned (by simp)
    split at planned
    · exact absurd planned (by simp)
    rename_i free
    split at planned
    · exact absurd planned (by simp)
    split at planned
    · exact absurd planned (by simp)
    split at planned
    · exact absurd planned (by simp)
    obtain rfl := Except.ok.inj planned
    exact ⟨g,mem,rfl,rfl,low,Nat.le_of_not_lt room,rfl,rfl,by simpa using free⟩
lemma unmapped_spec (unmapped : s.stack_growth_range_is_unmapped leaf plan) : ∀ i ≤ plan.npages, ∀ h ∈ s.huge,
      ¬ (h.base ≤ plan.new_guard_base + i * PAGE ∧ plan.new_guard_base + i * PAGE < h.stop) := by
  intro i le h mem inside
  have free := all_eq_true.mp unmapped i (mem_range.mpr (by omega))
  simp only [translates,not_eq_true',or_eq_false_iff,List.any_eq_false] at free
  exact free.1 h mem (by simpa using inside)
lemma try_grow_stack_sound {vaddr : Nat} {limits : StackGrowthLimits} (sound : Sound s)
    (run : s.try_grow_stack_with_limits vaddr limits leaf granted = some (s',result)) : Sound s' := by
  obtain ⟨rs,shows_⟩ := sound.shows_
  unfold try_grow_stack_with_limits at run
  split at run
  · exact sound.fails run
  rename_i plan planned
  split at run
  · exact sound.fails run
  rename_i unmapped
  split at run
  · exact sound.fails run
  rw [not_eq_true,not_eq_false'] at unmapped
  obtain ⟨g,mem,base,page,low,room,lower,count,free⟩ := stack_growth_plan_spec shows_.toLists planned
  have vAligned : vaddr / PAGE * PAGE % PAGE = 0 := Nat.mul_mod_left _ _
  generalize vaddr / PAGE * PAGE = v at *
  have leaves := unmapped_spec unmapped
  obtain ⟨before,after,rfl⟩ := append_of_mem mem
  have properG := shows_.orderly.proper g mem
  have clear := has_overlap_spec shows_.toLists (by omega) free
  have gBase := properG.base
  have gLen := properG.len
  have gPos := properG.pos
  have gUser := properG.user
  -- the new stack reaches to the end of the old guard's first page
  have reach : v + plan.npages * PAGE = g.base + PAGE := by
    rw [count]
    simp only [PAGE] at *
    omega
  have wide : g.base + PAGE ≤ g.stop := by
    simp only [Region.stop,PAGE] at *
    omega
  obtain ⟨_,rest,across⟩ := orderly_append.mp shows_.orderly
  obtain ⟨_,_,upper⟩ := orderly_cons.mp rest
  have others : ∀ r ∈ before ++ after, r.meets (v - PAGE) (g.base + PAGE) = false := by
    intro r inside
    rcases mem_append.mp inside with early | late
    · have apart := clear r (by simp [early])
      have pos := (shows_.orderly.proper r (by simp [early])).pos
      have under := across r early g (by simp)
      simp only [Region.not_meets_iff] at apart ⊢
      simp only [Region.stop] at apart under ⊢
      omega
    · exact not_meets (.inr (wide.trans (upper r late)))
  obtain ⟨⟨t₁,old⟩,removed,run⟩ := bind_eq_some_iff.mp run
  obtain ⟨t₂,published,run⟩ := bind_eq_some_iff.mp run
  obtain ⟨t₃,published',equal⟩ := map_eq_some_iff.mp run
  cases equal
  obtain ⟨t₁',removed',shows₁,spare₁,_⟩ := remove_spec (shows_.reserve 2)
  rw [base,removed] at removed'
  obtain ⟨rfl,rfl⟩ := Prod.mk.inj (some.inj removed')
  have spare : 3 ≤ t₁.spare := by
    rw [spare₁]
    have two : 2 ≤ (s.regions.try_reserve_nodes 2).spare := le_max_right _ _
    omega
  have some_ : 0 < plan.npages := by
    rw [count]
    exact Nat.succ_pos _
  have stack : (Region.mk plan.v_page (plan.npages * PAGE) plan.grown_perms .new).Proper := by
    refine ⟨by rw [page]; exact vAligned,Nat.mul_mod_left _ _,Nat.mul_pos some_ (by decide),?_⟩
    simp only [Region.stop,page,reach]
    exact wide.trans gUser
  obtain ⟨t₂',rs₂,published₂,shows₂,spare₂,seen₂⟩ := publish_fresh shows₁ stack (by
    intro r inside
    have apart := others r inside
    simp only [Region.not_meets_iff] at apart ⊢
    simp only [Region.stop,page] at apart ⊢
    omega) False.elim (by omega)
  rw [published] at published₂
  cases published₂
  have guard_ : (Region.mk plan.new_guard_base PAGE (STACK_GUARD ||| LOCK_EXEMPT) old.phys).Proper := by
    refine ⟨?_,Nat.mod_self _,(by decide : 0 < PAGE),?_⟩
    · simp only [lower,PAGE] at *
      omega
    · simp only [Region.stop,lower] at *
      omega
  obtain ⟨t₃',rs₃,published₃,shows₃,_,seen₃⟩ := publish_fresh shows₂ guard_ (by
    intro r inside
    by_contra meets
    rw [not_eq_false] at meets
    simp only [Region.meets_iff] at meets
    simp only [Region.stop,lower] at meets
    -- a page of the region in the guard's range was there before or belongs to the new stack
    have properR := shows₂.orderly.proper r inside
    have rBase := properR.base
    have rLen := properR.len
    have shown : (view rs₂ ((v - PAGE) / PAGE)).isSome := by
      rw [isSome_view_iff]
      refine ⟨r,inside,?_⟩
      simp only [Region.stop,PAGE] at *
      omega
    rw [seen₂,isSome_or,or_eq_true,isSome_view,isSome_view_iff] at shown
    rcases shown with ⟨first,_⟩ | ⟨q,inQ,first,second⟩
    · simp only [page,PAGE] at *
      omega
    · have apart := others q inQ
      simp only [Region.not_meets_iff] at apart
      simp only [Region.stop,PAGE] at *
      omega) False.elim (by omega)
  rw [published'] at published₃
  cases published₃
  refine sound.with_regions shows₃ fun n shown => ?_
  rw [seen₃,isSome_or,seen₂,isSome_or,or_eq_true,or_eq_true,isSome_view,isSome_view] at shown
  have fresh (inside : v - PAGE ≤ n * PAGE ∧ n * PAGE < old.base + PAGE) : ∀ h ∈ s.huge, ¬ h.covers n := by
    intro h inHuge covered
    refine leaves (n - (v - PAGE) / PAGE) ?_ h inHuge ?_
    · simp only [PAGE] at *
      omega
    · have same : plan.new_guard_base + (n - (v - PAGE) / PAGE) * PAGE = n * PAGE := by
        rw [lower]
        simp only [PAGE] at *
        omega
      rw [same]
      exact covered
  rcases shown with ⟨first,second⟩ | ⟨first,second⟩ | old_
  · right
    simp only [Region.stop,lower] at first second
    exact fresh ⟨first,by omega⟩
  · right
    simp only [Region.stop,page,reach] at first second
    exact fresh ⟨by omega,second⟩
  · left
    rw [page_map_eq shows_.toLists,view_insert shows_.orderly,isSome_or,old_,Bool.or_true]
end AddressSpace
end Narf.Memory
