import Narf.Memory.VmaRange

namespace Narf.Memory
open Lib RegionPerms List Option
open Bool hiding not_or
open RegionAcct (flat share locked_accountable wnx_accountable)
open Region (meets pages)

variable {r p d s : Region} {rs before after : List Region} {lo hi n : Nat} {c : Counter}

/-! ## Pages of neighbouring regions -/
lemma view_eq_none_of_outside (outside : n * PAGE < r.base ∨ r.stop ≤ n * PAGE) : r.view n = none := by
  rw [Region.view,if_neg]
  omega
lemma isSome_view : (r.view n).isSome ↔ r.base ≤ n * PAGE ∧ n * PAGE < r.stop := by
  unfold Region.view
  split
  · rename_i inside
    simp [inside]
  · rename_i outside
    exact ⟨fun shown => absurd shown (by simp),fun inside => absurd inside outside⟩
variable {v : RegionPerms × Nat}
lemma bounds_of_view (shown : r.view n = some v) : r.base ≤ n * PAGE ∧ n * PAGE < r.stop := by
  by_contra outside
  rw [Region.view,if_neg outside] at shown
  exact absurd shown (by simp)
lemma view_rest (orderly : Orderly (before ++ p :: after)) (shown : p.view n = some v) : view (before ++ after) n = none := by
  obtain ⟨_,rest,across⟩ := orderly_append.mp orderly
  obtain ⟨_,_,upper⟩ := orderly_cons.mp rest
  have inside := bounds_of_view shown
  refine List.findSome?_eq_none_iff.mpr fun q mem => view_eq_none_of_outside ?_
  rcases mem_append.mp mem with mem | mem
  · have apart := across q mem p (by simp)
    omega
  · have apart := upper q mem
    omega
lemma view_insert (orderly : Orderly (before ++ p :: after)) :
    view (before ++ p :: after) n = (p.view n).or (view (before ++ after) n) := by
  cases shown : p.view n with
  | none => rw [view_append,view_append,view_cons,shown,none_or,none_or]
  | some v =>
    have rest := view_rest orderly shown
    rw [view_append,or_eq_none_iff] at rest
    rw [view_append,view_cons,shown,rest.1,none_or,some_or,some_or]
lemma Orderly.fits (orderly : Orderly rs) (proper : p.Proper) (free : ∀ r ∈ rs, r.meets p.base p.stop = false) :
    ∃ before after, rs = before ++ after ∧ Orderly (before ++ p :: after) := by
  obtain ⟨before,inside,after,rfl,below,selected,_,above⟩ := orderly.cut p.base p.stop
  have none_ : inside = [] := by
    rw [← selected,filter_eq_nil_iff]
    intro r mem
    rw [free r mem]
    exact false_ne_true
  subst none_
  obtain ⟨first,last,_⟩ := orderly_append.mp orderly
  refine ⟨before,after,rfl,orderly_append.mpr ⟨first,orderly_cons.mpr ⟨proper,last,above⟩,?_⟩⟩
  intro a earlier b mem
  rcases mem_cons.mp mem with rfl | mem
  · exact below a earlier
  · exact ((below a earlier).trans (Nat.le_add_right _ _)).trans (above b mem)
lemma Orderly.next {rest : List Region} (orderly : Orderly (before ++ p :: rest)) (mem : s ∈ before ++ p :: rest)
    (adjacent : s.base = p.stop) : ∃ after, rest = s :: after := by
  obtain ⟨under,_⟩ := Orderly.fresh orderly
  obtain ⟨_,later,_⟩ := orderly_append.mp orderly
  obtain ⟨proper,last,upper⟩ := orderly_cons.mp later
  have pos := proper.pos
  have beyond : p.base < s.base := by
    rw [adjacent]
    exact Nat.lt_add_of_pos_right pos
  have inside : s ∈ rest := by
    rcases mem_append.mp mem with mem | mem
    · exact absurd (under s mem) (by omega)
    · rcases mem_cons.mp mem with rfl | mem
      · exact absurd beyond (lt_irrefl _)
      · exact mem
  cases rest with
  | nil => exact absurd inside not_mem_nil
  | cons x rest =>
    rcases mem_cons.mp inside with rfl | inside
    · exact ⟨rest,rfl⟩
    · obtain ⟨properX,_,overX⟩ := orderly_cons.mp last
      have first := upper x (by simp)
      have second := base_lt_of_stop_le properX (overX s inside)
      omega

namespace RegionTable
variable {exact : Prop} {t : RegionTable}

/-! ## Insertion -/
lemma insert_reserved_of_publish {t' : RegionTable} (published : t.publish p = some t') : t.insert_reserved p = some (t',none) := by
  unfold publish at published
  split at published
  · rename_i found
    rw [found,some.inj published]
  · exact absurd published (by simp)
section
variable (shows_ : Shows exact t rs) (proper : p.Proper) (free : ∀ r ∈ rs, r.meets p.base p.stop = false)
include shows_ proper free
lemma publish_fresh (backed : exact → p.Backed) (ready : 0 < t.spare) :
    ∃ t' rs', t.publish p = some t' ∧ Shows exact t' rs' ∧ t'.spare = t.spare - 1 ∧ ∀ n, view rs' n = (p.view n).or (view rs n) := by
  obtain ⟨before,after,rfl,orderly⟩ := shows_.orderly.fits proper free
  obtain ⟨t',published,shows',spare,_⟩ := publish_spec shows_ orderly backed ready
  exact ⟨t',_,published,shows',spare,fun n => view_insert orderly⟩
lemma get_free : t.get p.base = none := by
  cases found : t.get p.base with
  | none => rfl
  | some r =>
    obtain ⟨mem,same⟩ := mem_of_get shows_.toLists found
    have pos := proper.pos
    have posR := (shows_.orderly.proper r mem).pos
    have apart := free r mem
    simp only [Region.not_meets_iff] at apart
    simp only [Region.stop] at apart
    omega
lemma insert_spec (granted : Nat → Bool) (backed : exact → p.Backed) : t.insert p granted = some (t,.error .AllocationFailed) ∨
    ∃ t' rs', t.insert p granted = some (t',.ok ()) ∧ Shows exact t' rs' ∧ ∀ n, view rs' n = (p.view n).or (view rs n) := by
  have missing := get_free shows_ proper free
  by_cases ready : prepared granted 1
  · right
    obtain ⟨t',rs',published,shows',_,seen⟩ := publish_fresh (shows_.reserve 1) proper free backed
      (lt_of_lt_of_le Nat.zero_lt_one (le_max_right _ _))
    refine ⟨t',rs',?_,shows',seen⟩
    have stored := insert_reserved_of_publish published
    simp [insert,missing,ready,stored]
  · left
    simp [insert,missing,ready]
end

/-! ## Punching -/
def punched (lo hi : Nat) (r : Region) : List Region := if r.meets lo hi then kept_fragments lo hi r else [r]
variable {part : List Region}
lemma flatMap_punched_skip (none_ : ∀ r ∈ part, r.meets lo hi = false) : part.flatMap (punched lo hi) = part := by
  induction part with
  | nil => rfl
  | cons r part ih =>
    have rest := ih fun q mem => none_ q (by simp [mem])
    rw [flatMap_cons,rest,punched,none_ r (by simp)]
    rfl
lemma flatMap_punched_inside (all : ∀ r ∈ part, r.meets lo hi) : part.flatMap (punched lo hi) = part.flatMap (kept_fragments lo hi) := by
  refine flatMap_congr fun r mem => ?_
  rw [punched,if_pos (all r mem)]
lemma flatMap_punched {inside : List Region} (below : ∀ r ∈ before, r.stop ≤ lo)
    (within : ∀ r ∈ inside, r.meets lo hi) (above : ∀ r ∈ after, hi ≤ r.base) :
    (before ++ (inside ++ after)).flatMap (punched lo hi) = before ++ (inside.flatMap (kept_fragments lo hi) ++ after) := by
  rw [flatMap_append,flatMap_append,flatMap_punched_inside within,flatMap_punched_skip (fun r mem => not_meets (.inl (below r mem))),
    flatMap_punched_skip (fun r mem => not_meets (.inr (above r mem)))]
section
variable (aligned : lo % PAGE = 0 ∧ hi % PAGE = 0)

include aligned in
lemma orderly_punched (le : lo ≤ hi) (orderly : Orderly rs) : Orderly (rs.flatMap (punched lo hi)) := by
  refine orderly.flatMap fun r mem => ?_
  have proper := orderly.proper r mem
  unfold punched
  split
  · rename_i meets
    exact orderly_kept proper meets aligned le
  · refine ⟨⟨by simp [proper],by simp⟩,?_⟩
    intro q mem
    obtain rfl := mem_singleton.mp mem
    exact ⟨le_rfl,le_rfl⟩

include aligned in
lemma view_punched (orderly : Orderly rs) (n : Nat) : view (rs.flatMap (punched lo hi)) n =
    (view rs n).bind (fun v => if inRange lo hi n then none else some v) := by
  refine view_flatMap (fun r mem => ?_) orderly
  have proper := orderly.proper r mem
  unfold punched
  split
  · rename_i meets
    exact view_kept proper meets aligned
  · rename_i apart
    rw [view_cons,view_nil,or_none]
    cases shown : r.view n with
    | none => rfl
    | some v =>
      have inside := bounds_of_view shown
      have outside : inRange lo hi n = false := by
        simp only [Region.meets_iff] at apart
        simp only [inRange,and_eq_false_iff,decide_eq_false_iff_not]
        omega
      rw [outside]
      rfl

include aligned in
lemma remove_exact_spec (le : lo ≤ hi) (shows_ : Shows exact t rs) (exact_ : (t.get lo).any (·.len = hi - lo)) :
    ∃ t' r rs', t.remove lo = some (t',r) ∧ Shows exact t' rs' ∧
      ∀ n, view rs' n = (view rs n).bind (fun v => if inRange lo hi n then none else some v) := by
  obtain ⟨r,found,length⟩ : ∃ r, t.get lo = some r ∧ r.len = hi - lo := by simpa [Option.any_eq_true] using exact_
  obtain ⟨mem,base⟩ := mem_of_get shows_.toLists found
  obtain ⟨before,after,rfl⟩ := append_of_mem mem
  obtain ⟨_,rest,across⟩ := orderly_append.mp shows_.orderly
  obtain ⟨proper,_,upper⟩ := orderly_cons.mp rest
  obtain ⟨t',removed,shows',_,_⟩ := remove_spec shows_
  have pos := proper.pos
  have stop : r.stop = hi := by
    rw [Region.stop,base]
    omega
  have gone : kept_fragments lo hi r = [] := by
    rw [kept_fragments,if_neg (by omega),if_neg (by omega)]
    rfl
  have parts := @flatMap_punched before after lo hi [r]
    (fun a earlier => base ▸ across a earlier r (by simp))
    (fun q inner => by
      obtain rfl := mem_singleton.mp inner
      simp only [Region.meets_iff]
      simp only [Region.stop] at stop ⊢
      omega)
    (fun b later => stop ▸ upper b later)
  rw [flatMap_cons,flatMap_nil,gone,append_nil,nil_append] at parts
  refine ⟨t',r,before ++ after,base ▸ removed,shows',fun n => ?_⟩
  rw [← view_punched aligned shows_.orderly n,← parts]
  rfl

include aligned in
lemma punch_overlapping_spec (preserve_nodes : Nat) (granted : Nat → Bool) (le : lo ≤ hi) (shows_ : Shows exact t rs) :
    t.punch_overlapping lo hi preserve_nodes granted = some (t,.error .AllocationFailed) ∨
    ∃ t' rs', t.punch_overlapping lo hi preserve_nodes granted = some (t',.ok ()) ∧ Shows exact t' rs' ∧
      ∀ n, view rs' n = (view rs n).bind (fun v => if inRange lo hi n then none else some v) := by
  have seen := view_punched aligned shows_.orderly
  have whole := orderly_punched aligned le shows_.orderly
  unfold punch_overlapping
  dsimp only
  rw [visited_spec shows_.toLists le]
  obtain ⟨before,inside,after,parts,below,selected,within,above⟩ := shows_.orderly.cut lo hi
  have result := flatMap_punched below within above
  rw [selected]
  split
  · rename_i empty
    have none_ : inside = [] := isEmpty_iff.mp empty
    refine Or.inr ⟨t,rs,rfl,shows_,fun n => ?_⟩
    rw [none_,nil_append,flatMap_nil,nil_append] at result
    rw [none_,nil_append] at parts
    rw [← seen n,parts,result]
  · split
    · exact Or.inl rfl
    · right
      subst parts
      rw [result] at whole seen
      obtain ⟨t₁,removed,shows₁,spare₁,_⟩ := remove_all_spec
        (shows_.reserve ((inside.flatMap (kept_fragments lo hi)).length + preserve_nodes))
      have fits : exact → ∀ q ∈ inside.flatMap (kept_fragments lo hi), q.Backed := by
        intro holds q mem
        obtain ⟨r,inner,kept⟩ := mem_flatMap.mp mem
        exact backed_kept (shows_.backed holds r (by simp [inner])) q kept
      have room : (inside.flatMap (kept_fragments lo hi)).length ≤ t₁.spare := by
        rw [spare₁,try_reserve_nodes]
        exact (Nat.le_add_right _ preserve_nodes).trans ((le_max_right _ _).trans (Nat.le_add_right _ _))
      obtain ⟨t₂,published,shows₂,_,_⟩ := publish_all_spec shows₁ whole fits room
      refine ⟨t₂,_,?_,shows₂,seen⟩
      simp only [removed,published,bind_eq_bind,bind_some]

include aligned in
lemma punch_regions_spec (preserve_nodes : Nat) (granted : Nat → Bool) (le : lo ≤ hi) (shows_ : Shows exact t rs) :
    t.punch_regions lo hi preserve_nodes granted = some (t,.error .AllocationFailed) ∨
    ∃ t' rs', t.punch_regions lo hi preserve_nodes granted = some (t',.ok ()) ∧ Shows exact t' rs' ∧
      ∀ n, view rs' n = (view rs n).bind (fun v => if inRange lo hi n then none else some v) := by
  unfold punch_regions
  split
  · rename_i exact_
    obtain ⟨t',r,rs',removed,shows',seen⟩ := remove_exact_spec aligned le shows_ exact_
    refine Or.inr ⟨t',rs',?_,shows',seen⟩
    rw [removed]
    rfl
  · exact punch_overlapping_spec aligned preserve_nodes granted le shows_
end

/-! ## Heap growth -/
section Brk
variable {grow_lo add_pages limit_bytes : Nat} {bypass_limit : Bool} {granted : Nat → Bool}
def heap_tail (perms : RegionPerms) (grow_lo add_pages : Nat) : Region :=
  ⟨grow_lo,add_pages * PAGE,perms,.new⟩
variable (perms : RegionPerms)
lemma view_heap_tail (n : Nat) : (heap_tail perms grow_lo add_pages).view n =
    if inRange grow_lo (grow_lo + add_pages * PAGE) n then some (perms,0) else none := by
  simp only [Region.view,heap_tail,Region.stop,inRange,and_eq_true,decide_eq_true_eq]
  rfl
lemma proper_heap_tail (aligned : grow_lo % PAGE = 0) (pos : add_pages ≠ 0)
    (user : grow_lo + add_pages * PAGE ≤ USER_HALF_END) : (heap_tail perms grow_lo add_pages).Proper := by
  refine ⟨aligned,?_,?_,user⟩
  · exact Nat.mul_mod_left _ _
  · exact Nat.mul_pos (Nat.pos_of_ne_zero pos) (by decide)
lemma backed_heap_tail (grow_lo add_pages : Nat) : (heap_tail perms grow_lo add_pages).Backed := Nat.zero_le _
/-- A heap region that absorbs the new pages. -/
def grown (r : Region) (add_len : Nat) : Region := { r with len := r.len + add_len }
lemma proper_grown (proper : r.Proper) (user : r.stop + add_pages * PAGE ≤ USER_HALF_END) : (grown r (add_pages * PAGE)).Proper := by
  have len := proper.len
  have pos := proper.pos
  refine ⟨proper.base,?_,?_,?_⟩ <;> simp only [grown,Region.stop,PAGE] at * <;> omega
lemma backed_grown (backed : r.Backed) (add_len : Nat) : (grown r add_len).Backed :=
  le_trans backed (Nat.div_le_div_right (Nat.le_add_right _ _))
lemma view_grown (backed : r.Backed) (n : Nat) : (grown r (add_pages * PAGE)).view n =
    if inRange r.stop (r.stop + add_pages * PAGE) n then some (r.perms,0) else r.view n := by
  have stop : (grown r (add_pages * PAGE)).stop = r.stop + add_pages * PAGE := (add_assoc _ _ _).symm
  have start : (grown r (add_pages * PAGE)).base = r.base := rfl
  rw [Region.view,stop,start]
  by_cases fresh : inRange r.stop (r.stop + add_pages * PAGE) n
  · rw [if_pos fresh]
    simp only [inRange_iff] at fresh
    have unbacked : r.phys.backing_at (n - r.base / PAGE) = 0 := by
      refine RegionBacking.backing_at_beyond ?_
      simp only [Region.Backed,Region.stop,pages,PAGE] at *
      omega
    have low : r.base ≤ r.stop := Nat.le_add_right _ _
    rw [if_pos ⟨low.trans fresh.1,fresh.2⟩]
    exact congrArg (fun frame => some (r.perms,frame)) unbacked
  · rw [if_neg fresh]
    simp only [inRange_iff] at fresh
    by_cases old : r.base ≤ n * PAGE ∧ n * PAGE < r.stop
    · rw [Region.view,if_pos old,if_pos (by omega)]
      rfl
    · rw [Region.view,if_neg old,if_neg (by omega)]
lemma isSome_view_grown (n : Nat) : ((grown r (add_pages * PAGE)).view n).isSome =
    (inRange r.stop (r.stop + add_pages * PAGE) n || (r.view n).isSome) := by
  have stop : (grown r (add_pages * PAGE)).stop = r.stop + add_pages * PAGE := (add_assoc _ _ _).symm
  have low : r.base ≤ r.stop := Nat.le_add_right _ _
  rw [Bool.eq_iff_iff]
  simp only [isSome_view,stop,inRange,or_eq_true,and_eq_true,decide_eq_true_eq]
  change r.base ≤ n * PAGE ∧ _ ↔ _
  omega
lemma flat_add (a b : Nat) (c : Counter) : flat perms (a + b) c = flat perms a c + flat perms b c := by
  cases c with
  | mapped_bytes | resident_pages => rfl
  | _ =>
    simp only [flat]
    split <;> rfl
lemma share_grown (add_len : Nat) (c : Counter) : share (grown r add_len) c = share r c + flat r.perms add_len c := by
  have flat : flat (grown r add_len).perms (grown r add_len).len c =
      flat r.perms r.len c + flat r.perms add_len c := flat_add _ _ _ _
  unfold share
  rw [flat,Nat.add_right_comm]
  rfl
lemma free_of_checks (shows_ : t.Lists rs) {grow_hi : Nat} (clear : ¬ (t.successor grow_lo).any (·.base < grow_hi))
    (short : ∀ r ∈ rs, r.base < grow_lo → r.stop ≤ grow_lo) : ∀ r ∈ rs, r.stop ≤ grow_lo ∨ grow_hi ≤ r.base := by
  intro r mem
  by_cases low : r.base < grow_lo
  · exact Or.inl (short r mem low)
  · right
    cases found : t.successor grow_lo with
    | none => exact absurd (successor_none shows_ found r mem) low
    | some s =>
      obtain ⟨_,_,least⟩ := successor_cut shows_ found
      have first := least r mem (by omega)
      simp only [found,any_some,decide_eq_true_eq] at clear
      omega
/-- The range has become mapped, with the permissions and without backing where pages are followed exactly. -/
structure Extended (exact : Prop) (perms : RegionPerms) (lo hi : Nat) (rs rs' : List Region) : Prop where
  mapped : ∀ n, (view rs' n).isSome = (inRange lo hi n || (view rs n).isSome)
  seen : exact → ∀ n, view rs' n = if inRange lo hi n then some (perms,0) else view rs n
lemma insert_tail_spec (shows_ : Shows exact t rs) (perms : RegionPerms) (aligned : grow_lo % PAGE = 0)
    (pos : add_pages ≠ 0) (user : grow_lo + add_pages * PAGE ≤ USER_HALF_END)
    (free : ∀ r ∈ rs, r.stop ≤ grow_lo ∨ grow_lo + add_pages * PAGE ≤ r.base) :
    (∃ e, t.insert (heap_tail perms grow_lo add_pages) granted = some (t,.error e)) ∨
    ∃ t' rs', t.insert (heap_tail perms grow_lo add_pages) granted = some (t',.ok ()) ∧ Shows exact t' rs' ∧
      Extended exact perms grow_lo (grow_lo + add_pages * PAGE) rs rs' := by
  have apart : ∀ r ∈ rs, r.meets grow_lo (grow_lo + add_pages * PAGE) = false := fun r mem => not_meets (free r mem)
  rcases insert_spec shows_ (proper_heap_tail perms aligned pos user) apart granted
    (fun _ => backed_heap_tail perms grow_lo add_pages) with failed | ⟨t',rs',run,shows',seen⟩
  · exact Or.inl ⟨_,failed⟩
  · refine Or.inr ⟨t',rs',run,shows',fun n => ?_,fun _ n => ?_⟩
    · rw [seen,view_heap_tail,isSome_or]
      split
      · rename_i inside
        rw [inside]
        rfl
      · rename_i outside
        rw [not_eq_true] at outside
        rw [outside]
        rfl
    · rw [seen,view_heap_tail]
      split <;> rfl
lemma grow_in_place (shows_ : Shows exact t (before ++ p :: after))
    (user : p.stop + add_pages * PAGE ≤ USER_HALF_END) (free : ∀ b ∈ after, p.stop + add_pages * PAGE ≤ b.base) :
    ∃ t' rs', (t.update p.base (fun r => { r with len := r.len + add_pages * PAGE })).map
        (fun t => { t with acct := t.acct.add_flat p.perms (add_pages * PAGE) }) = some t' ∧ Shows exact t' rs' ∧
      Extended exact p.perms p.stop (p.stop + add_pages * PAGE) (before ++ p :: after) rs' := by
  obtain ⟨first,rest,across⟩ := orderly_append.mp shows_.orderly
  obtain ⟨proper,last,_⟩ := orderly_cons.mp rest
  have orderly : Orderly (before ++ grown p (add_pages * PAGE) :: after) := by
    refine orderly_append.mpr ⟨first,orderly_cons.mpr ⟨proper_grown proper user,last,?_⟩,?_⟩
    · intro b mem
      have far := free b mem
      simp only [grown,Region.stop] at far ⊢
      omega
    · intro a earlier b mem
      rcases mem_cons.mp mem with rfl | mem
      · exact across a earlier p (by simp)
      · exact across a earlier b (by simp [mem])
  obtain ⟨t₁,updated,lists₁,acct₁,_⟩ := update_spec (grown · (add_pages * PAGE))
    shows_.toLists rfl orderly
  have fits : exact → ∀ r ∈ before ++ grown p (add_pages * PAGE) :: after, r.Backed := by
    intro holds r mem
    rcases mem_append.mp mem with mem | mem
    · exact shows_.backed holds r (by simp [mem])
    · rcases mem_cons.mp mem with rfl | mem
      · exact backed_grown (shows_.backed holds p (by simp)) _
      · exact shows_.backed holds r (by simp [mem])
  have step : t.update p.base (fun r => { r with len := r.len + add_pages * PAGE }) = some t₁ := updated
  refine ⟨{ t₁ with acct := t₁.acct.add_flat p.perms (add_pages * PAGE) },_,by rw [step]; rfl,
    ⟨⟨lists₁.entries,lists₁.orderly⟩,fits,fun holds c => ?_⟩,fun n => ?_,fun holds n => ?_⟩
  · have bound := orderly.total_le (c := c) (fits holds)
    have old := shows_.counted holds c
    have more := share_grown (r := p) (add_pages * PAGE) c
    simp only [total_append,total_cons,more] at bound old ⊢
    change saturating_add (t₁.acct c) (flat p.perms (add_pages * PAGE) c) = _
    rw [acct₁,old,saturating_add_eq (by omega)]
    omega
  · rw [view_insert orderly,view_insert shows_.orderly,isSome_or,isSome_or,isSome_view_grown,Bool.or_assoc]
  · rw [view_insert orderly,view_insert shows_.orderly,view_grown (shows_.backed holds p (by simp))]
    split <;> rfl
lemma brk_extend_spec (grow_lo add_pages limit_bytes : Nat) (bypass_limit : Bool) (granted : Nat → Bool)
    (shows_ : Shows exact t rs) : (∃ e, t.brk_extend grow_lo add_pages limit_bytes bypass_limit granted = some (t,.error e)) ∨
    ∃ t' rs', t.brk_extend grow_lo add_pages limit_bytes bypass_limit granted = some (t',.ok ()) ∧ Shows exact t' rs' ∧ Extended exact
        (READ ||| WRITE ||| BRK_HEAP ||| t.future_lock.region_bits) grow_lo (grow_lo + add_pages * PAGE) rs rs' := by
  unfold brk_extend
  dsimp only
  split
  · exact Or.inl ⟨_,rfl⟩
  rename_i wellFormed
  split
  · exact Or.inl ⟨_,rfl⟩
  rename_i user
  split
  · exact Or.inl ⟨_,rfl⟩
  split
  · exact Or.inl ⟨_,rfl⟩
  rename_i clear
  split
  · exact Or.inl ⟨_,rfl⟩
  have aligned : grow_lo % PAGE = 0 := by
    by_contra misaligned
    exact wellFormed (Or.inl misaligned)
  have pos : add_pages ≠ 0 := fun zero => wellFormed (Or.inr zero)
  split
  · rename_i p found
    obtain ⟨before,after,rfl,low,above⟩ := predecessor_cut shows_.toLists found
    simp only [decide_eq_true_eq,decide_eq_false_iff_not,not_lt] at low above
    split
    · exact Or.inl ⟨_,rfl⟩
    · rename_i ends
      have free := free_of_checks shows_.toLists clear (no_reach_of_cut shows_.orderly (by omega) above)
      split
      · rename_i adjacent
        obtain ⟨rfl,same⟩ := adjacent
        have far : ∀ b ∈ after, p.stop + add_pages * PAGE ≤ b.base := by
          intro b mem
          have pos := (shows_.orderly.proper b (by simp [mem])).pos
          rcases free b (by simp [mem]) with short | far
          · have upper := above b mem
            simp only [Region.stop] at short upper
            omega
          · exact far
        obtain ⟨t',rs',run,shows',seen⟩ := grow_in_place shows_ (by omega) far
        obtain ⟨t₁,updated,rfl⟩ := map_eq_some_iff.mp run
        refine Or.inr ⟨_,rs',?_,shows',?_⟩
        · rw [updated,same]
          rfl
        · rw [same] at seen
          exact seen
      · exact insert_tail_spec shows_ _ aligned pos (by omega) free
  · rename_i found
    have short : ∀ r ∈ rs, r.base < grow_lo → r.stop ≤ grow_lo := by
      intro r mem low
      have absent := predecessor_none shows_.toLists found r mem
      simp only [decide_eq_false_iff_not] at absent
      omega
    exact insert_tail_spec shows_ _ aligned pos (by omega) (free_of_checks shows_.toLists clear short)
end Brk

/-! ## Coalescing -/
section Coalesce

/-- A page up to the copy-on-write mark. -/
def uncow (v : RegionPerms × Nat) : RegionPerms × Nat := (v.1 &&& ~~~COW,v.2)
/-- Adjacent regions with full backings and permissions that agree up to the copy-on-write mark. -/
structure Joins (d s : Region) : Prop where
  adjacent : s.base = d.stop
  full : d.phys.len = d.pages
  full' : s.phys.len = s.pages
  perms : d.perms &&& ~~~COW = s.perms &&& ~~~COW
lemma absorb_phys (proper : s.Proper) (joins : Joins d s) :
    (absorb d s).phys = (d.phys.lengthened d.pages).append s.phys ∧ (d.phys.lengthened d.pages).len = d.pages := by
  have some_ : s.phys.len ≠ 0 := by
    have pos := proper.pos
    have len := proper.len
    rw [joins.full']
    simp only [pages,PAGE] at *
    omega
  refine ⟨if_neg some_,?_⟩
  simp [RegionBacking.lengthened,joins.full]
lemma absorb_perms (d s : Region) : (absorb d s).perms &&& ~~~COW = d.perms &&& ~~~COW := by
  ext i h
  simp only [absorb,BitVec.getElem_and,BitVec.getElem_or,BitVec.getElem_not]
  cases d.perms[i] <;> cases s.perms[i] <;> cases COW[i] <;> rfl
lemma absorb_pages (proper : d.Proper) : (absorb d s).pages = d.pages + s.pages := by
  have len := proper.len
  simp only [absorb,pages,PAGE] at *
  omega
lemma absorb_full (proper : d.Proper) (proper' : s.Proper) (joins : Joins d s) : (absorb d s).phys.len = (absorb d s).pages := by
  obtain ⟨phys,len⟩ := absorb_phys proper' joins
  rw [phys,RegionBacking.len_append,len,joins.full',absorb_pages proper]
lemma absorb_proper (proper : d.Proper) (proper' : s.Proper) (adjacent : s.base = d.stop) : (absorb d s).Proper := by
  have user := proper'.user
  have len := proper.len
  have len' := proper'.len
  have pos := proper.pos
  refine ⟨proper.base,?_,?_,?_⟩ <;> simp only [absorb,Region.stop,PAGE] at * <;> omega
/-- The accounting of permissions does not read the copy-on-write mark. -/
lemma flat_congr {a b : RegionPerms} (same : a &&& ~~~COW = b &&& ~~~COW) (len : Nat) (c : Counter) : flat a len c = flat b len c := by
  have guard_ := contains_congr STACK_GUARD same (by decide)
  have locked := contains_congr LOCKED same (by decide)
  have exempt := contains_congr LOCK_EXEMPT same (by decide)
  have write := contains_congr WRITE same (by decide)
  have exec := contains_congr EXEC same (by decide)
  have lockable : locked_accountable a = locked_accountable b := by
    rw [locked_accountable,locked_accountable,locked,exempt,guard_]
  have writable : wnx_accountable a = wnx_accountable b := by rw [wnx_accountable,wnx_accountable,write,exec]
  cases c <;> simp only [flat,guard_,lockable,writable]
lemma share_absorb (proper' : s.Proper) (joins : Joins d s) (c : Counter) : share (absorb d s) c = share d c + share s c := by
  obtain ⟨phys,_⟩ := absorb_phys proper' joins
  have flat : flat (absorb d s).perms (absorb d s).len c =
      flat d.perms d.len c + flat s.perms s.len c := by
    rw [flat_congr (absorb_perms d s),show (absorb d s).len = d.len + s.len from rfl,flat_add,flat_congr joins.perms s.len]
  have resident : (absorb d s).phys.resident_count = d.phys.resident_count + s.phys.resident_count := by
    rw [phys,RegionBacking.resident_count_append]
    rfl
  unfold share
  rw [flat]
  cases c with
  | resident_pages =>
    simp only [resident]
    omega
  | _ => rfl
lemma view_absorb (proper : d.Proper) (proper' : s.Proper) (joins : Joins d s) (n : Nat) :
    ((absorb d s).view n).map uncow = ((d.view n).or (s.view n)).map uncow := by
  obtain ⟨phys,len⟩ := absorb_phys proper' joins
  have adjacent := joins.adjacent
  have whole := proper.len_eq
  have base := proper.base
  have backing (i : Nat) : (absorb d s).backing_at i =
      if i < d.pages then d.backing_at i else s.backing_at (i - d.pages) := by
    rw [Region.backing_at,phys,RegionBacking.backing_at_append,len,RegionBacking.backing_at_lengthened]
    rfl
  have perms := absorb_perms d s
  have start : (absorb d s).base = d.base := rfl
  have stop : (absorb d s).stop = s.stop := by
    rw [Region.stop,Region.stop,adjacent,Region.stop]
    exact (add_assoc _ _ _).symm
  simp only [Region.view,start,stop]
  by_cases first : d.base ≤ n * PAGE ∧ n * PAGE < d.stop
  · have early : n - d.base / PAGE < d.pages := by
      simp only [Region.stop,PAGE] at *
      omega
    have within : d.base ≤ n * PAGE ∧ n * PAGE < s.stop := by
      simp only [Region.stop] at *
      omega
    rw [if_pos first,if_pos within,some_or,map_some,map_some,uncow,uncow,perms,backing,if_pos early]
  · rw [if_neg first,none_or]
    by_cases second : s.base ≤ n * PAGE ∧ n * PAGE < s.stop
    · have late : ¬ n - d.base / PAGE < d.pages := by
        simp only [Region.stop,PAGE] at *
        omega
      have within : d.base ≤ n * PAGE ∧ n * PAGE < s.stop := by
        simp only [Region.stop] at *
        omega
      have shift : n - d.base / PAGE - d.pages = n - s.base / PAGE := by
        simp only [Region.stop,PAGE] at *
        omega
      rw [if_pos second,if_pos within,map_some,map_some,uncow,uncow,perms,backing,if_neg late,shift,joins.perms]
    · have without : ¬ (d.base ≤ n * PAGE ∧ n * PAGE < s.stop) := by
        simp only [Region.stop] at *
        omega
      rw [if_neg second,if_neg without]
lemma detach_spec (lists : t.Lists (before ++ s :: after))
    (counted : exact → share s ≤ t.acct) (small : exact → ∀ c, t.acct c ≤ USER_HALF_END) :
    ∃ t', t.detach s.base = some (t',s) ∧ t'.Lists (before ++ after) ∧ (exact → t'.acct = t.acct) := by
  have found := get_of_mem lists (r := s) (by simp)
  refine ⟨_,by rw [detach,remove,found]; rfl,⟨?_,?_⟩,?_⟩
  · have sorted := t.by_base.sorted
    rw [lists.entries,map_append,map_cons] at sorted
    simp only [SortedMap.erase,lists.entries,map_append,map_cons]
    exact eraseEntry_self sorted
  · exact lists.orderly.sublist (Sublist.append_left (sublist_cons_self s after) before)
  · intro holds
    funext c
    have le := counted holds c
    have bound := small holds c
    simp only [RegionAcct.add_region,RegionAcct.sub_region]
    rw [Nat.sub_add_cancel le |> fun whole => saturating_add_eq (by omega),Nat.sub_add_cancel le]
section
variable (joins : Joins d s) (orderly : Orderly (before ++ d :: s :: after))
include joins orderly
lemma orderly_absorb : Orderly (before ++ absorb d s :: after) := by
  obtain ⟨_,rest,_⟩ := orderly_append.mp orderly
  obtain ⟨proper,rest',_⟩ := orderly_cons.mp rest
  obtain ⟨proper',_,upper⟩ := orderly_cons.mp rest'
  have stop : (absorb d s).stop = s.stop := by
    have adjacent := joins.adjacent
    simp only [absorb,Region.stop] at adjacent ⊢
    omega
  obtain ⟨first,_,across⟩ := orderly_append.mp orderly
  refine orderly_append.mpr ⟨first,orderly_cons.mpr ⟨absorb_proper proper proper' joins.adjacent,?_,?_⟩,?_⟩
  · exact (orderly_cons.mp rest').2.1
  · intro b mem
    rw [stop]
    exact upper b mem
  · intro a earlier b mem
    rcases mem_cons.mp mem with rfl | mem
    · exact across a earlier d (by simp)
    · exact across a earlier b (by simp [mem])
lemma backed_joined (backed : ∀ r ∈ before ++ d :: s :: after, r.Backed) : ∀ r ∈ before ++ absorb d s :: after, r.Backed := by
  intro r mem
  rcases mem_append.mp mem with mem | mem
  · exact backed r (by simp [mem])
  · rcases mem_cons.mp mem with rfl | mem
    · exact le_of_eq (absorb_full (orderly.proper d (by simp)) (orderly.proper s (by simp)) joins)
    · exact backed r (by simp [mem])
lemma view_joined (n : Nat) : (view (before ++ absorb d s :: after) n).map uncow = (view (before ++ d :: s :: after) n).map uncow := by
  obtain ⟨_,rest,_⟩ := orderly_append.mp orderly
  obtain ⟨proper,rest',_⟩ := orderly_cons.mp rest
  obtain ⟨proper',_,_⟩ := orderly_cons.mp rest'
  have step := view_absorb proper proper' joins n
  have parts (o o' : Option (RegionPerms × Nat)) : (o.or o').map uncow = (o.map uncow).or (o'.map uncow) := by
    cases o <;> rfl
  simp [view_append,view_cons,parts,step,Option.or_assoc]
end
lemma total_joined (proper' : s.Proper) (joins : Joins d s) (c : Counter) :
    total (before ++ absorb d s :: after) c = total (before ++ d :: s :: after) c := by
  simp only [total_append,total_cons,share_absorb proper' joins]
  omega
lemma joins_of_compatible (adjacent : s.base = d.stop)
    (compatible : anonymous_merge_compatible d.perms s.perms) (full : sparse d = false) (full' : sparse s = false) : Joins d s := by
  simp only [anonymous_merge_compatible,and_eq_true,beq_iff_eq] at compatible
  simp only [sparse,bne_eq_false_iff_eq] at full full'
  exact ⟨adjacent,full,full',compatible.2⟩
lemma Shows.share_le_acct (shows_ : Shows exact t rs) (holds : exact) (mem : s ∈ rs) : share s ≤ t.acct := by
  intro c
  obtain ⟨before,after,rfl⟩ := append_of_mem mem
  change share s c ≤ t.acct c
  rw [shows_.counted holds,total_append,total_cons]
  omega
lemma Shows.acct_le (shows_ : Shows exact t rs) (holds : exact) (c : Counter) : t.acct c ≤ USER_HALF_END := by
  rw [shows_.counted holds]
  exact shows_.orderly.total_le (shows_.backed holds)
lemma joins_absorb {e : Region} (proper : d.Proper) (proper' : s.Proper) (joins : Joins d s) (joins' : Joins s e) :
    Joins (absorb d s) e where
  adjacent := by
    have adjacent := joins.adjacent
    have adjacent' := joins'.adjacent
    simp only [absorb,Region.stop] at adjacent adjacent' ⊢
    omega
  full := absorb_full proper proper' joins
  full' := joins'.full'
  perms := by rw [absorb_perms,joins.perms,joins'.perms]
lemma foldl_absorb_base (d : Region) (sources : List Region) : (sources.foldl absorb d).base = d.base := by
  induction sources generalizing d with
  | nil => rfl
  | cons s rest ih => exact ih (absorb d s)
lemma merge_plan_spec {base : Nat} {sources : List Region} (lists : t.Lists rs) (plan : t.merge_plan base = some (d,sources)) :
    ∃ before after, rs = before ++ d :: (sources ++ after) ∧ IsChain Joins (d :: sources) := by
  obtain ⟨current,found,plan⟩ := bind_eq_some_iff.mp plan
  obtain ⟨mem,rfl⟩ := mem_of_get lists found
  obtain ⟨full,plan⟩ := Option.ite_none_left_eq_some.mp plan
  simp only [or_eq_true,not_or,not_eq_true] at full
  obtain ⟨_,⟨fullCurrent,fullBefore⟩,fullAfter⟩ := full
  -- what the two searches found
  have left : ∀ p, (t.predecessor current.base).filter (fun p =>
      p.stop = current.base && anonymous_merge_compatible p.perms current.perms) = some p → p ∈ rs ∧ Joins p current := by
    intro p filtered
    obtain ⟨found,holds⟩ := filter_eq_some_iff.mp filtered
    obtain ⟨before,after,rfl,_,_⟩ := predecessor_cut lists found
    simp only [and_eq_true,decide_eq_true_eq] at holds
    rw [filtered] at fullBefore
    exact ⟨by simp,joins_of_compatible holds.1.symm holds.2 fullBefore fullCurrent⟩
  have right : ∀ s, (t.get current.stop).filter (anonymous_merge_compatible current.perms ·.perms) = some s → s ∈ rs ∧ Joins current s := by
    intro s filtered
    obtain ⟨found,holds⟩ := filter_eq_some_iff.mp filtered
    obtain ⟨mem,base⟩ := mem_of_get lists found
    rw [filtered] at fullAfter
    exact ⟨mem,joins_of_compatible base holds fullCurrent fullAfter⟩
  split at plan
  · cases plan
  · rename_i p hasBefore _
    cases plan
    obtain ⟨memberP,joins⟩ := left _ hasBefore
    obtain ⟨before,rest,rfl⟩ := append_of_mem memberP
    obtain ⟨after,rfl⟩ := lists.orderly.next mem joins.adjacent
    exact ⟨before,after,rfl,by simpa using joins⟩
  · rename_i s _ hasAfter
    cases plan
    obtain ⟨memberS,joins⟩ := right s hasAfter
    obtain ⟨before,rest,rfl⟩ := append_of_mem mem
    obtain ⟨after,rfl⟩ := lists.orderly.next memberS joins.adjacent
    exact ⟨before,after,rfl,by simpa using joins⟩
  · rename_i p s hasBefore hasAfter
    cases plan
    obtain ⟨memberP,joins⟩ := left _ hasBefore
    obtain ⟨memberS,joins'⟩ := right s hasAfter
    obtain ⟨before,rest,rfl⟩ := append_of_mem memberP
    obtain ⟨rest,rfl⟩ := lists.orderly.next mem joins.adjacent
    have orderly := lists.orderly
    rw [append_cons] at memberS orderly
    obtain ⟨after,rfl⟩ := orderly.next memberS joins'.adjacent
    exact ⟨before,after,rfl,by simpa using ⟨joins,joins'⟩⟩
lemma detach_all_spec {sources : List Region} (lists : t.Lists (before ++ (sources ++ after)))
    (counted : exact → ∀ s ∈ sources, share s ≤ t.acct) (small : exact → ∀ c, t.acct c ≤ USER_HALF_END) :
    ∃ t', t.detach_all sources = some (t',sources) ∧ t'.Lists (before ++ after) ∧ (exact → t'.acct = t.acct) := by
  induction sources generalizing t with
  | nil => exact ⟨t,rfl,lists,fun _ => rfl⟩
  | cons s rest ih =>
    obtain ⟨t₁,detached,lists₁,acct₁⟩ := detach_spec lists (fun holds => counted holds s mem_cons_self) small
    obtain ⟨t₂,others,lists₂,acct₂⟩ := ih lists₁ (fun holds r mem => acct₁ holds ▸ counted holds r (mem_cons_of_mem _ mem))
      (fun holds => acct₁ holds ▸ small holds)
    exact ⟨t₂,by simp [detach_all,detached,others],lists₂,fun holds => (acct₂ holds).trans (acct₁ holds)⟩
/-- The destination takes the sources in one after the other, and each is adjacent to what it has become. -/
lemma joined_all {sources : List Region} (orderly : Orderly (before ++ d :: (sources ++ after))) (chain : IsChain Joins (d :: sources)) :
    Orderly (before ++ sources.foldl absorb d :: after) ∧
    ((∀ r ∈ before ++ d :: (sources ++ after), r.Backed) → ∀ r ∈ before ++ sources.foldl absorb d :: after, r.Backed) ∧
    (∀ c, total (before ++ sources.foldl absorb d :: after) c = total (before ++ d :: (sources ++ after)) c) ∧
    ∀ n, (view (before ++ sources.foldl absorb d :: after) n).map uncow = (view (before ++ d :: (sources ++ after)) n).map uncow := by
  induction sources generalizing d with
  | nil => exact ⟨orderly,id,fun _ => rfl,fun _ => rfl⟩
  | cons s rest ih =>
    obtain ⟨joins,others⟩ := isChain_cons_cons.mp chain
    have proper := orderly.proper d (by simp)
    have proper' := orderly.proper s (by simp)
    have chain' : IsChain Joins (absorb d s :: rest) := by
      cases rest with
      | nil => exact isChain_singleton _
      | cons e rest =>
        obtain ⟨next,last⟩ := isChain_cons_cons.mp others
        exact isChain_cons_cons.mpr ⟨joins_absorb proper proper' joins next,last⟩
    obtain ⟨orderly',backed,counted,seen⟩ := ih (orderly_absorb joins orderly) chain'
    refine ⟨orderly',fun all => backed (backed_joined joins orderly all),fun c => ?_,fun n => ?_⟩
    · rw [foldl_cons,counted]
      exact total_joined proper' joins c
    · rw [foldl_cons,seen]
      exact view_joined joins orderly n
lemma merge_spec {sources : List Region} (shows_ : Shows exact t (before ++ d :: (sources ++ after)))
    (chain : IsChain Joins (d :: sources)) : ∃ t₁ t₂, t.detach_all sources = some (t₁,sources) ∧
      t₁.update d.base (sources.foldl absorb) = some t₂ ∧ Shows exact t₂ (before ++ sources.foldl absorb d :: after) := by
  obtain ⟨orderly,backed,counted,_⟩ := joined_all shows_.orderly chain
  have lists := shows_.toLists
  rw [append_cons] at lists
  obtain ⟨t₁,detached,lists₁,acct₁⟩ := detach_all_spec lists
    (fun holds s mem => shows_.share_le_acct holds (by simp [mem])) shows_.acct_le
  rw [← append_cons] at lists₁
  obtain ⟨t₂,updated,lists₂,acct₂,_⟩ := update_spec (sources.foldl absorb) lists₁ (foldl_absorb_base d sources) orderly
  refine ⟨t₁,t₂,detached,updated,lists₂,fun holds => backed (shows_.backed holds),fun holds c => ?_⟩
  rw [acct₂,acct₁ holds,shows_.counted holds,counted]
lemma coalesce_spec (base : Nat) (granted : Nat → Bool) (shows_ : Shows exact t rs) :
    ∃ t' rs', t.coalesce_anonymous_around base granted = some t' ∧ Shows exact t' rs' ∧
      ∀ n, (view rs' n).map uncow = (view rs n).map uncow := by
  unfold coalesce_anonymous_around
  cases plan : t.merge_plan base with
  | none => exact ⟨t,rs,rfl,shows_,fun _ => rfl⟩
  | some p =>
    dsimp only
    split
    · exact ⟨t,rs,rfl,shows_,fun _ => rfl⟩
    · obtain ⟨before,after,rfl,chain⟩ := merge_plan_spec shows_.toLists plan
      obtain ⟨t₁,t₂,detached,updated,shows'⟩ := merge_spec shows_ chain
      exact ⟨t₂,_,by simp [detached,updated],shows',(joined_all shows_.orderly chain).2.2.2⟩
end Coalesce
end RegionTable
end Narf.Memory
