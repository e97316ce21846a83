import Narf.Memory.VmaPages

namespace Narf.Memory
open Lib RegionPerms Option
open Bool hiding and_assoc not_not
open RegionAcct (share flat locked_accountable wnx_accountable)

/-! Operations that change the permissions of a page range: the regions that straddle an end of
    the range are split, then the regions inside it are changed in place. -/

namespace RegionTable
variable {exact : Prop} {t : RegionTable} {r : Region} {rs done l : List Region} {lo hi n : Nat}
  {change : RegionPerms → Option RegionPerms}

/-- A nonempty range of whole pages. -/
structure PageRange (lo hi : Nat) : Prop where
  lo_aligned : lo % PAGE = 0
  hi_aligned : hi % PAGE = 0
  pos : lo < hi

/-! ## Boundary splits -/
/-- The split of a region that meets the range and straddles one of its ends. -/
def boundary (lo hi : Nat) (change : RegionPerms → Option RegionPerms) (region : Region) : Option PreparedRegionSplit :=
  if region.meets lo hi then
    (change region.perms).bind (fun perms =>
      if region.base = max lo region.base ∧ min hi region.stop = region.stop then none
      else some (prepare_region_split region (max lo region.base) (min hi region.stop) perms))
  else none
/-- What the boundary splits leave of a region. -/
def cut (lo hi : Nat) (change : RegionPerms → Option RegionPerms) (region : Region) : List Region :=
  ((boundary lo hi change region).map PreparedRegionSplit.pieces).getD [region]
lemma boundary_splits_eq (lists : t.Lists rs) : t.boundary_splits lo hi change = rs.filterMap (boundary lo hi change) := by
  rw [boundary_splits,overlapping_spec lists,List.filterMap_filter]
  rfl
lemma cutting_of_meets (range : PageRange lo hi) (proper : r.Proper) (meets : r.meets lo hi) :
    Cutting r (max lo r.base) (min hi r.stop) := by
  obtain ⟨loAligned,hiAligned,pos⟩ := range
  have base := proper.base
  have len := proper.len
  have size := proper.pos
  simp only [Region.meets_iff] at meets
  constructor <;> simp only [Region.stop,PAGE] at * <;> omega
lemma boundary_eq_some {split : PreparedRegionSplit} (found : boundary lo hi change r = some split) :
    r.meets lo hi ∧ ∃ perms, change r.perms = some perms ∧ split = prepare_region_split r (max lo r.base) (min hi r.stop) perms := by
  unfold boundary at found
  split at found
  · rename_i meets
    obtain ⟨perms,changed,rest⟩ := bind_eq_some_iff.mp found
    split at rest
    · exact absurd rest (by simp)
    · exact ⟨meets,perms,changed,(some.inj rest).symm⟩
  · exact absurd found (by simp)
lemma orderly_cut (change : RegionPerms → Option RegionPerms) (range : r.meets lo hi → PageRange lo hi) (proper : r.Proper) :
    Orderly (cut lo hi change r) ∧ ∀ p ∈ cut lo hi change r, r.base ≤ p.base ∧ p.stop ≤ r.stop := by
  unfold cut
  cases found : boundary lo hi change r with
  | none =>
    refine ⟨⟨by simp [proper],by simp⟩,?_⟩
    intro p mem
    obtain rfl := List.mem_singleton.mp mem
    exact ⟨le_rfl,le_rfl⟩
  | some split =>
    obtain ⟨meets,perms,_,rfl⟩ := boundary_eq_some found
    exact orderly_split (cutting_of_meets (range meets) proper meets) proper perms
lemma publish_splits_spec (done : List Region) (change : RegionPerms → Option RegionPerms)
    (range : ∀ r ∈ l, r.meets lo hi → PageRange lo hi) (shows_ : Shows exact t (done ++ l))
    (ready : additional_nodes (l.filterMap (boundary lo hi change)) ≤ t.spare) :
    ∃ t', t.publish_splits (l.filterMap (boundary lo hi change)) = some t' ∧ Shows exact t' (done ++ l.flatMap (cut lo hi change)) := by
  induction l generalizing t done with
  | nil => exact ⟨t,rfl,shows_⟩
  | cons r l ih =>
    have proper : r.Proper := shows_.orderly.proper r (by simp)
    have later := fun q mem => range q (List.mem_cons_of_mem r mem)
    rw [List.flatMap_cons]
    cases found : boundary lo hi change r with
    | none =>
      rw [List.filterMap_cons_none found] at ready ⊢
      have here : cut lo hi change r = [r] := by simp [cut,found]
      rw [List.append_cons] at shows_
      obtain ⟨t',run,shows'⟩ := ih _ later shows_ ready
      exact ⟨t',run,by rwa [here,← List.append_assoc]⟩
    | some split =>
      rw [List.filterMap_cons_some found] at ready ⊢
      have here : cut lo hi change r = split.pieces := by simp [cut,found]
      obtain ⟨pieces,inside⟩ := orderly_cut change (range r List.mem_cons_self) proper
      rw [here] at pieces inside
      have source : split.source_base = r.base := by
        obtain ⟨_,_,_,rfl⟩ := boundary_eq_some found
        rfl
      have fits : ∀ q ∈ split.pieces, q.Backed := by
        obtain ⟨_,perms,_,rfl⟩ := boundary_eq_some found
        exact backed_split perms
      simp only [additional_nodes,List.map_cons,List.sum_cons] at ready
      obtain ⟨t₁,removed,shows₁,spare₁,_⟩ := remove_spec shows_
      obtain ⟨t₂,published,shows₂,spare₂,_⟩ := publish_all_spec shows₁
        (shows_.orderly.replace pieces inside) (fun _ => fits) (by omega)
      rw [← List.append_assoc] at shows₂
      obtain ⟨t₃,rest,shows₃⟩ := ih _ later shows₂ (by rw [additional_nodes]; omega)
      refine ⟨t₃,?_,?_⟩
      · simp only [publish_splits,source,removed,published,bind_eq_bind,bind_some]
        exact rest
      · rwa [here,← List.append_assoc]

/-! ## Repainting -/
def paint (f : RegionPerms → RegionPerms) (r : Region) : Region := { r with perms := f r.perms }
def repaint (lo hi : Nat) (f : RegionPerms → RegionPerms) (r : Region) : Region :=
  if r.meets lo hi then paint f r else r
/-- The change of permissions settles after one application. -/
structure Settles (change : RegionPerms → Option RegionPerms) (f : RegionPerms → RegionPerms) : Prop where
  eq : ∀ p, f p = (change p).getD p
  fixed : ∀ p q, change p = some q → f q = q

variable {f : RegionPerms → RegionPerms}
lemma repaint_pieces (range : PageRange lo hi) (proper : r.Proper) (meets : r.meets lo hi)
    {perms : RegionPerms} (fixed : f perms = perms) {q : Region}
    (mem : q ∈ (prepare_region_split r (max lo r.base) (min hi r.stop) perms).pieces) : repaint lo hi f q = q := by
  have cutting := cutting_of_meets range proper meets
  obtain ⟨first,second,_,_⟩ := cutting.sizes proper
  rcases List.mem_append.mp mem with mem | mem
  · -- a head ends where the range starts
    have piece := ((split_head (n := 0) cutting perms proper).1 q mem).1
    have base : q.base = r.base := by rw [piece.base,zero_mul,add_zero]
    have stop : q.stop = max lo r.base := by rw [Region.stop,base,piece.len,first]
    have pos := (piece.proper proper).pos
    have outside : q.meets lo hi = false := by
      simp only [Region.not_meets_iff]
      simp only [Region.stop] at stop ⊢
      omega
    simp [repaint,outside]
  · rcases List.mem_cons.mp mem with rfl | mem
    · have same : paint f (prepare_region_split r (max lo r.base) (min hi r.stop) perms).middle =
          (prepare_region_split r (max lo r.base) (min hi r.stop) perms).middle := by
        simp [paint,prepare_region_split,fixed]
      rw [repaint,same,ite_self]
    · -- a tail starts where the range ends
      have piece := ((split_tail (n := 0) cutting perms proper).1 q mem).1
      have base := piece.base.trans second
      have stop := (piece.bounds proper).2
      have pos := (piece.proper proper).pos
      have outside : q.meets lo hi = false := by
        simp only [Region.not_meets_iff]
        simp only [Region.stop] at base stop ⊢
        omega
      simp [repaint,outside]
lemma view_paint (n : Nat) : (paint f r).view n = (r.view n).bind (fun v => some (f v.1,v.2)) := by
  by_cases inside : r.base ≤ n * PAGE ∧ n * PAGE < r.stop
  · rw [Region.view,if_pos (show (paint f r).base ≤ n * PAGE ∧ n * PAGE < (paint f r).stop from inside),Region.view,if_pos inside]
    rfl
  · rw [Region.view,if_neg (show ¬ ((paint f r).base ≤ n * PAGE ∧ n * PAGE < (paint f r).stop) from inside),Region.view,if_neg inside]
    rfl
lemma view_carved (range : PageRange lo hi) (settles : Settles change f) (proper : r.Proper) :
    view ((cut lo hi change r).map (repaint lo hi f)) n = (r.view n).bind (fun v => some (if inRange lo hi n then f v.1 else v.1,v.2)) := by
  unfold cut
  cases found : boundary lo hi change r with
  | some split =>
    obtain ⟨meets,perms,changed,rfl⟩ := boundary_eq_some found
    have cutting := cutting_of_meets range proper meets
    have same : (prepare_region_split r (max lo r.base) (min hi r.stop) perms).pieces.map (repaint lo hi f) =
        (prepare_region_split r (max lo r.base) (min hi r.stop) perms).pieces := by
      refine (List.map_congr_left (fun q mem => ?_)).trans (List.map_id _)
      exact repaint_pieces range proper meets (settles.fixed _ _ changed) mem
    have value : f r.perms = perms := by rw [settles.eq,changed]; rfl
    simp only [map_some,getD_some]
    rw [same,view_split cutting proper]
    by_cases inside : r.base ≤ n * PAGE ∧ n * PAGE < r.stop
    · have agree : inRange (max lo r.base) (min hi r.stop) n = inRange lo hi n := by
        rw [Bool.eq_iff_iff]
        simp only [inRange_iff]
        omega
      rw [Region.view,if_pos inside,bind_some,bind_some,agree,value]
    · rw [Region.view,if_neg inside]
      rfl
  | none =>
    simp only [map_none,getD_none,List.map_cons,List.map_nil,view_cons,view_nil,or_none]
    by_cases meets : r.meets lo hi
    · rw [repaint,if_pos meets,view_paint]
      rw [boundary,if_pos meets,bind_eq_none_iff] at found
      by_cases inside : r.base ≤ n * PAGE ∧ n * PAGE < r.stop
      · rw [Region.view,if_pos inside,bind_some,bind_some]
        cases changed : change r.perms with
        | none =>
          have value : f r.perms = r.perms := by rw [settles.eq,changed]; rfl
          rw [value,ite_self]
        | some perms =>
          have whole := found perms changed
          simp only [ite_eq_left_iff,reduceCtorEq,imp_false,not_not] at whole
          have covered : inRange lo hi n := by
            simp only [inRange_iff]
            omega
          rw [if_pos covered]
      · rw [Region.view,if_neg inside]
        rfl
    · rw [repaint,if_neg meets]
      by_cases inside : r.base ≤ n * PAGE ∧ n * PAGE < r.stop
      · have outside : inRange lo hi n = false := by
          simp only [Region.meets_iff] at meets
          simp only [inRange,and_eq_false_iff,decide_eq_false_iff_not]
          omega
        rw [Region.view,if_pos inside,bind_some,outside]
        rfl
      · rw [Region.view,if_neg inside]
        rfl

/-! ## Accounting of a repaint -/
/-- The change of permissions moves only one counter, whose share is decided by `acc`. -/
structure Moves (k : Counter) (acc : RegionPerms → Bool) (f : RegionPerms → RegionPerms) : Prop where
  share : ∀ r, share r k = if acc r.perms then r.len else 0
  others : ∀ c, c ≠ k → ∀ p len, flat (f p) len c = flat p len c

variable {k : Counter} {acc : RegionPerms → Bool}
lemma tally_le (was is : Bool) (len : Nat) (d : Nat × Nat) : (tally was is len d).1 ≤ d.1 + len ∧ (tally was is len d).2 ≤ d.2 + len := by
  cases was <;> cases is <;> simp [tally,saturating_add_le]
/-- The bytes that enter and leave the counter while the regions are repainted in turn. -/
lemma tallied (moves : Moves k acc f) (inside : List Region) (d : Nat × Nat) (first : d.1 + (inside.map Region.len).sum ≤ USER_HALF_END)
    (second : d.2 + (inside.map Region.len).sum ≤ USER_HALF_END) : total (inside.map (paint f)) k +
        (inside.foldl (fun d r => tally (acc r.perms) (acc (f r.perms)) r.len d) d).2 + d.1 =
      total inside k + (inside.foldl (fun d r => tally (acc r.perms) (acc (f r.perms)) r.len d) d).1 + d.2 ∧
    (inside.foldl (fun d r => tally (acc r.perms) (acc (f r.perms)) r.len d) d).1 ≤ USER_HALF_END ∧
    d.2 ≤ (inside.foldl (fun d r => tally (acc r.perms) (acc (f r.perms)) r.len d) d).2 := by
  induction inside generalizing d with
  | nil => exact ⟨by simp; omega,by simpa using first,le_rfl⟩
  | cons r inside ih =>
    simp only [List.map_cons,List.sum_cons] at first second
    have bound := tally_le (acc r.perms) (acc (f r.perms)) r.len d
    obtain ⟨balance,top,low⟩ := ih (tally (acc r.perms) (acc (f r.perms)) r.len d) (by omega) (by omega)
    have before := moves.share r
    have after := moves.share (paint f r)
    simp only [List.map_cons,List.foldl_cons,total_cons,before,after]
    have addFirst : saturating_add d.1 r.len = d.1 + r.len := saturating_add_eq (by omega)
    have addSecond : saturating_add d.2 r.len = d.2 + r.len := saturating_add_eq (by omega)
    change (if acc (f r.perms) = true then r.len else 0) + _ + _ + _ = _ ∧ _
    cases was : acc r.perms <;> cases is : acc (f r.perms) <;>
      simp only [was,is,tally,addFirst,addSecond,if_true,if_false,false_eq_true] at balance top low ⊢ <;>
      omega
lemma total_paint_others (moves : Moves k acc f) {c : Counter} (other : c ≠ k) (inside : List Region) :
    total (inside.map (paint f)) c = total inside c := by
  induction inside with
  | nil => rfl
  | cons r inside ih =>
    rw [List.map_cons,total_cons,total_cons,ih]
    have same := moves.others c other r.perms r.len
    simp [share,paint,same]
lemma proper_paint (proper : r.Proper) : (paint f r).Proper :=
  ⟨proper.base,proper.len,proper.pos,proper.user⟩
variable {inside before after : List Region}
lemma orderly_paint (orderly : Orderly inside) : Orderly (inside.map (paint f)) := by
  constructor
  · intro q mem
    obtain ⟨r,inside,rfl⟩ := List.mem_map.mp mem
    exact proper_paint (orderly.proper r inside)
  · exact List.pairwise_map.mpr orderly.apart
lemma orderly_repainted (orderly : Orderly (before ++ (inside ++ after))) : Orderly (before ++ (inside.map (paint f) ++ after)) := by
  obtain ⟨first,rest,across⟩ := orderly_append.mp orderly
  obtain ⟨middle,last,upper⟩ := orderly_append.mp rest
  refine orderly_append.mpr ⟨first,orderly_append.mpr ⟨orderly_paint middle,last,?_⟩,?_⟩
  · intro a mem b later
    obtain ⟨r,inner,rfl⟩ := List.mem_map.mp mem
    exact upper r inner b later
  · intro a earlier b mem
    rcases List.mem_append.mp mem with mem | mem
    · obtain ⟨r,inner,rfl⟩ := List.mem_map.mp mem
      exact across a earlier r (by simp [inner])
    · exact across a earlier b (by simp [mem])
lemma shows_repainted {t t' : RegionTable} (moves : Moves k acc f) (shows_ : Shows exact t (before ++ (inside ++ after)))
    (lists : t'.Lists (before ++ (inside.map (paint f) ++ after)))
    {d : Nat × Nat} (delta : d = inside.foldl (fun d r => tally (acc r.perms) (acc (f r.perms)) r.len d) (0,0))
    (acct : t'.acct = t.acct.set k (saturating_add (t.acct k) d.1 - d.2)) : Shows exact t' (before ++ (inside.map (paint f) ++ after)) := by
  refine ⟨lists,?_,fun holds c => ?_⟩
  · intro holds q mem
    rcases List.mem_append.mp mem with mem | mem
    · exact shows_.backed holds q (by simp [mem])
    · rcases List.mem_append.mp mem with mem | mem
      · obtain ⟨r,inner,rfl⟩ := List.mem_map.mp mem
        exact shows_.backed holds r (by simp [inner])
      · exact shows_.backed holds q (by simp [mem])
  have old := shows_.counted holds c
  rw [acct,RegionAcct.set]
  simp only [total_append] at old ⊢
  by_cases same : c = k
  · subst same
    have orderlyInside : Orderly inside :=
      (orderly_append.mp (orderly_append.mp shows_.orderly).2.1).1
    have lens := orderlyInside.sum_lens
    obtain ⟨balance,top,_⟩ := tallied moves inside (0,0) (by simpa using lens) (by simpa using lens)
    rw [← delta] at balance top
    have bound := shows_.orderly.total_le (c := c) (shows_.backed holds)
    simp only [total_append] at bound
    have sum : saturating_add (t.acct c) d.1 = t.acct c + d.1 := by
      refine saturating_add_of_le ?_
      simp only [USER_HALF_END] at top bound
      omega
    rw [if_pos rfl,sum,old]
    omega
  · rw [if_neg same,old,total_paint_others moves same]
lemma map_repaint (below : ∀ r ∈ before, r.stop ≤ lo) (within : ∀ r ∈ inside, r.meets lo hi) (above : ∀ r ∈ after, hi ≤ r.base) :
    (before ++ (inside ++ after)).map (repaint lo hi f) = before ++ (inside.map (paint f) ++ after) := by
  have first : before.map (repaint lo hi f) = before := by
    refine (List.map_congr_left (fun r mem => ?_)).trans (List.map_id _)
    have outside : r.meets lo hi = false := not_meets (.inl (below r mem))
    simp [repaint,outside]
  have second : inside.map (repaint lo hi f) = inside.map (paint f) :=
    List.map_congr_left (fun r mem => by rw [repaint,if_pos (within r mem)])
  have third : after.map (repaint lo hi f) = after := by
    refine (List.map_congr_left (fun r mem => ?_)).trans (List.map_id _)
    have outside : r.meets lo hi = false := not_meets (.inr (above r mem))
    simp [repaint,outside]
  rw [List.map_append,List.map_append,first,second,third]
lemma view_repainted (range : PageRange lo hi) (settles : Settles change f) (orderly : Orderly rs) :
    view ((rs.flatMap (cut lo hi change)).map (repaint lo hi f)) n =
      (view rs n).bind (fun v => some (if inRange lo hi n then f v.1 else v.1,v.2)) := by
  rw [List.map_flatMap]
  exact view_flatMap (fun r mem => view_carved range settles (orderly.proper r mem)) orderly

/-! ## Setting and clearing a flag -/
section Flag
variable {flag : RegionPerms} {set : Bool}
lemma contains_or_self (p flag : RegionPerms) : contains (p ||| flag) flag := by
  have absorb : (p ||| flag) &&& flag = flag := by
    ext i h
    simp only [BitVec.getElem_and,BitVec.getElem_or]
    cases p[i] <;> cases flag[i] <;> rfl
  simp [contains,absorb]
lemma and_not_and (p flag : RegionPerms) : (p &&& ~~~flag) &&& flag = 0 := by
  ext i h
  simp only [BitVec.getElem_and,BitVec.getElem_not,BitVec.ofNat_eq_ofNat,BitVec.getElem_zero]
  cases p[i] <;> cases flag[i] <;> rfl
lemma settles_flag : Settles (flag_change flag set) (fun p => (flag_change flag set p).getD p) where
  eq _ := rfl
  fixed p q changed := by
    have same : flag_change flag set q = none ∨ flag_change flag set q = some q := by
      unfold flag_change at changed
      split at changed
      · exact absurd changed (by simp)
      · cases set with
        | true =>
          cases changed
          left
          simp [flag_change,contains_or_self]
        | false =>
          cases changed
          by_cases zero : flag = 0
          · right
            subst zero
            have same : (p &&& ~~~(0 : RegionPerms)) = p := by
              ext i h
              rw [BitVec.getElem_and,BitVec.getElem_not,BitVec.ofNat_eq_ofNat,BitVec.getElem_zero,Bool.not_false,Bool.and_true]
            rename_i unblocked
            rw [if_neg Bool.false_ne_true,same,flag_change,if_neg unblocked,if_neg Bool.false_ne_true,same]
          · left
            have clear : contains (p &&& ~~~flag) flag = false := by
              simp only [contains,and_not_and]
              simpa using fun equal => zero equal.symm
            simp [flag_change,clear]
    rcases same with same | same <;> simp [same]
/-- Permissions that agree under a mask agree on the flags inside it. -/
lemma contains_congr (flag : RegionPerms) {a b mask : RegionPerms} (same : a &&& mask = b &&& mask)
    (sub : mask &&& flag = flag) : contains a flag = contains b flag := by
  have agree : a &&& flag = b &&& flag := by rw [← sub,← BitVec.and_assoc,same,BitVec.and_assoc]
  rw [contains,contains,agree]
lemma and_flag_change {mask : RegionPerms} (set : Bool) (clear : flag &&& mask = 0) (p : RegionPerms) :
    ((flag_change flag set p).getD p) &&& mask = p &&& mask := by
  have bits : ∀ i (h : i < 32), flag[i] = false ∨ mask[i] = false := by
    intro i h
    have bit := congrArg (fun v : RegionPerms => v[i]) clear
    simp only [BitVec.getElem_and,BitVec.ofNat_eq_ofNat,BitVec.getElem_zero,and_eq_false_iff] at bit
    exact bit
  unfold flag_change
  split
  · rfl
  · cases set
    · ext i h
      rcases bits i h with off | off <;> simp [off]
    · ext i h
      rcases bits i h with off | off <;> simp [off]
lemma moves_flag (clear : flag &&& (EXEC ||| WRITE ||| STACK_GUARD) = 0) :
    Moves .locked_bytes locked_accountable (fun p => (flag_change flag set p).getD p) where
  share _ := rfl
  others c other p len := by
    have same := and_flag_change set clear p
    have guard_ := contains_congr STACK_GUARD same (by decide)
    have write := contains_congr WRITE same (by decide)
    have exec := contains_congr EXEC same (by decide)
    cases c with
    | mapped_bytes | resident_pages => rfl
    | guard_bytes => simp only [flat,guard_]
    | locked_bytes => exact absurd rfl other
    | wnx_bytes =>
      have still : wnx_accountable ((flag_change flag set p).getD p) = wnx_accountable p := by
        rw [wnx_accountable,wnx_accountable,write,exec]
      simp [flat,still]
lemma flag_sweep_eq (flag : RegionPerms) (set : Bool) (r : Region) (d : Nat × Nat) :
    flag_sweep flag set r d = (paint (fun p => (flag_change flag set p).getD p) r, tally (locked_accountable r.perms)
        (locked_accountable ((flag_change flag set r.perms).getD r.perms)) r.len d) := by
  unfold flag_sweep
  cases changed : flag_change flag set r.perms with
  | none =>
    have still : tally (locked_accountable r.perms) (locked_accountable r.perms) r.len d = d := by
      cases locked_accountable r.perms <;> rfl
    simp [paint,changed,still]
  | some perms => simp [paint,changed]
variable {visit : Region → Nat × Nat → Region × (Nat × Nat)} {p : Nat → Bool} {g : Region → Nat × Nat → Nat × Nat}
lemma visit_regions (eq : ∀ r d, visit r d = (paint f r,g r d)) (inside : List Region)
    (selected : ∀ r ∈ inside, p r.base) (d : Nat × Nat) : visitEntries p visit (inside.map (fun r => (r.base,r))) d =
      ((inside.map (paint f)).map (fun r => (r.base,r)),inside.foldl (fun d r => g r d) d) := by
  induction inside generalizing d with
  | nil => rfl
  | cons r inside ih =>
    have rest := ih (fun q mem => selected q (by simp [mem])) (g r d)
    simp only [List.map_cons,visitEntries,selected r (by simp),if_true,eq,rest,List.foldl_cons]
    rfl
lemma visit_middle (eq : ∀ r d, visit r d = (paint f r,g r d)) {before inside after : List Region} (first : ∀ r ∈ before, p r.base = false)
    (middle : ∀ r ∈ inside, p r.base) (last : ∀ r ∈ after, p r.base = false) (d : Nat × Nat) :
    visitEntries p visit ((before ++ (inside ++ after)).map (fun r => (r.base,r))) d =
      ((before ++ (inside.map (paint f) ++ after)).map (fun r => (r.base,r)),inside.foldl (fun d r => g r d) d) := by
  have skip {part : List Region} (none_ : ∀ r ∈ part, p r.base = false) (d : Nat × Nat) :
      visitEntries p visit (part.map (fun r => (r.base,r))) d = (part.map (fun r => (r.base,r)),d) := by
    refine visitEntries_skip visit d fun e mem => ?_
    obtain ⟨r,inner,rfl⟩ := List.mem_map.mp mem
    exact none_ r inner
  rw [List.map_append,visitEntries_append,skip first,List.map_append,visitEntries_append,
    visit_regions eq inside middle,skip last,List.map_append,List.map_append]
lemma set_region_flag_range_shows (granted : Nat → Bool) (range : ∀ r ∈ rs, r.meets lo hi → PageRange lo hi)
    (clear : flag &&& (EXEC ||| WRITE ||| STACK_GUARD) = 0) (shows_ : Shows exact t rs) :
    t.set_region_flag_range lo hi flag set granted = some (t,.error .AllocationFailed) ∨
    ∃ t', t.set_region_flag_range lo hi flag set granted = some (t',.ok ()) ∧ Shows exact t'
      ((rs.flatMap (cut lo hi (flag_change flag set))).map (repaint lo hi fun p => (flag_change flag set p).getD p)) := by
  unfold set_region_flag_range
  dsimp only
  split
  · exact Or.inl rfl
  · right
    rw [boundary_splits_eq shows_.toLists]
    obtain ⟨t₁,published,shows₁⟩ := publish_splits_spec [] (flag_change flag set) range
      (shows_.reserve (additional_nodes (rs.filterMap (boundary lo hi (flag_change flag set))))) (le_max_right _ _)
    rw [List.nil_append] at shows₁
    rw [published]
    obtain ⟨before,inside,after,parts,below,_,within,above⟩ := shows₁.orderly.cut lo hi
    have sweep := sweep_start_spec shows₁.toLists lo
    have select : ∀ r ∈ rs.flatMap (cut lo hi (flag_change flag set)),
        (decide (t₁.sweep_start lo ≤ r.base) && decide (r.base < hi)) = r.meets lo hi := by
      intro r mem
      simp [Region.meets,sweep r mem,Bool.and_comm]
    have entries := shows₁.entries
    rw [parts] at select entries shows₁
    have swept := visit_middle (p := fun k => decide (t₁.sweep_start lo ≤ k) && decide (k < hi))
      (flag_sweep_eq flag set)
      (fun r (mem : r ∈ before) => (select r (by simp [mem])).trans (not_meets (.inl (below r mem))))
      (fun r (mem : r ∈ inside) => by rw [select r (by simp [mem]),within r mem])
      (fun r (mem : r ∈ after) => (select r (by simp [mem])).trans (not_meets (.inr (above r mem)))) (0,0)
    rw [parts,map_repaint below within above]
    refine ⟨_,rfl,shows_repainted (moves_flag clear) shows₁ ⟨?_,orderly_repainted shows₁.orderly⟩ rfl ?_⟩
    · simp only [SortedMap.visitWhere]
      rw [entries,swept]
    · simp only [SortedMap.visitWhere]
      rw [entries,swept]
lemma set_region_flag_range_spec (granted : Nat → Bool) (range : PageRange lo hi)
    (clear : flag &&& (EXEC ||| WRITE ||| STACK_GUARD) = 0) (shows_ : Shows exact t rs) :
    t.set_region_flag_range lo hi flag set granted = some (t,.error .AllocationFailed) ∨
    ∃ t' rs', t.set_region_flag_range lo hi flag set granted = some (t',.ok ()) ∧ Shows exact t' rs' ∧
      ∀ n, view rs' n = (view rs n).bind (fun v =>
        some (if inRange lo hi n then (flag_change flag set v.1).getD v.1 else v.1,v.2)) :=
  (set_region_flag_range_shows granted (fun _ _ _ => range) clear shows_).imp_right fun ⟨t',run,shows'⟩ =>
    ⟨t',_,run,shows',fun _ => view_repainted range settles_flag shows_.orderly⟩
/-- A range that no region meets leaves the regions as they are. -/
lemma map_repaint_cut {change : RegionPerms → Option RegionPerms} {f : RegionPerms → RegionPerms}
    (none_ : ∀ r ∈ rs, r.meets lo hi = false) : (rs.flatMap (cut lo hi change)).map (repaint lo hi f) = rs := by
  rw [List.map_flatMap,List.flatMap_congr (g := fun r => [r])]
  · simp
  · intro r mem
    simp [cut,boundary,repaint,none_ r mem]
end Flag

/-! ## Changing the protection -/
section Prot
variable {prot : RegionPerms}
lemma settles_prot : Settles (fun perms => some (prot_change prot perms)) (prot_change prot) where
  eq _ := rfl
  fixed p q changed := by
    cases changed
    ext i h
    simp only [prot_change,BitVec.getElem_or,BitVec.getElem_and,BitVec.getElem_not]
    cases prot[i] <;> cases p[i] <;> cases PROT_MASK[i] <;> rfl
lemma moves_prot (inner : prot &&& ~~~PROT_MASK = 0) : Moves .wnx_bytes wnx_accountable (prot_change prot) where
  share _ := rfl
  others c other p len := by
    have same : prot_change prot p &&& ~~~PROT_MASK = p &&& ~~~PROT_MASK := by
      ext i h
      have bit := congrArg (fun v : RegionPerms => v[i]) inner
      simp only [BitVec.getElem_and,BitVec.getElem_not,BitVec.ofNat_eq_ofNat,BitVec.getElem_zero] at bit
      simp only [prot_change,BitVec.getElem_or,BitVec.getElem_and,BitVec.getElem_not]
      revert bit
      cases prot[i] <;> cases p[i] <;> cases PROT_MASK[i] <;> simp
    have guard_ := contains_congr STACK_GUARD same (by decide)
    have locked := contains_congr LOCKED same (by decide)
    have exempt := contains_congr LOCK_EXEMPT same (by decide)
    cases c with
    | mapped_bytes | resident_pages => rfl
    | guard_bytes => simp only [flat,guard_]
    | locked_bytes =>
      have still : locked_accountable (prot_change prot p) = locked_accountable p := by
        rw [locked_accountable,locked_accountable,guard_,locked,exempt]
      simp [flat,still]
    | wnx_bytes => exact absurd rfl other
lemma prot_loop_spec (prot : RegionPerms) (fuel : Nat) {cursor : Nat} {before inside after : List Region} {d : Nat × Nat}
    (lists : t.Lists (before ++ (inside ++ after))) (aligned : cursor % PAGE = 0)
    (below : ∀ r ∈ before, r.stop ≤ cursor) (within : ∀ r ∈ inside, r.meets cursor hi)
    (above : ∀ r ∈ after, hi ≤ r.base) (enough : inside.length < fuel) :
    ∃ t', t.prot_loop prot hi fuel cursor d = some (t',inside.foldl (fun d r =>
        tally (wnx_accountable r.perms) (wnx_accountable (prot_change prot r.perms)) r.len d) d) ∧
      t'.Lists (before ++ (inside.map (paint (prot_change prot)) ++ after)) ∧ t'.acct = t.acct := by
  induction inside generalizing t before cursor d fuel with
  | nil =>
    obtain ⟨fuel,rfl⟩ := Nat.exists_eq_succ_of_ne_zero (by simp at enough; omega : fuel ≠ 0)
    have none_ : (before ++ ([] ++ after)).filter (Region.meets cursor hi) = [] := by
      refine List.filter_eq_nil_iff.mpr fun r mem meets => ?_
      simp only [Region.meets_iff] at meets
      rcases List.mem_append.mp mem with mem | mem
      · have := below r mem
        omega
      · have := above r mem
        omega
    refine ⟨t,?_,lists,rfl⟩
    rw [prot_loop,overlapping_spec lists,none_]
    rfl
  | cons r inside ih =>
    obtain ⟨fuel,rfl⟩ := Nat.exists_eq_succ_of_ne_zero (by simp at enough; omega : fuel ≠ 0)
    have meets := within r (by simp)
    have proper : r.Proper := lists.orderly.proper r (by simp)
    have first : ((before ++ (r :: inside ++ after)).filter (Region.meets cursor hi)).head? = some r := by
      have skip : before.filter (Region.meets cursor hi) = [] := by
        refine List.filter_eq_nil_iff.mpr fun q mem met => ?_
        have short := below q mem
        simp only [Region.meets_iff] at met
        omega
      rw [List.filter_append,skip,List.nil_append,List.cons_append,List.filter_cons_of_pos meets]
      rfl
    rw [List.cons_append] at lists
    have painted : Orderly (before ++ paint (prot_change prot) r :: (inside ++ after)) :=
      @orderly_repainted (prot_change prot) [r] before (inside ++ after) lists.orderly
    obtain ⟨t₁,updated,lists₁,acct₁,_⟩ := update_spec (paint (prot_change prot)) lists rfl painted
    -- whole pages: the step past the region is its end
    have next : max r.stop (cursor + PAGE) = r.stop := by
      have base := proper.base
      have len := proper.len
      simp only [Region.meets_iff] at meets
      simp only [Region.stop,PAGE] at *
      omega
    obtain ⟨_,_,upper⟩ := orderly_cons.mp (orderly_append.mp lists.orderly).2.1
    rw [List.append_cons] at lists₁
    obtain ⟨t₂,run,lists₂,acct₂⟩ := ih fuel
      (d := tally (wnx_accountable r.perms) (wnx_accountable (prot_change prot r.perms)) r.len d)
      lists₁ proper.stop
      (by
        intro q mem
        rcases List.mem_append.mp mem with mem | mem
        · have short := below q mem
          simp only [Region.meets_iff] at meets
          exact short.trans meets.2.le
        · obtain rfl := List.mem_singleton.mp mem
          exact le_rfl)
      (by
        intro q mem
        have met := within q (by simp [mem])
        have far := upper q (by simp [mem])
        have pos := (lists.orderly.proper q (by simp [mem])).pos
        simp only [Region.meets_iff] at met ⊢
        exact ⟨met.1,lt_of_le_of_lt far (Nat.lt_add_of_pos_right pos)⟩)
      (by simp at enough; omega)
    refine ⟨t₂,?_,?_,acct₂.trans acct₁⟩
    · rw [List.cons_append] at first
      rw [prot_loop,overlapping_spec lists,first]
      have step : t.update r.base (fun x => { x with perms := prot_change prot r.perms }) = some t₁ := by
        have found := get_of_mem lists (r := r) (by simp)
        rw [← updated]
        simp only [update,found,map_some]
        rfl
      simp only [step,next,bind_eq_bind,bind_some]
      exact run
    · rw [List.map_cons,List.cons_append,List.append_cons]
      exact lists₂
lemma mprotect_regions_spec (prot : RegionPerms) (granted : Nat → Bool) (range : PageRange lo hi) (shows_ : Shows exact t rs) :
    t.mprotect_regions lo hi prot granted = some (t,.error .AllocationFailed) ∨
    ∃ t' rs', t.mprotect_regions lo hi prot granted = some (t',.ok ()) ∧ Shows exact t' rs' ∧ ∀ n, view rs' n = (view rs n).bind (fun v =>
        some (if inRange lo hi n then prot_change prot.prot_only v.1 else v.1,v.2)) := by
  unfold mprotect_regions
  dsimp only
  split
  · exact Or.inl rfl
  · right
    rw [boundary_splits_eq shows_.toLists]
    obtain ⟨t₁,published,shows₁⟩ := publish_splits_spec []
      (fun perms => some (prot_change prot.prot_only perms)) (fun _ _ _ => range)
      (shows_.reserve (additional_nodes
        (rs.filterMap (boundary lo hi (fun perms => some (prot_change prot.prot_only perms)))))) (le_max_right _ _)
    rw [List.nil_append] at shows₁
    rw [published]
    obtain ⟨before,inside,after,parts,below,_,within,above⟩ := shows₁.orderly.cut lo hi
    have count := shows₁.toLists.regions
    rw [parts] at shows₁ count
    obtain ⟨t₂,looped,lists₂,acct₂⟩ := prot_loop_spec prot.prot_only (t₁.regions.length + 1) (d := (0,0))
      shows₁.toLists range.lo_aligned below within above (by
        rw [count]
        simp
        omega)
    have inner : prot.prot_only &&& ~~~PROT_MASK = 0 := by
      ext i h
      simp only [prot_only,BitVec.getElem_and,BitVec.getElem_not,BitVec.ofNat_eq_ofNat,BitVec.getElem_zero]
      cases prot[i] <;> cases PROT_MASK[i] <;> rfl
    simp only [bind_eq_bind,bind_some,looped]
    refine ⟨_,_,rfl,shows_repainted (moves_prot inner) shows₁ ⟨lists₂.entries,lists₂.orderly⟩ rfl ?_,?_⟩
    · rw [acct₂]
    · intro n
      rw [← map_repaint below within above,← parts]
      exact view_repainted range settles_prot shows_.orderly
end Prot
end RegionTable
end Narf.Memory
