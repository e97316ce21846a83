import Narf.Memory.VmaTable

namespace Narf.Memory
open Lib RegionPerms List Option Bool

variable {r q : Region} {rs : List Region} {k m n lo hi : Nat}

/-! ## The page map of a table -/
/-- A page of a region: its permissions and its frame, zero when the page is not backed. -/
def Region.view (page : Nat) (r : Region) : Option (RegionPerms × Nat) :=
  if r.base ≤ page * PAGE ∧ page * PAGE < r.stop then some (r.perms,r.backing_at (page - r.base / PAGE)) else none
def view (rs : List Region) (page : Nat) : Option (RegionPerms × Nat) := rs.findSome? (Region.view page)
/-- The partial map from pages to permissions and frames. -/
def RegionTable.page_map (t : RegionTable) (page : Nat) : Option (RegionPerms × Nat) := view t.regions page
lemma RegionTable.page_map_eq {t : RegionTable} (lists : t.Lists rs) : t.page_map = view rs := by
  funext n
  rw [RegionTable.page_map,lists.regions]
def inRange (lo hi page : Nat) : Bool := lo ≤ page * PAGE && page * PAGE < hi
lemma inRange_iff {lo hi n : Nat} : inRange lo hi n ↔ lo ≤ n * PAGE ∧ n * PAGE < hi := by simp [inRange]
@[simp] lemma view_nil (n : Nat) : view [] n = none := rfl
@[simp] lemma view_cons (r : Region) (rs : List Region) (n : Nat) : view (r :: rs) n = (r.view n).or (view rs n) := by
  rw [view,List.findSome?_cons]
  cases r.view n <;> rfl
@[simp] lemma view_append (before after : List Region) (n : Nat) :
    view (before ++ after) n = (view before n).or (view after n) := List.findSome?_append
variable {expand : Region → List Region}
/-- Each region's replacements show a function of what it showed, so the lists do. -/
lemma view_flatMap {f : RegionPerms × Nat → Option (RegionPerms × Nat)}
    (each : ∀ r ∈ rs, view (expand r) n = (r.view n).bind f) (apart : Orderly rs) : view (rs.flatMap expand) n = (view rs n).bind f := by
  induction rs with
  | nil => rfl
  | cons r rs ih =>
    obtain ⟨_,rest,upper⟩ := orderly_cons.mp apart
    have first := each r (by simp)
    have later := ih (fun q mem => each q (by simp [mem])) rest
    rw [flatMap_cons,view_append,view_cons,first,later]
    cases here : r.view n with
    | none => rfl
    | some v =>
      -- no later region shows the page
      have absent : view rs n = none := by
        refine List.findSome?_eq_none_iff.mpr fun q mem => ?_
        have past := upper q mem
        have inside : n * PAGE < r.stop := by
          by_contra beyond
          simp [Region.view,beyond] at here
        simp only [Region.view,ite_eq_right_iff,reduceCtorEq,imp_false]
        omega
      rw [absent,bind_none,or_none,or_none]
lemma Orderly.flatMap (orderly : Orderly rs) (each : ∀ r ∈ rs, Orderly (expand r) ∧ ∀ p ∈ expand r, r.base ≤ p.base ∧ p.stop ≤ r.stop) :
    Orderly (rs.flatMap expand) := by
  induction rs with
  | nil => exact orderly
  | cons r rs ih =>
    obtain ⟨_,rest,upper⟩ := orderly_cons.mp orderly
    obtain ⟨first,inside⟩ := each r (by simp)
    rw [flatMap_cons]
    refine orderly_append.mpr ⟨first,ih rest (fun q mem => each q (by simp [mem])),?_⟩
    intro a earlier b later
    obtain ⟨q,mem,piece⟩ := mem_flatMap.mp later
    exact ((inside a earlier).2.trans (upper q mem)).trans ((each q (by simp [mem])).2 b piece).1

/-! ## Pieces of a region -/
/-- `q` is the part of `r` of `m` pages from page `k` on. -/
structure Piece (r q : Region) (k m : Nat) : Prop where
  base : q.base = r.base + k * PAGE
  len : q.len = m * PAGE
  backing : ∀ i < m, q.backing_at i = r.backing_at (k + i)
  inside : k + m ≤ r.pages
  pos : 0 < m
lemma piece_window (perms : RegionPerms) (inside : k + m ≤ r.pages) (pos : 0 < m) :
    Piece r ⟨r.base + k * PAGE,m * PAGE,perms,r.phys.try_window k m⟩ k m where
  base := rfl
  len := rfl
  backing i small := by
    rw [Region.backing_at,RegionBacking.backing_at_try_window,if_pos small]
    rfl
  inside := inside
  pos := pos
lemma Region.Proper.len_eq (proper : r.Proper) : r.len = r.pages * PAGE := by
  have len := proper.len
  simp only [Region.pages,PAGE] at len ⊢
  omega
lemma Piece.bounds (piece : Piece r q k m) (proper : r.Proper) : r.base ≤ q.base ∧ q.stop ≤ r.stop := by
  have base := piece.base
  have len := piece.len
  have inside := piece.inside
  have whole := proper.len_eq
  simp only [Region.stop,PAGE] at *
  omega
lemma Piece.proper (piece : Piece r q k m) (proper : r.Proper) : q.Proper := by
  have base := piece.base
  have len := piece.len
  have pos := piece.pos
  have low := proper.base
  have user := proper.user
  have bounds := piece.bounds proper
  constructor <;> simp only [PAGE] at * <;> omega
lemma Piece.apart {q' : Region} {k' m' : Nat} (piece : Piece r q k m) (other : Piece r q' k' m')
    (order : k + m ≤ k') : q.stop ≤ q'.base := by
  have base := piece.base
  have len := piece.len
  have base' := other.base
  simp only [Region.stop,PAGE] at *
  omega
/-- The pages `k` to `k + m` of a region, shown with the given permissions. -/
def span (r : Region) (perms : RegionPerms) (k m page : Nat) : Option (RegionPerms × Nat) :=
  if r.base + k * PAGE ≤ page * PAGE ∧ page * PAGE < r.base + (k + m) * PAGE then
    some (perms,r.backing_at (page - r.base / PAGE)) else none
lemma Piece.view (piece : Piece r q k m) (proper : r.Proper) : q.view n = span r q.perms k m n := by
  have base := piece.base
  have len := piece.len
  have low := proper.base
  by_cases inside : r.base + k * PAGE ≤ n * PAGE ∧ n * PAGE < r.base + (k + m) * PAGE
  · have within : q.base ≤ n * PAGE ∧ n * PAGE < q.stop := by
      simp only [Region.stop,PAGE] at *
      omega
    have small : n - q.base / PAGE < m := by
      simp only [PAGE] at *
      omega
    have shift : k + (n - q.base / PAGE) = n - r.base / PAGE := by
      simp only [PAGE] at *
      omega
    rw [Region.view,if_pos within,span,if_pos inside,piece.backing _ small,shift]
  · have without : ¬ (q.base ≤ n * PAGE ∧ n * PAGE < q.stop) := by
      simp only [Region.stop,PAGE] at *
      omega
    rw [Region.view,if_neg without,span,if_neg inside]
lemma view_eq_span (proper : r.Proper) : r.view n = span r r.perms 0 r.pages n := by
  have whole := proper.len_eq
  simp [Region.view,span,Region.stop,zero_mul,add_zero,zero_add,whole]
lemma span_zero (perms : RegionPerms) : span r perms k 0 n = none := by
  simp only [span,add_zero,ite_eq_right_iff,reduceCtorEq,imp_false]
  omega
lemma backed_window (base : Nat) (perms : RegionPerms) (k m : Nat) : (Region.mk base (m * PAGE) perms (r.phys.try_window k m)).Backed := by
  have window := RegionBacking.len_try_window r.phys k m
  simp only [Region.Backed,Region.pages]
  rw [Nat.mul_div_cancel m (by decide)]
  omega

/-! ## Boundary splits -/
section Split

/-- A range of whole pages of the region. -/
structure Cutting (r : Region) (lo hi : Nat) : Prop where
  lo_aligned : lo % PAGE = 0
  hi_aligned : hi % PAGE = 0
  low : r.base ≤ lo
  pos : lo < hi
  high : hi ≤ r.stop

variable (cutting : Cutting r lo hi) (proper : r.Proper) (perms : RegionPerms)

include cutting proper in
lemma Cutting.sizes : r.base + (lo - r.base) / PAGE * PAGE = lo ∧ r.base + ((lo - r.base) / PAGE + (hi - lo) / PAGE) * PAGE = hi ∧
    (lo - r.base) / PAGE + (hi - lo) / PAGE + (r.stop - hi) / PAGE = r.pages ∧ 0 < (hi - lo) / PAGE := by
  obtain ⟨loAligned,hiAligned,low,pos,high⟩ := cutting
  have base := proper.base
  have len := proper.len
  simp only [Region.stop,Region.pages,PAGE] at *
  omega
lemma optional_piece {o : Option Region} (absent : m = 0 → o = none)
    (present : m ≠ 0 → ∃ q, o = some q ∧ Piece r q k m ∧ q.perms = r.perms) (proper : r.Proper) :
    (∀ q ∈ o.toList, Piece r q k m ∧ q.perms = r.perms) ∧ Orderly o.toList ∧ view o.toList n = span r r.perms k m n := by
  by_cases empty : m = 0
  · rw [absent empty,empty,span_zero]
    exact ⟨by simp,⟨by simp,by simp⟩,rfl⟩
  · obtain ⟨q,rfl,piece,perms⟩ := present empty
    refine ⟨by simp [piece,perms],⟨by simp [piece.proper proper],by simp⟩,?_⟩
    rw [toList_some,view_cons,view_nil,or_none,piece.view proper,perms]

include cutting in
lemma split_head (proper : r.Proper) : (∀ q ∈ (prepare_region_split r lo hi perms).head.toList,
      Piece r q 0 ((lo - r.base) / PAGE) ∧ q.perms = r.perms) ∧ Orderly (prepare_region_split r lo hi perms).head.toList ∧
    view (prepare_region_split r lo hi perms).head.toList n = span r r.perms 0 ((lo - r.base) / PAGE) n := by
  obtain ⟨_,_,sum,_⟩ := cutting.sizes proper
  refine optional_piece (if_pos ·) (fun full => ⟨_,if_neg full,?_,rfl⟩) proper
  have inside : 0 + (lo - r.base) / PAGE ≤ r.pages := by
    rw [← sum,zero_add,add_assoc]
    exact Nat.le_add_right _ _
  have piece := piece_window r.perms inside (Nat.pos_of_ne_zero full)
  rwa [zero_mul,add_zero] at piece

include cutting in
lemma split_tail (proper : r.Proper) : (∀ q ∈ (prepare_region_split r lo hi perms).tail.toList,
      Piece r q ((lo - r.base) / PAGE + (hi - lo) / PAGE) ((r.stop - hi) / PAGE) ∧ q.perms = r.perms) ∧
    Orderly (prepare_region_split r lo hi perms).tail.toList ∧ view (prepare_region_split r lo hi perms).tail.toList n =
      span r r.perms ((lo - r.base) / PAGE + (hi - lo) / PAGE) ((r.stop - hi) / PAGE) n := by
  obtain ⟨_,second,sum,_⟩ := cutting.sizes proper
  refine optional_piece (if_pos ·) (fun full => ⟨_,if_neg full,?_,rfl⟩) proper
  have piece := piece_window (r := r) (k := (lo - r.base) / PAGE + (hi - lo) / PAGE) r.perms (le_of_eq sum)
    (Nat.pos_of_ne_zero full)
  rwa [second] at piece

include cutting proper in
lemma split_middle : Piece r (prepare_region_split r lo hi perms).middle ((lo - r.base) / PAGE) ((hi - lo) / PAGE) := by
  obtain ⟨first,_,sum,pos⟩ := cutting.sizes proper
  have piece := piece_window perms (sum ▸ Nat.le_add_right _ _) pos
  rwa [first] at piece

include cutting proper in
lemma orderly_split : Orderly (prepare_region_split r lo hi perms).pieces ∧
    ∀ q ∈ (prepare_region_split r lo hi perms).pieces, r.base ≤ q.base ∧ q.stop ≤ r.stop := by
  obtain ⟨heads,orderlyHead,_⟩ := split_head (n := 0) cutting perms proper
  obtain ⟨tails,orderlyTail,_⟩ := split_tail (n := 0) cutting perms proper
  have middle := split_middle cutting proper perms
  constructor
  · refine orderly_append.mpr ⟨orderlyHead,orderly_cons.mpr ⟨middle.proper proper,orderlyTail,?_⟩,?_⟩
    · intro b mem
      exact middle.apart (tails b mem).1 le_rfl
    · intro a mem b later
      rcases mem_cons.mp later with rfl | later
      · exact (heads a mem).1.apart middle (le_of_eq (zero_add _))
      · exact (heads a mem).1.apart (tails b later).1 (by rw [zero_add]; exact Nat.le_add_right _ _)
  · intro q mem
    rcases mem_append.mp mem with mem | mem
    · exact (heads q mem).1.bounds proper
    · rcases mem_cons.mp mem with rfl | mem
      · exact middle.bounds proper
      · exact (tails q mem).1.bounds proper
lemma backed_split : ∀ q ∈ (prepare_region_split r lo hi perms).pieces, q.Backed := by
  intro q mem
  rcases mem_append.mp mem with mem | mem
  · simp only [prepare_region_split,mem_toList] at mem
    split at mem
    · exact absurd mem (by simp)
    · cases mem
      exact backed_window _ _ _ _
  · rcases mem_cons.mp mem with rfl | mem
    · exact backed_window _ _ _ _
    · simp only [prepare_region_split,mem_toList] at mem
      split at mem
      · exact absurd mem (by simp)
      · cases mem
        exact backed_window _ _ _ _

include cutting proper in
lemma view_split : view (prepare_region_split r lo hi perms).pieces n =
    (r.view n).bind (fun v => some (if inRange lo hi n then perms else v.1,v.2)) := by
  obtain ⟨first,second,sum,_⟩ := cutting.sizes proper
  have middle := (split_middle cutting proper perms).view (n := n) proper
  have heads := (split_head (n := n) cutting perms proper).2.2
  have tails := (split_tail (n := n) cutting perms proper).2.2
  have shown : (prepare_region_split r lo hi perms).middle.perms = perms := rfl
  have whole := proper.len_eq
  have low := cutting.low
  have high := cutting.high
  have stop : r.base + r.pages * PAGE = r.stop := by rw [Region.stop,whole]
  rw [PreparedRegionSplit.pieces,view_append,view_cons,heads,middle,tails,shown,view_eq_span proper]
  simp only [span,zero_mul,add_zero,zero_add,first,second,sum,stop,inRange,and_eq_true,decide_eq_true_eq]
  by_cases early : n * PAGE < lo
  · have notMiddle : ¬ lo ≤ n * PAGE := by omega
    have notTail : ¬ hi ≤ n * PAGE := by have := cutting.pos; omega
    by_cases inside : r.base ≤ n * PAGE
    · have under : n * PAGE < r.stop := by have := cutting.pos; omega
      simp [early,notMiddle,inside,under]
    · simp [notMiddle,notTail,inside]
  · by_cases late : hi ≤ n * PAGE
    · have notMiddle : ¬ n * PAGE < hi := by omega
      have inside : r.base ≤ n * PAGE := by have := cutting.pos; omega
      by_cases under : n * PAGE < r.stop
      · simp [early,notMiddle,late,inside,under]
      · simp [early,notMiddle,under]
    · have after : lo ≤ n * PAGE := by omega
      have before : n * PAGE < hi := by omega
      have inside : r.base ≤ n * PAGE := by omega
      have under : n * PAGE < r.stop := by omega
      simp [early,after,before,inside,under]
end Split

/-! ## Punched regions -/
section Punch

open RegionTable

variable (proper : r.Proper) (meets : r.meets lo hi) (aligned : lo % PAGE = 0 ∧ hi % PAGE = 0)
  (le : lo ≤ hi)

include proper meets aligned in
lemma kept_head : ∃ heads, heads = (if r.base < lo then
      [Region.mk r.base ((lo - r.base) / PAGE * PAGE) r.perms (r.phys.try_window 0 ((lo - r.base) / PAGE))]
      else []) ∧ (∀ q ∈ heads, Piece r q 0 ((lo - r.base) / PAGE) ∧ q.perms = r.perms) ∧ Orderly heads ∧
    view heads n = span r r.perms 0 ((lo - r.base) / PAGE) n := by
  refine ⟨_,rfl,?_⟩
  simp only [Region.meets_iff] at meets
  have base := proper.base
  have len := proper.len
  by_cases early : r.base < lo
  · have sizes : (lo - r.base) / PAGE ≤ r.pages ∧ 0 < (lo - r.base) / PAGE := by
      simp only [Region.stop,Region.pages,PAGE] at *
      omega
    have piece := piece_window (r := r) (k := 0) r.perms (by omega) sizes.2
    simp only [zero_mul,add_zero] at piece
    rw [if_pos early]
    refine ⟨by simp [piece],⟨by simp [piece.proper proper],by simp⟩,?_⟩
    rw [view_cons,view_nil,or_none,piece.view proper]
  · have none_ : (lo - r.base) / PAGE = 0 := by rw [Nat.sub_eq_zero_of_le (by omega),Nat.zero_div]
    rw [if_neg early,none_,span_zero]
    exact ⟨by simp,⟨by simp,by simp⟩,rfl⟩

include proper meets aligned in
lemma kept_tail : ∃ tails, tails = (if hi < r.stop then [Region.mk hi (r.len - (hi - r.base) / PAGE * PAGE) r.perms
        (r.phys.try_window ((hi - r.base) / PAGE) r.phys.len)] else []) ∧
    (∀ q ∈ tails, Piece r q ((hi - r.base) / PAGE) (r.pages - (hi - r.base) / PAGE) ∧ q.perms = r.perms) ∧
    Orderly tails ∧ view tails n = span r r.perms ((hi - r.base) / PAGE) (r.pages - (hi - r.base) / PAGE) n := by
  refine ⟨_,rfl,?_⟩
  simp only [Region.meets_iff] at meets
  have base := proper.base
  have len := proper.len
  by_cases late : hi < r.stop
  · have start : hi = r.base + (hi - r.base) / PAGE * PAGE ∧ (hi - r.base) / PAGE < r.pages := by
      simp only [Region.stop,Region.pages,PAGE] at *
      omega
    have piece : Piece r ⟨hi,r.len - (hi - r.base) / PAGE * PAGE,r.perms,
        r.phys.try_window ((hi - r.base) / PAGE) r.phys.len⟩ ((hi - r.base) / PAGE)
        (r.pages - (hi - r.base) / PAGE) := by
      refine ⟨start.1,?_,?_,by omega,by omega⟩
      · simp only [Region.pages,PAGE] at *
        omega
      · intro i small
        rw [Region.backing_at,RegionBacking.backing_at_try_window]
        split
        · rfl
        · exact (RegionBacking.backing_at_beyond (le_trans (by omega) (Nat.le_add_left i _))).symm
    rw [if_pos late]
    refine ⟨by simp [piece],⟨by simp [piece.proper proper],by simp⟩,?_⟩
    rw [view_cons,view_nil,or_none,piece.view proper]
  · have none_ : r.pages - (hi - r.base) / PAGE = 0 := by
      simp only [Region.stop,Region.pages,PAGE] at *
      omega
    rw [if_neg late,none_,span_zero]
    exact ⟨by simp,⟨by simp,by simp⟩,rfl⟩

include proper meets aligned le in
lemma orderly_kept : Orderly (kept_fragments lo hi r) ∧ ∀ q ∈ kept_fragments lo hi r, r.base ≤ q.base ∧ q.stop ≤ r.stop := by
  obtain ⟨heads,whichHead,headPieces,orderlyHead,_⟩ := kept_head (n := 0) proper meets aligned
  obtain ⟨tails,whichTail,tailPieces,orderlyTail,_⟩ := kept_tail (n := 0) proper meets aligned
  have parts : kept_fragments lo hi r = heads ++ tails := by
    rw [whichHead,whichTail]
    rfl
  rw [parts]
  have order : (lo - r.base) / PAGE ≤ (hi - r.base) / PAGE := Nat.div_le_div_right (by omega)
  constructor
  · refine orderly_append.mpr ⟨orderlyHead,orderlyTail,?_⟩
    intro a earlier b later
    exact (headPieces a earlier).1.apart (tailPieces b later).1 (by omega)
  · intro q mem
    rcases mem_append.mp mem with mem | mem
    · exact (headPieces q mem).1.bounds proper
    · exact (tailPieces q mem).1.bounds proper
lemma backed_kept (backed : r.Backed) : ∀ q ∈ kept_fragments lo hi r, q.Backed := by
  intro q mem
  rcases mem_append.mp mem with mem | mem
  · split at mem
    · obtain rfl := mem_singleton.mp mem
      exact backed_window _ _ _ _
    · exact absurd mem not_mem_nil
  · split at mem
    · obtain rfl := mem_singleton.mp mem
      have window := RegionBacking.len_try_window r.phys ((hi - r.base) / PAGE) r.phys.len
      simp only [Region.Backed,Region.pages,PAGE] at backed window ⊢
      omega
    · exact absurd mem not_mem_nil

include proper meets aligned in
lemma view_kept : view (kept_fragments lo hi r) n = (r.view n).bind (fun v => if inRange lo hi n then none else some v) := by
  obtain ⟨heads,whichHead,_,_,viewHead⟩ := kept_head (n := n) proper meets aligned
  obtain ⟨tails,whichTail,_,_,viewTail⟩ := kept_tail (n := n) proper meets aligned
  have parts : kept_fragments lo hi r = heads ++ tails := by
    rw [whichHead,whichTail]
    rfl
  rw [parts,view_append,viewHead,viewTail,view_eq_span proper]
  simp only [Region.meets_iff] at meets
  obtain ⟨loAligned,hiAligned⟩ := aligned
  have base := proper.base
  have len := proper.len
  have first : n * PAGE < r.base + (lo - r.base) / PAGE * PAGE ↔ n * PAGE < max r.base lo := by
    simp only [Region.stop,PAGE] at base len meets loAligned hiAligned ⊢
    omega
  have second : r.base + (hi - r.base) / PAGE * PAGE = hi := by
    simp only [Region.stop,PAGE] at base len meets loAligned hiAligned ⊢
    omega
  have third : n * PAGE < r.base + ((hi - r.base) / PAGE + (r.pages - (hi - r.base) / PAGE)) * PAGE ↔
      n * PAGE < max hi r.stop := by
    simp only [Region.stop,Region.pages,PAGE] at base len meets loAligned hiAligned ⊢
    omega
  have stop : r.base + r.pages * PAGE = r.stop := by rw [Region.stop,proper.len_eq]
  simp only [span,zero_mul,add_zero,zero_add,first,second,third,stop,inRange,and_eq_true,decide_eq_true_eq]
  by_cases inside : r.base ≤ n * PAGE ∧ n * PAGE < r.stop
  · by_cases gone : lo ≤ n * PAGE ∧ n * PAGE < hi
    · rw [if_neg (by omega),if_neg (by omega),if_pos inside,bind_some,if_pos gone]
      rfl
    · rw [if_pos inside,bind_some,if_neg gone]
      by_cases early : n * PAGE < lo
      · rw [if_pos (by omega)]
        rfl
      · rw [if_neg (by omega),if_pos (by omega)]
        rfl
  · rw [if_neg inside,if_neg (by omega),if_neg (by omega)]
    rfl
end Punch
end Narf.Memory
