import Narf.Bpf.ScalarRefine

/-! Chains of widenings are finite. A reduced scalar stays reduced, its tnum only loses known bits and its ends only
move, each time to a threshold or to the last value: so there is a bound on how often it changes. -/

namespace Narf.Bpf
open BitVec Finset

namespace Tnum
variable {t u : Tnum} {i : Nat}
lemma signed_bounds_mem (t : Tnum) : t.contains t.signed_bounds.1 ∧ t.contains t.signed_bounds.2 := by
  have apart := bit_congr t.disjoint
  simp only [getLsbD_and,getLsbD_zero] at apart
  simp only [signed_bounds,bne,and_SIGN_eq_zero,contains_iff,BitVec.msb_eq_getLsbD_last]
  constructor
  · intro i
    split
    · simp only [BitVec.getLsbD_or,getLsbD_SIGN] at *
      grind
    · grind
  · intro i
    split
    · simp only [BitVec.getLsbD_or,getLsbD_SIGN,getLsbD_and,BitVec.getLsbD_not] at *
      grind
    · simp only [BitVec.getLsbD_or] at *
      grind
lemma Within.known (within : t.Within u) (known : u.mask.getLsbD i = false) :
    t.mask.getLsbD i = false ∧ t.value.getLsbD i = u.value.getLsbD i := by
  have value := known_bit (within _ (contains_value t)) known
  have top := known_bit (within _ (contains_top t)) known
  have apart := bit_congr t.disjoint i
  simp only [getLsbD_and,BitVec.getLsbD_or,getLsbD_zero] at apart top
  grind
lemma Within.eq (within : t.Within u) (mask : ∀ i < 64, t.mask.getLsbD i = false → u.mask.getLsbD i = false) : t = u := by
  have apart := bit_congr t.disjoint
  have apart' := bit_congr u.disjoint
  simp only [getLsbD_and,getLsbD_zero] at apart apart'
  have bits (i : Nat) (bound : i < 64) :
      t.mask.getLsbD i = u.mask.getLsbD i ∧ t.value.getLsbD i = u.value.getLsbD i := by
    cases known : u.mask.getLsbD i with
    | false => exact within.known known
    | true => grind
  rw [Tnum.mk.injEq]
  exact ⟨eq_of_getLsbD_eq fun i bound => (bits i bound).2,eq_of_getLsbD_eq fun i bound => (bits i bound).1⟩
lemma Within.antisymm (within : t.Within u) (back : u.Within t) : t = u :=
  within.eq fun _ _ known => (back.known known).1
/-- The subset test decides inclusion, the join is the least upper bound and the meet the intersection. -/
theorem domain_exact (t u w : Tnum) : (t.is_subset_of w = true ↔ t.Within w) ∧ ((t.join u).Within w ↔ t.Within w ∧ u.Within w) ∧
    (∀ x, (∃ m, t.meet u = some m ∧ m.contains x = true) ↔ t.contains x = true ∧ u.contains x = true) ∧
    (t.meet u = none ↔ ∀ x, t.contains x = true → u.contains x = false) := by
  refine ⟨⟨within_of_is_subset_of,fun within => ?_⟩,⟨fun within =>
      ⟨fun x xt => within x (join_contains_left xt u),fun x xu => within x (join_contains_right t xu)⟩,
      fun ⟨left,right⟩ => within_of_known fun i bound known => ?_⟩,
    fun x => ⟨fun ⟨m,met,mem⟩ => (contains_meet_iff met).mp mem,fun ⟨xt,xu⟩ => meet_contains xt xu⟩,
    ⟨fun gone x xt => ?_,fun apart => ?_⟩⟩
  · have bits (i : Nat) := within.known (i := i)
    simp only [is_subset_of,Bool.and_eq_true,beq_iff_eq]
    constructor <;> refine eq_of_getLsbD_eq fun i bound => ?_ <;>
      simp only [getLsbD_and,getLsbD_xor,BitVec.getLsbD_not,bound,getLsbD_zero] <;> grind
  · have first := left.known known
    have second := right.known known
    simp only [join,masked,BitVec.getLsbD_or,getLsbD_xor,getLsbD_and,BitVec.getLsbD_not,bound]
    grind
  · by_contra xu
    obtain ⟨m,met,_⟩ := meet_contains xt (Bool.eq_true_of_not_eq_false xu)
    cases gone.symm.trans met
  · cases met : t.meet u with
    | none => rfl
    | some m =>
      obtain ⟨xt,xu⟩ := (contains_meet_iff met).mp m.contains_value
      simp [apart _ xt] at xu
/-- How many bits are known. -/
def known (t : Tnum) : Nat := ((range 64).filter (fun i => t.mask.getLsbD i = false)).card
lemma Within.known_le (within : t.Within u) : u.known ≤ t.known ∧ (u.known = t.known → u = t) := by
  have fewer : (range 64).filter (fun i => u.mask.getLsbD i = false) ⊆
      (range 64).filter (fun i => t.mask.getLsbD i = false) :=
    monotone_filter_right _ fun i _ known => (within.known known).1
  refine ⟨card_le_card fewer,fun same => (within.eq fun i bound known => ?_).symm⟩
  have more := eq_of_subset_of_card_le fewer same.ge
  exact (mem_filter.mp (more.symm.subset (mem_filter.mpr ⟨mem_range.mpr bound,known⟩))).2
end Tnum

namespace Scalar
variable {s u next : Scalar} {t T : Tnum} {min max : I64} {thresholds : List I64}
lemma hull_mono {min' max' : I64} (low : min'.toInt ≤ min.toInt) (order : min.toInt ≤ max.toInt)
    (high : max.toInt ≤ max'.toInt) : (hull min max).Within (hull min' max') := by
  intro x mem
  unfold hull at mem ⊢
  split
  next oneSign =>
    have readMin := toInt_cases min
    have readMin' := toInt_cases min'
    have readMax := toInt_cases max
    have readMax' := toInt_cases max'
    rw [if_pos (by omega)] at mem
    exact Tnum.from_unsigned_range_mono (by omega) (by omega) (by omega) x mem
  next => exact Tnum.contains_unknown x
/-- The interval and the tnum have nothing left to tell each other. -/
structure Reduced (s : Scalar) : Prop where
  order : s.min.toInt ≤ s.max.toInt
  low : s.tnum.signed_bounds.1.toInt ≤ s.min.toInt
  high : s.max.toInt ≤ s.tnum.signed_bounds.2.toInt
  prefixed : s.tnum.Within (hull s.min s.max)
/-- A tnum that is as wide as the interval inside the interval's prefix is cut down to the prefix, and that is all. -/
lemma normalize_eq (order : min.toInt ≤ max.toInt) (inner : t.Within T) (prefixed : t.Within (hull min max))
    (low : t.signed_bounds.1.toInt ≤ min.toInt) (high : max.toInt ≤ t.signed_bounds.2.toInt) :
    ∃ m, normalize ⟨T,min,max⟩ = some ⟨m,min,max⟩ ∧ Reduced ⟨m,min,max⟩ ∧ t.Within m := by
  have ends := t.signed_bounds_mem
  have wide {u : Tnum} (within : t.Within u) : u.signed_bounds.1.toInt ≤ min.toInt ∧ max.toInt ≤ u.signed_bounds.2.toInt := by
    have first := Tnum.signed_bounds_contains (within _ ends.1)
    have last := Tnum.signed_bounds_contains (within _ ends.2)
    omega
  have round {u m : Tnum} (within : t.Within u) (met : u.meet (hull min max) = some m) :
      normalize_round ⟨u,min,max⟩ = some ⟨m,min,max⟩ := by
    have bounds := wide within
    have least : imax min u.signed_bounds.1 = min := toInt_inj.mp (by rw [imax_toInt]; omega)
    have greatest : imin max u.signed_bounds.2 = max := toInt_inj.mp (by rw [imin_toInt]; omega)
    have := normalize_round_eq (s := ⟨u,min,max⟩) (m := m)
    simp only [least,greatest] at this
    exact this order met
  obtain ⟨m,met,_⟩ := Tnum.meet_contains (inner _ ends.1) (prefixed _ ends.1)
  have both {x : U64} : m.contains x ↔ _ := Tnum.contains_meet_iff met
  have inside : t.Within m := fun x mem => both.mpr ⟨inner x mem,prefixed x mem⟩
  -- a second round meets the same prefix again
  obtain ⟨m',met',_⟩ := Tnum.meet_contains (inside _ ends.1) (prefixed _ ends.1)
  have settled : m' = m := Tnum.Within.antisymm (fun x mem => ((Tnum.contains_meet_iff met').mp mem).1)
    (fun x mem => (Tnum.contains_meet_iff met').mpr ⟨mem,(both.mp mem).2⟩)
  refine ⟨m,?_,⟨order,(wide inside).1,(wide inside).2,fun x mem => (both.mp mem).2⟩,inside⟩
  have stop : ¬ max.toInt < min.toInt := by omega
  simp only [normalize,normalize_rounds,round inner met,round inside (settled ▸ met'),stop,if_false,ite_self]
lemma reduced_of_normalize (fixed : s.normalize = some s) : s.Reduced := by
  unfold normalize normalize_rounds at fixed
  cases round : s.normalize_round with
  | none => simp [round] at fixed
  | some next =>
    obtain ⟨low,high,order,met⟩ := normalize_round_some round
    have both {x : U64} : next.tnum.contains x ↔ _ := Tnum.contains_meet_iff met
    have least := congrArg BitVec.toInt low
    have greatest := congrArg BitVec.toInt high
    rw [imax_toInt] at least
    rw [imin_toInt] at greatest
    have same : next = s := by
      simp only [round] at fixed
      split at fixed
      · assumption
      · obtain ⟨tnum,_,_⟩ := normalize_rounds_inside 2 fixed
        rw [Scalar.mk.injEq]
        exact ⟨Tnum.Within.antisymm (fun x mem => (both.mp mem).1) tnum,toInt_inj.mp (by omega),toInt_inj.mp (by omega)⟩
    subst same
    exact ⟨order,by omega,by omega,fun x mem => (both.mp mem).2⟩
/-- `u` is `s` widened: an end that has moved is a threshold or the last value. -/
structure Grown (thresholds : List I64) (s u : Scalar) : Prop where
  tnum : s.tnum.Within u.tnum
  min : u.min = s.min ∨ u.min.toInt < s.min.toInt ∧ u.min ∈ I64_MIN :: thresholds
  max : u.max = s.max ∨ s.max.toInt < u.max.toInt ∧ u.max ∈ I64_MAX :: thresholds

lemma widen_grows (reduced : s.Reduced) (next : Scalar) (thresholds : List I64) :
    (s.widen next thresholds).Reduced ∧ Grown thresholds s (s.widen next thresholds) := by
  obtain ⟨min,isMin,_,minGrown⟩ := widened_min s next thresholds
  obtain ⟨max,isMax,_,maxGrown⟩ := widened_max s next thresholds
  have order := reduced.order
  have le : min.toInt ≤ s.min.toInt := by rcases minGrown with rfl | less <;> omega
  have ge : s.max.toInt ≤ max.toInt := by rcases maxGrown with rfl | less <;> omega
  obtain ⟨M,reached,fixed,tnum⟩ :
      ∃ M, s.widen next thresholds = ⟨M,min,max⟩ ∧ Reduced ⟨M,min,max⟩ ∧ s.tnum.Within M := by
    simp only [widen,isMin,isMax]
    split
    · -- the tnum takes in the prefix of the widened interval, and is cut back to it
      have inside (v : I64) : min.toInt ≤ v.toInt → v.toInt ≤ max.toInt → _ := hull_contains
      have first := Tnum.signed_bounds_contains (inside min le_rfl (by omega))
      have last := Tnum.signed_bounds_contains (inside max (by omega) le_rfl)
      obtain ⟨M,reached,fixed,within⟩ := normalize_eq (T := (s.tnum.join next.tnum).join (hull min max)) (by omega)
        (fun x mem => Tnum.join_contains_right _ mem) (fun x mem => mem) first.1 last.2
      exact ⟨M,congrArg (Option.getD · _) reached,fixed,
        fun x mem => within x (hull_mono le order ge x (reduced.prefixed x mem))⟩
    · next same =>
      rw [← isMin,← isMax,if_neg (fun below => same (.inl below)),if_neg (fun above => same (.inr above))]
      obtain ⟨M,reached,rest⟩ := normalize_eq (T := s.tnum.join next.tnum) order
        (fun x mem => Tnum.join_contains_left mem _) reduced.prefixed reduced.low reduced.high
      exact ⟨M,congrArg (Option.getD · _) reached,rest⟩
  rw [reached]
  exact ⟨fixed,tnum,minGrown,maxGrown⟩
/-- The ends a bound can still widen to. -/
def gap (f : I64 → Int) (last : I64) (thresholds : List I64) (v : I64) : Nat :=
  ((last :: thresholds).toFinset.filter (fun t => f t < f v)).card
lemma gap_le_of_grown (f : I64 → Int) {last v w : I64} {thresholds : List I64} (grown : w = v ∨ f w < f v ∧ w ∈ last :: thresholds) :
    gap f last thresholds w ≤ gap f last thresholds v ∧ (gap f last thresholds w = gap f last thresholds v → w = v) := by
  rcases grown with rfl | ⟨less,hit⟩
  · exact ⟨le_rfl,fun _ => rfl⟩
  · have fewer : gap f last thresholds w < gap f last thresholds v := by
      refine card_lt_card ⟨monotone_filter_right _ fun t _ below => lt_trans below less,fun more => ?_⟩
      have := more (mem_filter.mpr ⟨List.mem_toFinset.mpr hit,less⟩)
      exact lt_irrefl _ (mem_filter.mp this).2
    exact ⟨fewer.le,fun same => absurd same fewer.ne⟩
/-- The changes a chain of widenings has left: one for each end a bound can widen to and one for each known bit. -/
def room (thresholds : List I64) (s : Scalar) : Nat :=
  gap BitVec.toInt I64_MIN thresholds s.min + gap (fun v => -v.toInt) I64_MAX thresholds s.max + s.tnum.known
lemma room_le (thresholds : List I64) (s : Scalar) : room thresholds s ≤ 2 * thresholds.length + 66 := by
  have ends (f : I64 → Int) (last v : I64) : gap f last thresholds v ≤ thresholds.length + 1 :=
    (card_filter_le _ _).trans (List.toFinset_card_le _)
  have low := ends BitVec.toInt I64_MIN s.min
  have high := ends (fun v => -v.toInt) I64_MAX s.max
  have bits : s.tnum.known ≤ 64 := (card_filter_le _ _).trans_eq (card_range 64)
  unfold room
  omega
lemma Grown.room_le (grown : Grown thresholds s u) :
    room thresholds u ≤ room thresholds s ∧ (room thresholds u = room thresholds s → u = s) := by
  have tnum := grown.tnum.known_le
  have min := gap_le_of_grown BitVec.toInt grown.min
  have max := gap_le_of_grown (fun v => -v.toInt) (grown.max.imp_right fun more => ⟨neg_lt_neg more.1,more.2⟩)
  unfold room
  refine ⟨by omega,fun same => ?_⟩
  rw [Scalar.mk.injEq]
  exact ⟨tnum.2 (by omega),min.2 (by omega),max.2 (by omega)⟩
/-- A chain of widenings only grows, and changes at most that often. -/
theorem widening_chain_finite (thresholds : List I64) (s n : Nat → Scalar) (start : (s 0).normalize = some (s 0))
    (next : ∀ k, s (k + 1) = (s k).widen ((s k).join (n k)) thresholds) : (∀ k v, (s k).contains v = true → (s (k + 1)).contains v = true) ∧
      ∀ N, ((range N).filter (fun k => s (k + 1) ≠ s k)).card ≤ 65 * (2 * thresholds.length + 2) := by
  refine ⟨fun k v mem => next k ▸ widen_contains thresholds (.inl mem),fun N => ?_⟩
  have reduced (k : Nat) : (s k).Reduced := by
    induction k with
    | zero => exact reduced_of_normalize start
    | succ k earlier => exact next k ▸ (widen_grows earlier _ _).1
  have left : ((range N).filter (fun k => s (k + 1) ≠ s k)).card + room thresholds (s N) ≤ room thresholds (s 0) := by
    induction N with
    | zero => simp
    | succ N earlier =>
      have step : room thresholds (s (N + 1)) ≤ _ ∧ (_ → s (N + 1) = s N) :=
        (next N ▸ (widen_grows (reduced N) _ _).2 : Grown thresholds (s N) (s (N + 1))).room_le
      rw [range_add_one,filter_insert]
      split
      next changed =>
        have less := lt_of_le_of_ne step.1 (fun same => changed (step.2 same))
        rw [card_insert_of_notMem (by simp)]
        omega
      next => omega
  have most := room_le thresholds (s 0)
  omega
/-- A counter that starts at zero. -/
def counter : Nat → Scalar
  | 0 => constant 0#64
  | k + 1 => (counter k).widen ((counter k).join ((counter k).add (constant 1#64))) [16#64]
theorem widening_chain_counter : (∀ k v, (counter k).contains v = true → (counter (k + 1)).contains v = true) ∧
      ∀ N, ((range N).filter (fun k => counter (k + 1) ≠ counter k)).card ≤ 260 :=
  widening_chain_finite [16#64] counter (fun k => (counter k).add (constant 1#64)) (by decide +kernel) (fun _ => rfl)
end Scalar
end Narf.Bpf
