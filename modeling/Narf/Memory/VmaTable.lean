import Narf.Memory.Vma

namespace Narf.Memory
open Lib RegionPerms List Option Bool

variable {r p : Region} {rs before after ps : List Region} {lo hi : Nat} {c : Counter}

/-! ## Region lists -/
structure Region.Proper (r : Region) : Prop where
  base : r.base % PAGE = 0
  len : r.len % PAGE = 0
  pos : 0 < r.len
  user : r.stop ≤ USER_HALF_END
def Region.Backed (r : Region) : Prop := r.phys.len ≤ r.pages
/-- Proper regions in address order that do not overlap. -/
structure Orderly (rs : List Region) : Prop where
  proper : ∀ r ∈ rs, r.Proper
  apart : rs.Pairwise (fun a b => a.stop ≤ b.base)
def Region.meets (lo hi : Nat) (r : Region) : Bool := r.base < hi && lo < r.stop
lemma Region.meets_iff {r : Region} : r.meets lo hi ↔ r.base < hi ∧ lo < r.stop := by simp [meets]
lemma Region.not_meets_iff {r : Region} : r.meets lo hi = false ↔ ¬ (r.base < hi ∧ lo < r.stop) := by
  rw [← meets_iff,Bool.not_eq_true]
lemma not_meets {r : Region} (apart : r.stop ≤ lo ∨ hi ≤ r.base) : r.meets lo hi = false :=
  Region.not_meets_iff.mpr (by omega)
lemma Region.Proper.stop {r : Region} (proper : r.Proper) : r.stop % PAGE = 0 :=
  Nat.mod_eq_zero_of_dvd (dvd_add (Nat.dvd_of_mod_eq_zero proper.base) (Nat.dvd_of_mod_eq_zero proper.len))
lemma Orderly.sublist {part : List Region} (orderly : Orderly rs) (sub : part.Sublist rs) : Orderly part :=
  ⟨fun r mem => orderly.proper r (sub.subset mem),orderly.apart.sublist sub⟩
lemma orderly_append : Orderly (before ++ after) ↔ Orderly before ∧ Orderly after ∧ ∀ a ∈ before, ∀ b ∈ after, a.stop ≤ b.base := by
  constructor
  · rintro ⟨proper,apart⟩
    obtain ⟨first,second,across⟩ := pairwise_append.mp apart
    exact ⟨⟨fun r mem => proper r (mem_append_left _ mem),first⟩,
      ⟨fun r mem => proper r (mem_append_right _ mem),second⟩,across⟩
  · rintro ⟨⟨properA,apartA⟩,⟨properB,apartB⟩,across⟩
    refine ⟨?_,pairwise_append.mpr ⟨apartA,apartB,across⟩⟩
    intro r mem
    rcases mem_append.mp mem with mem | mem
    · exact properA r mem
    · exact properB r mem
lemma orderly_cons : Orderly (r :: rs) ↔ r.Proper ∧ Orderly rs ∧ ∀ b ∈ rs, r.stop ≤ b.base := by
  constructor
  · rintro ⟨proper,apart⟩
    obtain ⟨first,rest⟩ := pairwise_cons.mp apart
    exact ⟨proper r (by simp),⟨fun b mem => proper b (by simp [mem]),rest⟩,first⟩
  · rintro ⟨first,⟨proper,apart⟩,upper⟩
    refine ⟨?_,pairwise_cons.mpr ⟨upper,apart⟩⟩
    intro b mem
    rcases mem_cons.mp mem with rfl | mem
    · exact first
    · exact proper b mem
lemma Orderly.replace (orderly : Orderly (before ++ r :: after)) (pieces : Orderly ps)
    (inside : ∀ p ∈ ps, r.base ≤ p.base ∧ p.stop ≤ r.stop) : Orderly (before ++ (ps ++ after)) := by
  obtain ⟨first,rest,across⟩ := orderly_append.mp orderly
  obtain ⟨_,last,upper⟩ := orderly_cons.mp rest
  refine orderly_append.mpr ⟨first,orderly_append.mpr ⟨pieces,last,?_⟩,?_⟩
  · intro p mem b later
    exact (inside p mem).2.trans (upper b later)
  · intro a earlier b mem
    rcases mem_append.mp mem with mem | mem
    · exact (across a earlier r (by simp)).trans (inside b mem).1
    · exact across a earlier b (by simp [mem])
lemma Orderly.sum_len (orderly : Orderly rs) (floor : Nat) (above : ∀ r ∈ rs, floor ≤ r.base)
    (low : floor ≤ USER_HALF_END) : floor + (rs.map Region.len).sum ≤ USER_HALF_END := by
  induction rs generalizing floor with
  | nil => simpa using low
  | cons r rs ih =>
    obtain ⟨proper,rest,upper⟩ := orderly_cons.mp orderly
    have first := above r (by simp)
    have step := ih rest r.stop upper proper.user
    simp only [Region.stop,map_cons,sum_cons] at step ⊢
    omega
lemma base_lt_of_stop_le {a b : Region} (proper : a.Proper) (apart : a.stop ≤ b.base) : a.base < b.base := by
  have pos := proper.pos
  simp only [Region.stop] at apart
  omega
lemma Orderly.fresh (orderly : Orderly (before ++ p :: after)) : (∀ a ∈ before, a.base < p.base) ∧ ∀ b ∈ after, p.base < b.base := by
  obtain ⟨first,rest,across⟩ := orderly_append.mp orderly
  obtain ⟨proper,_,upper⟩ := orderly_cons.mp rest
  refine ⟨fun a mem => ?_,fun b mem => base_lt_of_stop_le proper (upper b mem)⟩
  exact base_lt_of_stop_le (first.proper a mem) (across a mem p (by simp))
lemma Orderly.cut (orderly : Orderly rs) (lo hi : Nat) :
    ∃ before inside after, rs = before ++ (inside ++ after) ∧ (∀ r ∈ before, r.stop ≤ lo) ∧
      rs.filter (Region.meets lo hi) = inside ∧ (∀ r ∈ inside, r.meets lo hi) ∧ ∀ r ∈ after, hi ≤ r.base := by
  induction rs with
  | nil => exact ⟨[],[],[],rfl,by simp,rfl,by simp,by simp⟩
  | cons r rs ih =>
    obtain ⟨proper,rest,upper⟩ := orderly_cons.mp orderly
    obtain ⟨before,inside,after,rfl,below,selected,meets,above⟩ := ih rest
    by_cases early : r.stop ≤ lo
    · refine ⟨r :: before,inside,after,rfl,?_,?_,meets,above⟩
      · intro x mem
        rcases mem_cons.mp mem with rfl | mem
        · exact early
        · exact below x mem
      · have not_ : r.meets lo hi = false := by simp [Region.meets]; omega
        rw [filter_cons,not_]
        exact selected
    · have noBefore : before = [] := by
        cases before with
        | nil => rfl
        | cons x xs =>
          have apart := upper x (by simp)
          have short := below x (by simp)
          simp only [Region.stop] at apart short early
          omega
      subst noBefore
      by_cases late : hi ≤ r.base
      · have noInside : inside = [] := by
          cases inside with
          | nil => rfl
          | cons x xs =>
            have apart := upper x (by simp)
            have met := meets x (by simp)
            simp only [Region.meets_iff] at met
            simp only [Region.stop] at apart
            omega
        subst noInside
        refine ⟨[],[],r :: after,rfl,by simp,?_,by simp,?_⟩
        · have not_ : r.meets lo hi = false := by simp [Region.meets]; omega
          rw [nil_append,nil_append,filter_cons,not_]
          exact selected
        · intro x mem
          rcases mem_cons.mp mem with rfl | mem
          · exact late
          · exact above x mem
      · have met : r.meets lo hi := by simp [Region.meets]; omega
        refine ⟨[],r :: inside,after,rfl,by simp,?_,?_,above⟩
        · rw [nil_append,filter_cons,met]
          exact congrArg (r :: ·) selected
        · intro x mem
          rcases mem_cons.mp mem with rfl | mem
          · exact met
          · exact meets x mem
lemma share_le (backed : r.Backed) : RegionAcct.share r c ≤ r.len := by
  have resident : r.phys.resident_count ≤ r.len := by
    have count := r.phys.resident_count_le
    simp only [Region.Backed,Region.pages,PAGE] at backed
    omega
  cases c <;> simp only [RegionAcct.share,RegionAcct.flat] <;> (try split) <;> omega
def total (rs : List Region) (c : Counter) : Nat := (rs.map (RegionAcct.share · c)).sum
@[simp] lemma total_append (before after : List Region) (c : Counter) : total (before ++ after) c = total before c + total after c := by
  simp [total]
@[simp] lemma total_cons (r : Region) (rs : List Region) (c : Counter) : total (r :: rs) c = RegionAcct.share r c + total rs c := by
  simp [total]
@[simp] lemma total_nil (c : Counter) : total [] c = 0 := rfl
lemma Orderly.sum_lens (orderly : Orderly rs) : (rs.map Region.len).sum ≤ USER_HALF_END := by
  have bound := orderly.sum_len 0 (fun r _ => Nat.zero_le _) (Nat.zero_le _)
  omega
lemma Orderly.total_le (orderly : Orderly rs) (backed : ∀ r ∈ rs, r.Backed) : total rs c ≤ USER_HALF_END := by
  refine le_trans ?_ orderly.sum_lens
  clear orderly
  induction rs with
  | nil => exact le_refl 0
  | cons r rs ih =>
    have first := share_le (c := c) (backed r (by simp))
    have rest := ih fun q mem => backed q (by simp [mem])
    simp only [total_cons,map_cons,sum_cons]
    omega
lemma saturating_add_eq {a b : Nat} (small : a + b ≤ USER_HALF_END) : saturating_add a b = a + b :=
  saturating_add_of_le (small.trans (by decide))

namespace RegionTable
variable {exact : Prop} {t t' : RegionTable}
/-- The table holds exactly the given regions, keyed by their bases. -/
structure Lists (t : RegionTable) (rs : List Region) : Prop where
  entries : t.by_base.entries = rs.map (fun r => (r.base,r))
  orderly : Orderly rs
/-- The table holds exactly the given regions; when `exact`, its backings fit and its counters are
    exact. -/
structure Shows (exact : Prop) (t : RegionTable) (rs : List Region) : Prop extends Lists t rs where
  backed : exact → ∀ r ∈ rs, r.Backed
  counted : exact → ∀ c, t.acct c = total rs c
lemma Lists.regions (shows_ : t.Lists rs) : t.regions = rs := by
  simp [RegionTable.regions,shows_.entries,Function.comp_def]
lemma shows_new (exact : Prop) : Shows exact new [] :=
  ⟨⟨rfl,⟨nofun,Pairwise.nil⟩⟩,fun _ _ mem => absurd mem not_mem_nil,fun _ _ => rfl⟩
lemma Shows.recount (shows_ : Shows exact t rs) (holds : exact) : t.acct = t.debug_recount_acct := by
  have walk : ∀ (done rest : List Region) (acct : RegionAcct), Orderly (done ++ rest) →
      (∀ r ∈ done ++ rest, r.Backed) → (∀ c, acct c = total done c) → ∀ c, (rest.foldl RegionAcct.add_region acct) c = total (done ++ rest) c := by
    intro done rest
    induction rest generalizing done with
    | nil =>
      intro acct _ _ start c
      rw [foldl_nil,append_nil]
      exact start c
    | cons r rest ih =>
      intro acct orderly backed start c
      have parts : done ++ r :: rest = (done ++ [r]) ++ rest := by simp
      rw [foldl_cons,parts]
      rw [parts] at orderly backed
      refine ih (done ++ [r]) _ orderly backed ?_ c
      intro c
      have small : total (done ++ [r]) c ≤ USER_HALF_END :=
        (orderly_append.mp orderly).1.total_le (fun q mem => backed q (mem_append_left _ mem))
      rw [total_append,total_cons,total_nil,add_zero] at small ⊢
      rw [RegionAcct.add_region,start,saturating_add_eq small]
  funext c
  rw [shows_.counted holds,debug_recount_acct,shows_.regions]
  exact (walk [] rs _ shows_.orderly (shows_.backed holds) (fun _ => rfl) c).symm
lemma Shows.reserve (shows_ : Shows exact t rs) (k : Nat) : Shows exact (t.try_reserve_nodes k) rs :=
  ⟨⟨shows_.entries,shows_.orderly⟩,shows_.backed,shows_.counted⟩
section Primitives

lemma get_of_mem (lists : t.Lists rs) (mem : r ∈ rs) : t.get r.base = some r := by
  refine (lookup_eq_some_iff t.by_base.sorted).mpr ?_
  rw [lists.entries]
  exact mem_map.mpr ⟨r,mem,rfl⟩
lemma mem_of_get {base : Nat} (lists : t.Lists rs) (found : t.get base = some r) : r ∈ rs ∧ r.base = base := by
  have mem := (lookup_eq_some_iff t.by_base.sorted).mp found
  rw [lists.entries] at mem
  obtain ⟨q,inside,equal⟩ := mem_map.mp mem
  cases equal
  exact ⟨inside,rfl⟩
lemma publish_spec (shows_ : Shows exact t (before ++ after)) (orderly : Orderly (before ++ p :: after))
    (backed : exact → p.Backed) (ready : 0 < t.spare) :
    ∃ t', t.publish p = some t' ∧ Shows exact t' (before ++ p :: after) ∧ t'.spare = t.spare - 1 ∧ t'.future_lock = t.future_lock := by
  obtain ⟨under,upper⟩ := Orderly.fresh orderly
  have missing : t.get p.base = none := by
    refine lookup_eq_none_iff.mpr ?_
    rw [shows_.entries]
    rintro e mem
    obtain ⟨r,inside,rfl⟩ := mem_map.mp mem
    rcases mem_append.mp inside with inside | inside
    · exact (under r inside).ne
    · exact (upper r inside).ne'
  refine ⟨{ t with
    by_base := t.by_base.insert p.base p, acct := t.acct.add_region p, spare := t.spare - 1 },?_,⟨⟨?_,orderly⟩,?_,?_⟩,rfl,rfl⟩
  · have some_ : t.spare ≠ 0 := by omega
    simp [publish,insert_reserved,missing,some_]
  · simp only [SortedMap.insert,shows_.entries,map_append,map_cons]
    refine insertEntry_between p ?_ ?_
    · rintro e mem
      obtain ⟨r,inside,rfl⟩ := mem_map.mp mem
      exact under r inside
    · rintro e mem
      obtain ⟨r,inside,rfl⟩ := mem_map.mp mem
      exact upper r inside
  · intro holds r mem
    rcases mem_append.mp mem with mem | mem
    · exact shows_.backed holds r (by simp [mem])
    · rcases mem_cons.mp mem with rfl | mem
      · exact backed holds
      · exact shows_.backed holds r (by simp [mem])
  · intro holds c
    have old := shows_.backed holds
    have small := orderly.total_le (c := c) (by
      intro r mem
      rcases mem_append.mp mem with mem | mem
      · exact old r (by simp [mem])
      · rcases mem_cons.mp mem with rfl | mem
        · exact backed holds
        · exact old r (by simp [mem]))
    have before_ := shows_.counted holds c
    simp only [total_append,total_cons] at small before_ ⊢
    rw [RegionAcct.add_region,before_,saturating_add_eq (by omega)]
    omega
lemma publish_all_spec (shows_ : Shows exact t (before ++ after)) (orderly : Orderly (before ++ (ps ++ after)))
    (backed : exact → ∀ p ∈ ps, p.Backed) (ready : ps.length ≤ t.spare) :
    ∃ t', t.publish_all ps = some t' ∧ Shows exact t' (before ++ (ps ++ after)) ∧
      t'.spare = t.spare - ps.length ∧ t'.future_lock = t.future_lock := by
  induction ps generalizing t before with
  | nil => exact ⟨t,rfl,shows_,rfl,rfl⟩
  | cons p ps ih =>
    have kept : Orderly (before ++ p :: after) := orderly.sublist (by
      refine Sublist.append_left ?_ before
      exact Sublist.cons_cons p (sublist_append_right ps after))
    rw [length_cons] at ready
    obtain ⟨t₁,first,shows₁,spare₁,lock₁⟩ := publish_spec shows_ kept (fun holds => backed holds p (by simp)) (by omega)
    have parts (l : List Region) : before ++ p :: l = (before ++ [p]) ++ l := by simp
    rw [parts] at shows₁
    rw [cons_append,parts] at orderly
    obtain ⟨t₂,rest,shows₂,spare₂,lock₂⟩ := ih shows₁ orderly (fun holds q mem => backed holds q (by simp [mem])) (by omega)
    refine ⟨t₂,?_,?_,?_,lock₂.trans lock₁⟩
    · simp only [publish_all,foldlM_cons,bind_eq_bind,first,bind_some]
      exact rest
    · rw [cons_append,parts]
      exact shows₂
    · rw [spare₂,spare₁,length_cons]
      omega
lemma remove_spec (shows_ : Shows exact t (before ++ p :: after)) :
    ∃ t', t.remove p.base = some (t',p) ∧ Shows exact t' (before ++ after) ∧ t'.spare = t.spare + 1 ∧ t'.future_lock = t.future_lock := by
  have found := get_of_mem shows_.toLists (r := p) (by simp)
  refine ⟨{ t with
    by_base := t.by_base.erase p.base, acct := t.acct.sub_region p, spare := t.spare + 1 },by simp [remove,found],
    ⟨⟨?_,?_⟩,?_,?_⟩,rfl,rfl⟩
  · have sorted := t.by_base.sorted
    rw [shows_.entries,map_append,map_cons] at sorted
    simp only [SortedMap.erase,shows_.entries,map_append,map_cons]
    exact eraseEntry_self sorted
  · exact shows_.orderly.sublist (Sublist.append_left (sublist_cons_self p after) before)
  · intro holds r mem
    refine shows_.backed holds r ?_
    rcases mem_append.mp mem with mem | mem
    · simp [mem]
    · simp [mem]
  · intro holds c
    have before_ := shows_.counted holds c
    simp only [total_append,total_cons] at before_ ⊢
    rw [RegionAcct.sub_region,before_]
    omega
lemma remove_all_spec {gone : List Region} (shows_ : Shows exact t (before ++ (gone ++ after))) :
    ∃ t', t.remove_all (gone.map Region.base) = some t' ∧ Shows exact t' (before ++ after) ∧
      t'.spare = t.spare + gone.length ∧ t'.future_lock = t.future_lock := by
  induction gone generalizing t with
  | nil => exact ⟨t,rfl,shows_,rfl,rfl⟩
  | cons g gone ih =>
    obtain ⟨t₁,first,shows₁,spare₁,lock₁⟩ := remove_spec shows_
    obtain ⟨t₂,rest,shows₂,spare₂,lock₂⟩ := ih shows₁
    refine ⟨t₂,?_,shows₂,?_,lock₂.trans lock₁⟩
    · simp only [map_cons,remove_all,first,bind_eq_bind,bind_some]
      exact rest
    · rw [spare₂,spare₁,length_cons]
      omega
lemma update_spec (change : Region → Region) (lists : t.Lists (before ++ p :: after))
    (base : (change p).base = p.base) (orderly : Orderly (before ++ change p :: after)) :
    ∃ t', t.update p.base change = some t' ∧ t'.Lists (before ++ change p :: after) ∧
      t'.acct = t.acct ∧ t'.future_lock = t.future_lock := by
  have found := get_of_mem lists (r := p) (by simp)
  refine ⟨{ t with by_base := t.by_base.insert p.base (change p) },by simp [update,found],⟨?_,orderly⟩,rfl,rfl⟩
  have sorted := t.by_base.sorted
  rw [lists.entries,map_append,map_cons] at sorted
  simp only [SortedMap.insert,lists.entries,map_append,map_cons,base]
  exact insertEntry_self sorted
end Primitives

/-! ## The regions that meet a range -/
section Overlap

lemma map_filter_key (rs : List Region) (q : Nat → Bool) :
    ((rs.map (fun r => (r.base,r))).filter (q ·.1)).map Prod.snd = rs.filter (q ·.base) := by
  rw [List.filter_map,List.map_map]
  exact map_id _
section
variable (lists : t.Lists rs)
include lists
lemma range_spec (lo hi : Nat) : t.range lo hi = rs.filter (fun r => lo ≤ r.base && r.base < hi) := by
  have step := map_filter_key rs fun k => lo ≤ k && k < hi
  rw [range,SortedMap.range,lists.entries,← step]
  congr 2
  funext e
  simp
variable {q : Nat → Bool} {base : Nat}
/-- The last region based at or below an address, or below it, cuts the list. -/
lemma predecessor_cut (found : (lastWhere q t.by_base.entries).map Prod.snd = some p) :
    ∃ before after, rs = before ++ p :: after ∧ q p.base ∧ ∀ b ∈ after, q b.base = false := by
  obtain ⟨e,last,rfl⟩ := map_eq_some_iff.mp found
  obtain ⟨front,back,cut,takes,rest⟩ := lastWhere_split last
  rw [lists.entries] at cut
  obtain ⟨before,tail,rfl,rfl,second⟩ := map_eq_append_iff.mp cut
  obtain ⟨p,after,rfl,rfl,rfl⟩ := map_eq_cons_iff.mp second
  refine ⟨before,after,rfl,takes,?_⟩
  intro b mem
  exact rest (b.base,b) (mem_map.mpr ⟨b,mem,rfl⟩)
lemma predecessor_none (missing : (lastWhere q t.by_base.entries).map Prod.snd = none) : ∀ r ∈ rs, q r.base = false := by
  intro r mem
  have absent := lastWhere_eq_none (map_eq_none_iff.mp missing) (r.base,r)
  rw [lists.entries] at absent
  exact absent (mem_map.mpr ⟨r,mem,rfl⟩)
/-- Where no region contains an address, the regions below it end below it. -/
lemma stop_le_of_containing_none {address : Nat} (missing : t.containing address = none)
    (mem : p ∈ rs) (low : p.base ≤ address) : p.stop ≤ address := by
  cases found : t.predecessor_or_equal address with
  | none =>
    have absent := predecessor_none lists found p mem
    exact absurd low (by simpa using absent)
  | some last =>
    obtain ⟨before,after,rfl,_,rest⟩ := predecessor_cut lists found
    have short : last.stop ≤ address := by simpa [containing,found] using missing
    obtain ⟨_,tail,across⟩ := orderly_append.mp lists.orderly
    rcases mem_append.mp mem with early | late
    · have under := across p early last (by simp)
      have pos := (lists.orderly.proper last (by simp)).pos
      simp only [Region.stop] at *
      omega
    · rcases mem_cons.mp late with rfl | later
      · exact short
      · exact absurd low (by simpa using rest p later)
lemma successor_cut (found : t.successor base = some p) : p ∈ rs ∧ base ≤ p.base ∧ ∀ r ∈ rs, base ≤ r.base → p.base ≤ r.base := by
  obtain ⟨e,first,rfl⟩ := map_eq_some_iff.mp found
  obtain ⟨front,back,cut,takes,rest⟩ := firstWhere_split first
  rw [lists.entries] at cut
  obtain ⟨before,tail,rfl,rfl,second⟩ := map_eq_append_iff.mp cut
  obtain ⟨p,after,rfl,rfl,rfl⟩ := map_eq_cons_iff.mp second
  refine ⟨by simp,by simpa using takes,?_⟩
  intro r mem low
  rcases mem_append.mp mem with mem | mem
  · have refused := rest (r.base,r) (mem_map.mpr ⟨r,mem,rfl⟩)
    simp only [decide_eq_false_iff_not] at refused
    omega
  · rcases mem_cons.mp mem with rfl | mem
    · exact le_rfl
    · exact ((Orderly.fresh lists.orderly).2 r mem).le
lemma successor_none (missing : t.successor base = none) : ∀ r ∈ rs, r.base < base := by
  intro r mem
  have absent := firstWhere_eq_none (map_eq_none_iff.mp missing) (r.base,r)
  rw [lists.entries] at absent
  simpa using absent (mem_map.mpr ⟨r,mem,rfl⟩)
end
/-- With a region found at or below `lo` that reaches past it, the regions from its base on are
    those that reach past `lo`; without one, the regions based at or above `lo` are. -/
lemma meets_of_cut (orderly : Orderly (before ++ p :: after)) (low : p.base ≤ lo)
    (above : ∀ b ∈ after, lo ≤ b.base) (reaches : lo < p.stop) (r : Region)
    (mem : r ∈ before ++ p :: after) : p.base ≤ r.base ↔ lo < r.stop := by
  obtain ⟨first,rest,across⟩ := orderly_append.mp orderly
  obtain ⟨proper,last,upper⟩ := orderly_cons.mp rest
  rcases mem_append.mp mem with mem | mem
  · have apart := across r mem p (by simp)
    have pos := (first.proper r mem).pos
    simp only [Region.stop] at apart ⊢
    omega
  · rcases mem_cons.mp mem with rfl | mem
    · exact ⟨fun _ => reaches,fun _ => le_rfl⟩
    · have apart := upper r mem
      have pos := (last.proper r mem).pos
      have low' := above r mem
      simp only [Region.stop] at apart ⊢
      omega
lemma meets_of_no_reach (orderly : Orderly rs) (none_ : ∀ r ∈ rs, r.base < lo → r.stop ≤ lo) (r : Region)
    (mem : r ∈ rs) : lo ≤ r.base ↔ lo < r.stop := by
  have pos := (orderly.proper r mem).pos
  have short := none_ r mem
  simp only [Region.stop] at short ⊢
  omega
/-- A region that ends at or before `lo` cuts off everything before it. -/
lemma no_reach_of_cut (orderly : Orderly (before ++ p :: after)) (short : p.stop ≤ lo)
    (above : ∀ b ∈ after, lo ≤ b.base) : ∀ r ∈ before ++ p :: after, r.base < lo → r.stop ≤ lo := by
  obtain ⟨_,rest,across⟩ := orderly_append.mp orderly
  obtain ⟨proper,_,_⟩ := orderly_cons.mp rest
  have pos := proper.pos
  intro r mem low
  rcases mem_append.mp mem with mem | mem
  · have apart := across r mem p (by simp)
    simp only [Region.stop] at apart short ⊢
    omega
  · rcases mem_cons.mp mem with rfl | mem
    · exact short
    · exact absurd (above r mem) (by omega)
lemma filter_meets_eq {start : Nat} (same : ∀ r ∈ rs, start ≤ r.base ↔ lo < r.stop) :
    rs.filter (fun r => start ≤ r.base && r.base < hi) = rs.filter (Region.meets lo hi) := by
  refine filter_congr fun r mem => ?_
  have agree := same r mem
  by_cases first : lo < r.stop
  · simp [Region.meets,first,agree.mpr first]
  · have early : ¬ start ≤ r.base := fun le => first (agree.mp le)
    simp [Region.meets,first,early]
lemma overlapping_spec (lists : t.Lists rs) (lo hi : Nat) : t.overlapping lo hi = rs.filter (Region.meets lo hi) := by
  rw [overlapping,range_spec lists,overlap_start]
  cases found : t.predecessor_or_equal lo with
  | none =>
    have absent := predecessor_none lists found
    simp only [Option.filter_none]
    refine filter_meets_eq (meets_of_no_reach lists.orderly (fun r mem low => ?_))
    exact absurd (by omega) (of_decide_eq_false (absent r mem))
  | some p =>
    obtain ⟨before,after,rfl,low,above⟩ := predecessor_cut lists found
    simp only [decide_eq_true_eq,decide_eq_false_iff_not,not_le] at low above
    have upper : ∀ b ∈ after, lo ≤ b.base := fun b mem => (above b mem).le
    by_cases reaches : lo < p.stop
    · simp only [filter_some,reaches,decide_true,if_true]
      exact filter_meets_eq (meets_of_cut lists.orderly low upper reaches)
    · simp only [filter_some,reaches,decide_false,false_eq_true,if_false]
      exact filter_meets_eq (meets_of_no_reach lists.orderly (no_reach_of_cut lists.orderly (by omega) upper))
lemma sweep_start_spec (lists : t.Lists rs) (lo : Nat) : ∀ r ∈ rs, t.sweep_start lo ≤ r.base ↔ lo < r.stop := by
  rw [sweep_start]
  cases found : t.predecessor lo with
  | none =>
    have absent := predecessor_none lists found
    simp only [Option.filter_none]
    refine meets_of_no_reach lists.orderly fun r mem low => ?_
    exact absurd (by omega) (of_decide_eq_false (absent r mem))
  | some p =>
    obtain ⟨before,after,rfl,low,above⟩ := predecessor_cut lists found
    simp only [decide_eq_true_eq,decide_eq_false_iff_not,not_lt] at low above
    by_cases reaches : lo < p.stop
    · simp only [filter_some,reaches,decide_true,if_true]
      exact meets_of_cut lists.orderly low.le above reaches
    · simp only [filter_some,reaches,decide_false,false_eq_true,if_false]
      exact meets_of_no_reach lists.orderly (no_reach_of_cut lists.orderly (by omega) above)
lemma visited_spec (lists : t.Lists rs) (le : lo ≤ hi) : t.visited lo hi = rs.filter (Region.meets lo hi) := by
  rw [visited,range_spec lists]
  cases found : t.predecessor lo with
  | none =>
    have absent := predecessor_none lists found
    refine filter_meets_eq (meets_of_no_reach lists.orderly (fun r mem low => ?_))
    exact absurd (by omega) (of_decide_eq_false (absent r mem))
  | some p =>
    obtain ⟨before,after,rfl,low,above⟩ := predecessor_cut lists found
    simp only [decide_eq_true_eq,decide_eq_false_iff_not,not_lt] at low above
    by_cases reaches : lo < p.stop
    · obtain ⟨first,rest,across⟩ := orderly_append.mp lists.orderly
      have same := meets_of_cut lists.orderly low.le above reaches
      -- nothing before the predecessor reaches the range, everything after it starts past `lo`
      have noneFront : before.filter (Region.meets lo hi) = [] := by
        refine filter_eq_nil_iff.mpr fun r mem meets => ?_
        have apart := across r mem p (by simp)
        simp only [Region.meets_iff] at meets
        omega
      have noneFront' : before.filter (fun r => decide (lo ≤ r.base) && decide (r.base < hi)) = [] := by
        refine filter_eq_nil_iff.mpr fun r mem inside => ?_
        have apart := across r mem p (by simp)
        have pos := (first.proper r mem).pos
        simp only [and_eq_true,decide_eq_true_eq] at inside
        simp only [Region.stop] at apart
        omega
      have back : after.filter (fun r => decide (lo ≤ r.base) && decide (r.base < hi)) =
          after.filter (Region.meets lo hi) := by
        refine filter_congr fun r mem => ?_
        have far := above r mem
        have past : lo < r.stop := (same r (by simp [mem])).mp (by omega)
        simp [Region.meets,far,past]
      have here : Region.meets lo hi p := by
        simp only [Region.meets_iff]
        exact ⟨by omega,reaches⟩
      have notLow : ¬ lo ≤ p.base := by omega
      simp [filter_some,reaches,filter_append,noneFront,noneFront',back,here,notLow]
    · have same := meets_of_no_reach lists.orderly (no_reach_of_cut lists.orderly (by omega) above)
      simp only [filter_some,reaches,decide_false,false_eq_true,if_false,toList_none,nil_append]
      exact filter_meets_eq same
end Overlap
end RegionTable
end Narf.Memory
