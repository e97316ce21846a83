import Narf.Memory.RegionTree

namespace Narf.Memory.RegionIndex
open Lib Lib.SearchTree
open List hiding lookup

variable {V : Type} {m m' m₁ m₂ : RegionIndex V} {i j gone key : Nat} {n : Node V} {value : V}
  {t l r : SearchTree Nat (Nat × V)} {e : Nat × V} {touched more : List Nat}

/-- A stored search tree: no place twice, balanced, keys in order. -/
structure Tidy (m : RegionIndex V) (t : SearchTree Nat (Nat × V)) : Prop where
  holds : m.Holds t
  nodup : t.places.Nodup
  balanced : t.Balanced
  sorted : Sorted t.entries
lemma Tidy.spread (tidy : m.Tidy (.node i l e r)) : Spread i l r := spread_iff.mp tidy.nodup
lemma Tidy.left (tidy : m.Tidy (.node i l e r)) : m.Tidy l :=
  ⟨tidy.holds.2.1,tidy.spread.nodupL,tidy.balanced.2.2.1,(sorted_node.mp tidy.sorted).1⟩
lemma Tidy.right (tidy : m.Tidy (.node i l e r)) : m.Tidy r :=
  ⟨tidy.holds.2.2,tidy.spread.nodupR,tidy.balanced.2.2.2,(sorted_node.mp tidy.sorted).2.1⟩
lemma size_le (holds : m.Holds t) (nodup : t.places.Nodup) : t.size ≤ m.slots.length := by
  have sub : t.places ⊆ List.range m.slots.length := fun i mem => mem_range.mpr (lt_of_holds holds i mem)
  have bound := (nodup.subperm sub).length_le
  rwa [length_places,length_range] at bound
variable {h : Nat} {old : Option Nat} {rest : List Nat}
lemma relink (change : Node V → Node V) (at_i : m.node i = some n) (changed : ∃ h, change n = ⟨e.1,e.2,l.link,r.link,h⟩)
    (holdsL : m.Holds l) (holdsR : m.Holds r) (spread : Spread i l r) (balancedL : l.Balanced) (balancedR : r.Balanced)
    (lr : l.height ≤ r.height + 2) (rl : r.height ≤ l.height + 2) (smallL : l.height ≤ 250) (smallR : r.height ≤ 250) :
    ∃ m₁ m' p t, m.node_mut i change = some m₁ ∧ m₁.rebalance i = some (m',p) ∧ t.link = some p ∧ m'.Holds t ∧ Levelled i l e r t ∧
      Rewired m m' (places (.node i l e r)) := by
  obtain ⟨m₁,linked,rooted,rewired₁⟩ := node_mut_rooted change at_i changed holdsL holdsR spread.rootL spread.rootR
  obtain ⟨m',p,t,settled,link,holds,levelled,rewired₂⟩ := rebalance_spec rooted
    (spread_iff.mpr spread) balancedL balancedR lr rl smallL smallR
  exact ⟨m₁,m',p,t,linked,settled,link,holds,levelled,(rewired₁.mono (by simp)).trans rewired₂⟩
/-- What inserting a new node at place `j` makes of a tree. -/
structure Grafted (m m' : RegionIndex V) (j key : Nat) (value : V) (t t' : SearchTree Nat (Nat × V)) : Prop where
  tidy : m'.Tidy t'
  entries : t'.entries = insertEntry t.entries key value
  places : t'.places.Perm (j :: t.places)
  rewired : Rewired m m' (j :: t.places)
  low : t.height ≤ t'.height
  high : t'.height ≤ t.height + 1
variable (fuel : Nat)
lemma insert_index_spec (tidy : m.Tidy t) (enough : t.height ≤ fuel)
    (small : t.height ≤ 249) (at_j : m.node j = some (.new key value)) (fresh : j ∉ t.places)
    (absent : ∀ e ∈ t.entries, e.1 ≠ key) : ∃ m' p t', insert_index j fuel m t.link = some (m',p) ∧ t'.link = some p ∧
      Grafted m m' j key value t t' := by
  induction t generalizing m fuel with
  | leaf =>
    refine ⟨m,j,.node j .leaf (key,value) .leaf,by simp [insert_index],rfl,?_⟩
    refine ⟨⟨⟨at_j,trivial,trivial⟩,by simp,by simp [SearchTree.Balanced],?_⟩,rfl,Perm.refl _,Rewired.refl _ _,by simp,by simp⟩
    simp [Sorted]
  | node i l e r ihL ihR =>
    simp only [height_node] at enough small
    obtain _ | fuel := fuel
    · omega
    obtain ⟨lr,rl,balancedL,balancedR⟩ := tidy.balanced
    have spread := tidy.spread
    have at_i := tidy.holds.1
    simp only [places_node,mem_cons,mem_append,not_or] at fresh
    obtain ⟨jRoot,jL,jR⟩ := fresh
    by_cases before : key < e.1
    · obtain ⟨m₁,c,l',inserted,link,grafted⟩ := ihL fuel tidy.left (by omega) (by omega) at_j jL
        (fun a mem => absent a (by simp [mem]))
      have low := grafted.low
      have high := grafted.high
      have at_i₁ := (grafted.rewired.node (i := i) (by simp [spread.rootL,Ne.symm jRoot])).trans at_i
      have holdsR₁ : m₁.Holds r := grafted.rewired.holds tidy.holds.2.2 (by
        intro a mem inside
        rcases mem_cons.mp inside with rfl | inside
        · exact jR mem
        · exact spread.apart a inside mem)
      have places : (SearchTree.node i l' e r).places.Perm (j :: (SearchTree.node i l e r).places) := by
        refine (Perm.cons i (grafted.places.append_right _)).trans ?_
        exact Perm.swap j i _
      have nodup : (SearchTree.node i l' e r).places.Nodup :=
        places.nodup_iff.mpr (nodup_cons.mpr ⟨by simp [jRoot,jL,jR],tidy.nodup⟩)
      obtain ⟨m₂,m',p,t',linked,settled,link',holds,levelled,rewired⟩ := relink (fun n => { n with left := l'.link }) at_i₁ ⟨_,rfl⟩
        grafted.tidy.holds holdsR₁ (spread_iff.mp nodup) grafted.tidy.balanced balancedR
        (by omega) (by omega) (by omega) (by omega)
      have entries : t'.entries = insertEntry (l.entries ++ e :: r.entries) key value := by
        rw [levelled.entries,grafted.entries,insertEntry_left tidy.sorted before]
      refine ⟨m',p,t',?_,link',⟨holds,levelled.places.nodup_iff.mpr nodup,levelled.balanced,?_⟩,
        entries,levelled.places.trans places,?_,?_,?_⟩
      · rw [link] at linked
        simp [insert_index,at_j,at_i,Node.new,before,inserted,linked,settled]
      · rw [entries]
        exact Sorted.insertEntry tidy.sorted key value
      · refine (grafted.rewired.mono ?_).trans (rewired.mono (fun a mem => places.mem_iff.mp mem))
        intro a mem
        rcases mem_cons.mp mem with rfl | mem
        · simp
        · simp [mem]
      all_goals
        have level := levelled.level
        have low' := levelled.low
        have high' := levelled.high
        simp only [height_node]
        omega
    · have after : e.1 < key := lt_of_le_of_ne (not_lt.mp before) (absent e (by simp))
      obtain ⟨m₁,c,r',inserted,link,grafted⟩ := ihR fuel tidy.right (by omega) (by omega) at_j jR
        (fun a mem => absent a (by simp [mem]))
      have low := grafted.low
      have high := grafted.high
      have at_i₁ := (grafted.rewired.node (i := i) (by simp [spread.rootR,Ne.symm jRoot])).trans at_i
      have holdsL₁ : m₁.Holds l := grafted.rewired.holds tidy.holds.2.1 (by
        intro a mem inside
        rcases mem_cons.mp inside with rfl | inside
        · exact jL mem
        · exact spread.apart a mem inside)
      have places : (SearchTree.node i l e r').places.Perm (j :: (SearchTree.node i l e r).places) := by
        refine (Perm.cons i ((grafted.places.append_left _).trans perm_middle)).trans ?_
        exact Perm.swap j i _
      have nodup : (SearchTree.node i l e r').places.Nodup :=
        places.nodup_iff.mpr (nodup_cons.mpr ⟨by simp [jRoot,jL,jR],tidy.nodup⟩)
      obtain ⟨m₂,m',p,t',linked,settled,link',holds,levelled,rewired⟩ := relink (fun n => { n with right := r'.link }) at_i₁ ⟨_,rfl⟩
        holdsL₁ grafted.tidy.holds (spread_iff.mp nodup) balancedL grafted.tidy.balanced
        (by omega) (by omega) (by omega) (by omega)
      have entries : t'.entries = insertEntry (l.entries ++ e :: r.entries) key value := by
        rw [levelled.entries,grafted.entries,insertEntry_right tidy.sorted after]
      refine ⟨m',p,t',?_,link',⟨holds,levelled.places.nodup_iff.mpr nodup,levelled.balanced,?_⟩,
        entries,levelled.places.trans places,?_,?_,?_⟩
      · rw [link] at linked
        simp [insert_index,at_j,at_i,Node.new,before,inserted,linked,settled]
      · rw [entries]
        exact Sorted.insertEntry tidy.sorted key value
      · refine (grafted.rewired.mono ?_).trans (rewired.mono (fun a mem => places.mem_iff.mp mem))
        intro a mem
        rcases mem_cons.mp mem with rfl | mem
        · simp
        · simp [mem]
      all_goals
        have level := levelled.level
        have low' := levelled.low
        have high' := levelled.high
        simp only [height_node]
        omega
/-- One slot went to the head of the free list; otherwise only the touched places changed. -/
structure Retired (m m' : RegionIndex V) (gone : Nat) (touched : List Nat) : Prop where
  fields : m' = { m with slots := m'.slots, free_head := some gone, free_len := m.free_len + 1 }
  length : m'.slots.length = m.slots.length
  vacated : m'.slots[gone]? = some (.Vacant m.free_head)
  kept : ∀ i, i ∉ touched → m'.slots[i]? = m.slots[i]?
lemma Retired.trans_rewired (retired : Retired m m₁ gone touched)
    (rewired : Rewired m₁ m₂ rest) (outside : gone ∉ rest) (sub : ∀ i ∈ touched, i ∈ more)
    (subRest : ∀ i ∈ rest, i ∈ more) : Retired m m₂ gone more := by
  refine ⟨?_,rewired.length.trans retired.length,(rewired.kept gone outside).trans retired.vacated,?_⟩
  · rw [rewired.fields,retired.fields]
  · intro i out
    rw [rewired.kept i (fun inside => out (subRest i inside)),retired.kept i (fun inside => out (sub i inside))]
lemma Rewired.trans_retired (rewired : Rewired m m₁ rest) (retired : Retired m₁ m₂ gone touched) (sub : ∀ i ∈ touched, i ∈ more)
    (subRest : ∀ i ∈ rest, i ∈ more) : Retired m m₂ gone more := by
  refine ⟨?_,retired.length.trans rewired.length,?_,?_⟩
  · rw [retired.fields,rewired.fields]
  · rw [retired.vacated,rewired.fields]
  · intro i out
    rw [retired.kept i (fun inside => out (sub i inside)),rewired.kept i (fun inside => out (subRest i inside))]
lemma Retired.holds (retired : Retired m m' gone touched) (holds : m.Holds t) (apart : ∀ i ∈ t.places, i ∉ touched) : m'.Holds t :=
  holds.congr (fun i mem => retired.kept i (apart i mem))
lemma Retired.node (retired : Retired m m' gone touched) (outside : i ∉ touched) : m'.node i = m.node i :=
  node_congr (retired.kept i outside)
lemma retire_slot_spec (at_i : m.node i = some n) : ∃ m', m.retire_slot i = some (m',n.value) ∧ Retired m m' i [i] := by
  have slot := slot_of_node at_i
  refine ⟨_,by rw [retire_slot,slot],rfl,by simp,by simp [lt_of_node at_i],?_⟩
  intro j outside
  have other : i ≠ j := fun same => outside (mem_singleton.mpr same.symm)
  simp [getElem?_set_ne other]
lemma leftmost_spec (holds : m.Holds t) (nodup : t.places.Nodup) (link : t.link = some i)
    (enough : t.height ≤ fuel) : ∃ q first rest n, m.leftmost fuel i = some q ∧ q ∈ t.places ∧ t.entries = first :: rest ∧
      m.node q = some n ∧ (n.key,n.value) = first ∧ ∀ (m' : RegionIndex V) (new : Nat × V),
        (∀ j ∈ t.places, j ≠ q → m'.slots[j]? = m.slots[j]?) →
        m'.node q = some { n with key := new.1, value := new.2 } → m'.Holds (t.setFirst new) := by
  induction t generalizing i fuel with
  | leaf => simp at link
  | node p l e r ihL _ =>
    obtain rfl : p = i := by simpa using link
    obtain ⟨at_p,holdsL,holdsR⟩ := holds
    have spread := spread_iff.mp nodup
    simp only [height_node] at enough
    obtain _ | fuel := fuel
    · omega
    cases l with
    | leaf =>
      refine ⟨p,e,r.entries,_,by simp [leftmost,at_p],by simp,rfl,at_p,rfl,?_⟩
      intro m' new same at_q
      refine ⟨at_q,trivial,holdsR.congr (fun j mem => same j (by simp [mem]) ?_)⟩
      rintro rfl
      exact spread.rootR mem
    | node c a x b =>
      obtain ⟨q,first,rest,n,found,inside,cut,at_q,named,change⟩ :=
        ihL fuel holdsL spread.nodupL rfl (by omega)
      refine ⟨q,first,rest ++ e :: r.entries,n,by simp [leftmost,at_p,found],
        mem_cons_of_mem _ (mem_append_left _ inside),by rw [entries_node,cut]; rfl,at_q,named,?_⟩
      intro m' new same at_q'
      have notRoot : p ≠ q := fun equal => spread.rootL (equal ▸ inside)
      refine ⟨?_,change m' new ?_ at_q',holdsR.congr ?_⟩
      · have height : ((SearchTree.node c a x b).setFirst new).height = (SearchTree.node c a x b).height :=
          height_setFirst _ _
        rw [node_congr (same p (by simp) notRoot),at_p]
        simp [link_setFirst,height_node p,height]
      · intro j mem other
        exact same j (mem_cons_of_mem _ (mem_append_left _ mem)) other
      · intro j mem
        refine same j (mem_cons_of_mem _ (mem_append_right _ mem)) ?_
        rintro rfl
        exact spread.apart j inside mem
lemma remove_index_missing (tidy : m.Tidy t) (enough : t.height ≤ fuel)
    (missing : lookup t.entries key = none) : remove_index key fuel m t.link = some (m,t.link,none) := by
  induction t generalizing fuel with
  | leaf => simp [remove_index]
  | node i l e r ihL ihR =>
    simp only [height_node] at enough
    obtain _ | fuel := fuel
    · omega
    rcases lt_trichotomy key e.1 with before | rfl | after
    · rw [entries_node,lookup_left tidy.sorted before] at missing
      simp [remove_index,tidy.holds.1,before,ihL fuel tidy.left (by omega) missing]
    · rw [entries_node,lookup_self tidy.sorted] at missing
      exact absurd missing (by simp)
    · rw [entries_node,lookup_right tidy.sorted after] at missing
      simp [remove_index,tidy.holds.1,after.not_gt,after,ihR fuel tidy.right (by omega) missing]

structure Pruned (m m' : RegionIndex V) (key gone : Nat) (t t' : SearchTree Nat (Nat × V)) : Prop where
  tidy : m'.Tidy t'
  entries : t'.entries = eraseEntry t.entries key
  places : t.places.Perm (gone :: t'.places)
  retired : Retired m m' gone t.places
  low : t.height ≤ t'.height + 1
  high : t'.height ≤ t.height

lemma pruned_root (tidy : m.Tidy (.node i l e r)) (only : l = .leaf ∧ t = r ∨ r = .leaf ∧ t = l)
    (retired : Retired m m' i [i]) : Pruned m m' e.1 i (.node i l e r) t := by
  have spread := tidy.spread
  obtain ⟨lr,rl,_,_⟩ := tidy.balanced
  have erased := eraseEntry_self tidy.sorted
  have within : Retired m m' i (places (.node i l e r)) :=
    ⟨retired.fields,retired.length,retired.vacated,fun j out => retired.kept j (fun inside =>
      out (by simp [mem_singleton.mp inside]))⟩
  rcases only with ⟨rfl,rfl⟩ | ⟨rfl,rfl⟩
  · refine ⟨⟨retired.holds tidy.holds.2.2 ?_,spread.nodupR,tidy.right.balanced,tidy.right.sorted⟩,
      erased.symm,by simp,within,by simp [add_comm],by simp⟩
    intro j mem inside
    exact spread.rootR (mem_singleton.mp inside ▸ mem)
  · refine ⟨⟨retired.holds tidy.holds.2.1 ?_,spread.nodupL,tidy.left.balanced,tidy.left.sorted⟩,
      by rw [entries_node,erased]; simp,by simp,within,by simp [add_comm],by simp⟩
    intro j mem inside
    exact spread.rootL (mem_singleton.mp inside ▸ mem)
lemma pruned_left {l' : SearchTree Nat (Nat × V)} (tidy : m.Tidy (.node i l e r)) (before : key < e.1)
    (small : (SearchTree.node i l e r).height ≤ 250) (pruned : Pruned m m₁ key gone l l') :
    ∃ m₂ m' p t', m₁.node_mut i (fun n => { n with left := l'.link }) = some m₂ ∧
      m₂.rebalance i = some (m',p) ∧ t'.link = some p ∧ Pruned m m' key gone (.node i l e r) t' := by
  have spread := tidy.spread
  obtain ⟨lr,rl,_,balancedR⟩ := tidy.balanced
  have low := pruned.low
  have high := pruned.high
  simp only [height_node] at small
  have at_i₁ := (pruned.retired.node spread.rootL).trans tidy.holds.1
  have holdsR₁ := pruned.retired.holds tidy.holds.2.2 fun j mem inside => spread.apart j inside mem
  have places : (SearchTree.node i l e r).places.Perm (gone :: (SearchTree.node i l' e r).places) :=
    (Perm.cons i (pruned.places.append_right _)).trans (Perm.swap gone i _)
  have nodup := nodup_cons.mp (places.nodup_iff.mp tidy.nodup)
  obtain ⟨m₂,m',p,t',linked,settled,link,holds,levelled,rewired⟩ := relink (fun n => { n with left := l'.link }) at_i₁ ⟨_,rfl⟩
    pruned.tidy.holds holdsR₁ (spread_iff.mp nodup.2) pruned.tidy.balanced balancedR
    (by omega) (by omega) (by omega) (by omega)
  have entries : t'.entries = eraseEntry (SearchTree.node i l e r).entries key := by
    rw [levelled.entries,pruned.entries,entries_node,eraseEntry_left tidy.sorted before]
  refine ⟨m₂,m',p,t',linked,settled,link,⟨holds,levelled.places.nodup_iff.mpr nodup.2,levelled.balanced,?_⟩,
    entries,places.trans (Perm.cons gone levelled.places.symm),?_,?_,?_⟩
  · rw [entries]
    exact Sorted.eraseEntry tidy.sorted key
  · refine pruned.retired.trans_rewired rewired nodup.1 (fun j mem => by simp [mem]) ?_
    intro j mem
    exact places.mem_iff.mpr (mem_cons_of_mem _ mem)
  all_goals
    have level := levelled.level
    have low' := levelled.low
    have high' := levelled.high
    simp only [height_node]
    omega
/-- Removing from the right subtree of a node that keeps or has just been given the entry `f`. -/
lemma pruned_right {f : Nat × V} {r' : SearchTree Nat (Nat × V)}
    (nodup : (SearchTree.node i l e r).places.Nodup) (holdsL : m.Holds l) (at_i : m.node i = some ⟨f.1,f.2,l.link,r.link,h⟩)
    (balanced : (SearchTree.node i l e r).Balanced) (small : (SearchTree.node i l e r).height ≤ 250)
    (pruned : Pruned m m₁ key gone r r') (sorted : Sorted (l.entries ++ f :: r'.entries)) :
    ∃ m₂ m' p t', m₁.node_mut i (fun n => { n with right := r'.link }) = some m₂ ∧
      m₂.rebalance i = some (m',p) ∧ t'.link = some p ∧ m'.Tidy t' ∧ t'.entries = l.entries ++ f :: r'.entries ∧
      (SearchTree.node i l e r).places.Perm (gone :: t'.places) ∧ Retired m m' gone (SearchTree.node i l e r).places ∧
      (SearchTree.node i l e r).height ≤ t'.height + 1 ∧ t'.height ≤ (SearchTree.node i l e r).height := by
  have spread := spread_iff.mp nodup
  obtain ⟨lr,rl,balancedL,_⟩ := balanced
  have low := pruned.low
  have high := pruned.high
  simp only [height_node] at small
  have at_i₁ := (pruned.retired.node spread.rootR).trans at_i
  have holdsL₁ := pruned.retired.holds holdsL fun j mem inside => spread.apart j mem inside
  have places : (SearchTree.node i l e r).places.Perm (gone :: (SearchTree.node i l f r').places) :=
    (Perm.cons i ((pruned.places.append_left _).trans perm_middle)).trans (Perm.swap gone i _)
  have nodup' := nodup_cons.mp (places.nodup_iff.mp nodup)
  obtain ⟨m₂,m',p,t',linked,settled,link,holds,levelled,rewired⟩ := relink (fun n => { n with right := r'.link }) at_i₁ ⟨_,rfl⟩
    holdsL₁ pruned.tidy.holds (spread_iff.mp nodup'.2) balancedL pruned.tidy.balanced
    (by omega) (by omega) (by omega) (by omega)
  refine ⟨m₂,m',p,t',linked,settled,link,⟨holds,levelled.places.nodup_iff.mpr nodup'.2,
    levelled.balanced,levelled.entries ▸ sorted⟩,levelled.entries,places.trans (Perm.cons gone levelled.places.symm),?_,?_,?_⟩
  · refine pruned.retired.trans_rewired rewired nodup'.1 (fun j mem => by simp [mem]) ?_
    intro j mem
    exact places.mem_iff.mpr (mem_cons_of_mem _ mem)
  all_goals
    have level := levelled.level
    have low' := levelled.low
    have high' := levelled.high
    simp only [height_node]
    omega
lemma swap_key_value_spec {first second : Nat} {one two : Node V} (other : first ≠ second)
    (at_first : m.node first = some one) (at_second : m.node second = some two) :
    ∃ m', m.swap_key_value first second = some m' ∧ m'.node first = some { one with key := two.key, value := two.value } ∧
      m'.node second = some { two with key := one.key, value := one.value } ∧ Rewired m m' [first,second] := by
  obtain ⟨m₁,changed,at_first₁,rewired₁⟩ :=
    node_mut_spec (fun n => { n with key := two.key, value := two.value }) at_first
  have at_second₁ : m₁.node second = some two := (rewired₁.node (by simp [Ne.symm other])).trans at_second
  obtain ⟨m₂,changed₂,at_second₂,rewired₂⟩ :=
    node_mut_spec (fun n => { n with key := one.key, value := one.value }) at_second₁
  refine ⟨m₂,?_,(rewired₂.node (by simp [other])).trans at_first₁,at_second₂,?_⟩
  · simp [swap_key_value,guard,other,at_first,at_second,changed,changed₂]
  · exact (rewired₁.mono (by simp)).trans (rewired₂.mono (by simp))
/-- Removing a key that is there. The induction is on the fuel: with two children the recursion
    goes into the right subtree after its first entry was exchanged. -/
lemma remove_index_found (tidy : m.Tidy t) (enough : t.height ≤ fuel) (small : t.height ≤ 250) (found : lookup t.entries key = some value) :
    ∃ m' gone t', remove_index key fuel m t.link = some (m',t'.link,some value) ∧ Pruned m m' key gone t t' := by
  induction fuel generalizing m t with
  | zero =>
    cases t with
    | leaf => simp [lookup] at found
    | node i l e r => simp at enough
  | succ fuel ih =>
    cases t with
    | leaf => simp [lookup] at found
    | node i l e r =>
      have at_i := tidy.holds.1
      have spread := tidy.spread
      have smallT := small
      simp only [height_node] at enough small
      rcases lt_trichotomy key e.1 with before | rfl | after
      · rw [entries_node,lookup_left tidy.sorted before] at found
        obtain ⟨m₁,gone,l',removed,pruned⟩ := ih tidy.left (by omega) (by omega) found
        obtain ⟨m₂,m',p,t',linked,settled,link,pruned'⟩ := pruned_left tidy before smallT pruned
        refine ⟨m',gone,t',?_,pruned'⟩
        simp [remove_index,at_i,before,removed,linked,settled,link]
      · rw [entries_node,lookup_self tidy.sorted] at found
        cases found
        cases l with
        | leaf =>
          obtain ⟨m',executed,retired⟩ := retire_slot_spec at_i
          refine ⟨m',i,r,?_,pruned_root tidy (Or.inl ⟨rfl,rfl⟩) retired⟩
          simp [remove_index,at_i,executed]
        | node a la ea ra =>
          cases r with
          | leaf =>
            obtain ⟨m',executed,retired⟩ := retire_slot_spec at_i
            refine ⟨m',i,.node a la ea ra,?_,pruned_root tidy (Or.inr ⟨rfl,rfl⟩) retired⟩
            simp [remove_index,at_i,executed]
          | node b lb eb rb =>
            have tidyR := tidy.right
            have room := (height_le_size _).trans (size_le tidyR.holds tidyR.nodup)
            obtain ⟨q,first,rest,n,reached,inside,cut,at_q,named,change⟩ :=
              leftmost_spec m.slots.length tidyR.holds tidyR.nodup rfl room
            have notRoot : i ≠ q := fun equal => spread.rootR (equal ▸ inside)
            obtain ⟨m₁,swapped,at_i₁,at_q₁,rewired⟩ := swap_key_value_spec notRoot at_i at_q
            obtain ⟨-,sortedR,under,upper⟩ := sorted_node.mp tidy.sorted
            have sortedRest : Sorted rest ∧ ∀ x ∈ rest, first.1 < x.1 := by
              have := sorted_node (l := []) (e := first) (r := rest)
              rw [cut] at sortedR
              exact ⟨(this.mp sortedR).2.1,(this.mp sortedR).2.2.2⟩
            have entriesR := entries_setFirst e cut
            have aboveRest : ∀ x ∈ rest, e.1 < x.1 := fun x mem => upper x (by rw [cut]; simp [mem])
            have sortedR₁ : Sorted ([] ++ e :: rest) :=
              sorted_node.mpr ⟨Pairwise.nil,sortedRest.1,by simp,aboveRest⟩
            have tidyR₁ : m₁.Tidy ((SearchTree.node b lb eb rb).setFirst e) := by
              refine ⟨change m₁ e ?_ at_q₁,by rw [places_setFirst]; exact tidyR.nodup,
                tidyR.balanced.setFirst e,by rw [entriesR]; exact sortedR₁⟩
              intro j mem other
              refine rewired.kept j ?_
              simp only [mem_cons,not_mem_nil,or_false,not_or]
              exact ⟨fun equal => spread.rootR (equal ▸ mem),other⟩
            obtain ⟨m₂,gone,r',removed,pruned⟩ := ih tidyR₁ (by rw [height_setFirst]; omega)
              (by rw [height_setFirst]; omega) (by rw [entriesR]; exact lookup_self sortedR₁)
            have entries' : r'.entries = rest := by
              rw [pruned.entries,entriesR]
              exact eraseEntry_self sortedR₁
            -- the right subtree of the node as it stands after the exchange
            have placesR : (SearchTree.node i (.node a la ea ra) e ((SearchTree.node b lb eb rb).setFirst e)).places =
                (SearchTree.node i (.node a la ea ra) e (.node b lb eb rb)).places := by
              rw [places_node,places_setFirst,← places_node i _ e]
            have heightR : (SearchTree.node i (.node a la ea ra) e ((SearchTree.node b lb eb rb).setFirst e)).height =
                (SearchTree.node i (.node a la ea ra) e (.node b lb eb rb)).height := by
              rw [height_node,height_setFirst,← height_node i _ e]
            have holdsL₁ : m₁.Holds (.node a la ea ra) := by
              refine rewired.holds tidy.holds.2.1 fun j mem => ?_
              simp only [mem_cons,not_mem_nil,or_false,not_or]
              refine ⟨fun equal => spread.rootL (equal ▸ mem),?_⟩
              rintro rfl
              exact spread.apart j mem inside
            have sorted' : Sorted ((SearchTree.node a la ea ra).entries ++ first :: r'.entries) := by
              rw [entries',← cut]
              have erased := Sorted.eraseEntry tidy.sorted e.1
              rwa [entries_node,eraseEntry_self tidy.sorted] at erased
            have balancedT := tidy.balanced
            obtain ⟨m₃,m',p,t',linked,settled,link,tidy',entries,places,retired,low,high⟩ :=
              pruned_right (e := e) (f := first) (l := .node a la ea ra)
                (r := (SearchTree.node b lb eb rb).setFirst e) (h := _)
                (by rw [placesR]; exact tidy.nodup) holdsL₁
                (by rw [at_i₁,← named,link_setFirst])
                ⟨by rw [height_setFirst]; exact balancedT.1,by rw [height_setFirst]; exact balancedT.2.1,
                  balancedT.2.2.1,tidyR.balanced.setFirst e⟩
                (by rw [heightR]; exact smallT) pruned sorted'
            rw [placesR] at places retired
            rw [heightR] at low high
            refine ⟨m',gone,t',?_,⟨tidy',?_,places,?_,low,high⟩⟩
            · rw [link_setFirst] at removed
              simp [remove_index,at_i,reached,swapped] at removed ⊢
              simp [removed,linked,settled,link]
            · rw [entries,entries',← cut,entries_node i,eraseEntry_self tidy.sorted]
            · refine rewired.trans_retired retired (fun j mem => mem) ?_
              intro j mem
              simp only [mem_cons,not_mem_nil,or_false] at mem
              rcases mem with rfl | rfl
              · simp
              · exact mem_cons_of_mem _ (mem_append_right _ inside)
      · rw [entries_node,lookup_right tidy.sorted after] at found
        obtain ⟨m₁,gone,r',removed,pruned⟩ := ih tidy.right (by omega) (by omega) found
        have erased : eraseEntry (SearchTree.node i l e r).entries key = l.entries ++ e :: r'.entries := by
          rw [entries_node,eraseEntry_right tidy.sorted after,pruned.entries]
        obtain ⟨m₂,m',p,t',linked,settled,link,tidy',entries,places,retired,low,high⟩ :=
          pruned_right tidy.nodup tidy.holds.2.1 at_i tidy.balanced smallT pruned
            (erased ▸ Sorted.eraseEntry tidy.sorted key)
        refine ⟨m',gone,t',?_,⟨tidy',entries.trans erased.symm,places,retired,low,high⟩⟩
        simp [remove_index,at_i,after,after.not_gt,removed,linked,settled,link]
end Narf.Memory.RegionIndex
