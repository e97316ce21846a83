import Narf.Memory.RegionScan

namespace Narf.Memory.RegionIndex
open Lib Lib.SearchTree List Option

variable {V S : Type} {m m' m₁ : RegionIndex V} {i j key : Nat} {n : Node V} {value : V}
  {t t' : SearchTree Nat (Nat × V)} {free : List Nat} {slots slots' : List (Slot V)} {head : Option Nat}

/-- The slots linked into the free list, from its head on. -/
def FreeChain (slots : List (Slot V)) : Option Nat → List Nat → Prop
  | head, [] => head = none
  | head, i :: rest => head = some i ∧ ∃ next, slots[i]? = some (.Vacant next) ∧ FreeChain slots next rest
lemma FreeChain.congr (chain : FreeChain slots head free) (same : ∀ i ∈ free, slots'[i]? = slots[i]?) : FreeChain slots' head free := by
  induction free generalizing head with
  | nil => exact chain
  | cons i rest ih =>
    obtain ⟨first,next,vacant,tail⟩ := chain
    refine ⟨first,next,(same i (by simp)).trans vacant,ih tail ?_⟩
    intro j mem
    exact same j (by simp [mem])
/-- The whole index: a tidy tree under the root, the free list in the other slots, exact counters,
    an arena within its capacity. -/
structure Intact (m : RegionIndex V) (t : SearchTree Nat (Nat × V)) (free : List Nat) : Prop where
  tidy : m.Tidy t
  root : m.root = t.link
  chain : FreeChain m.slots m.free_head free
  free_len : m.free_len = free.length
  len : m.len = t.size
  /-- Live and free slots are all slots, none twice. -/
  partition : (t.places ++ free).Perm (List.range m.slots.length)
  within : m.slots.length ≤ m.capacity
  limit : m.capacity ≤ ISIZE_MAX
/-- How many new keys can be inserted without growing the arena. -/
def room (m : RegionIndex V) : Nat := m.free_len + (m.capacity - m.slots.length)

namespace Intact

section
variable (intact : m.Intact t free)
include intact
lemma size_le_slots : t.size ≤ m.slots.length :=
  size_le intact.tidy.holds intact.tidy.nodup
lemma height_le_slots : t.height ≤ m.slots.length :=
  (height_le_size t).trans intact.size_le_slots
lemma height_le : t.height ≤ 90 := by
  refine intact.tidy.balanced.height_le ?_
  have size := intact.size_le_slots
  have within := intact.within
  have limit := intact.limit
  rw [ISIZE_MAX] at limit
  omega
lemma apart : ∀ i ∈ t.places, i ∉ free := by
  have nodup := intact.partition.nodup_iff.mpr nodup_range
  intro i place mem
  exact (nodup_append.mp nodup).2.2 i place i mem rfl
lemma rewire (rewired : Rewired m m' t.places) (tidy : m'.Tidy t')
    (places : t'.places = t.places) (link : t'.link = t.link) : m'.Intact t' free := by
  have fields := rewired.fields
  refine ⟨tidy,?_,?_,?_,?_,?_,?_,?_⟩
  · rw [fields,link]
    exact intact.root
  · rw [fields]
    refine intact.chain.congr fun i mem => rewired.kept i ?_
    exact fun inside => intact.apart i inside mem
  · rw [fields]
    exact intact.free_len
  · rw [fields,← length_places,places,length_places]
    exact intact.len
  · rw [places,rewired.length]
    exact intact.partition
  · rw [rewired.length,fields]
    exact intact.within
  · rw [fields]
    exact intact.limit
end
end Intact
lemma Rewired.room {touched : List Nat} (rewired : Rewired m m' touched) : m'.room = m.room := by
  rw [RegionIndex.room,RegionIndex.room,rewired.length,rewired.fields]
lemma intact_new : (new : RegionIndex V).Intact .leaf [] := by
  refine ⟨⟨trivial,nodup_nil,trivial,Pairwise.nil⟩,rfl,rfl,rfl,rfl,Perm.refl _,le_rfl,Nat.zero_le _⟩

/-! ## Queries -/
section
variable (intact : m.Intact t free)
include intact
lemma get_spec (key : Nat) : m.get key = some (lookup t.entries key) := by
  have fuel := intact.height_le_slots
  cases found : lookup t.entries key with
  | none =>
    have executed := find_from_missing m.slots.length intact.tidy fuel found
    simp [get,find_index,intact.root,executed]
  | some value =>
    obtain ⟨i,n,executed,-,at_i,held,-⟩ := find_from_found m.slots.length intact.tidy fuel found
    simp [get,find_index,intact.root,executed,at_i,held]
lemma predecessor_spec (key : Nat) : m.predecessor key = some (lastWhere (· < key) t.entries) := by
  rw [predecessor,intact.root,seek_last (fun a b below => ?_) _ intact.tidy.holds intact.tidy.sorted
    intact.height_le_slots,or_none]
  simpa using below.trans
lemma predecessor_or_equal_spec (key : Nat) : m.predecessor_or_equal key = some (lastWhere (· ≤ key) t.entries) := by
  rw [predecessor_or_equal,intact.root,seek_last (fun a b below => ?_) _ intact.tidy.holds
    intact.tidy.sorted intact.height_le_slots,or_none]
  simpa using below.le.trans
lemma successor_or_equal_spec (key : Nat) : m.successor_or_equal key = some (firstWhere (key ≤ ·) t.entries) := by
  rw [successor_or_equal,intact.root,seek_first (fun a b below => ?_) _ intact.tidy.holds
    intact.tidy.sorted intact.height_le_slots,or_none]
  intro reached
  simp only [decide_eq_true_eq] at reached ⊢
  exact reached.trans below.le
lemma iter_spec : m.iter = some t.entries := by
  have fuel := intact.height_le_slots
  have low := intact.height_le
  have empty : m.Stacked [] [] := rfl
  obtain ⟨stack,pushed,stacked⟩ := push_left_spec m.slots.length
    intact.tidy.holds fuel (by rw [length_nil,MAX_AVL_HEIGHT]; omega) fuel empty
  rw [append_nil] at stacked
  have size := intact.size_le_slots
  have drained := drain_spec (fun _ => true) (m.slots.length + 1) stacked
    (by rw [length_entries]; omega)
  rw [takeWhile_eq_filter (p := fun _ => true) (fun _ _ _ _ => rfl) intact.tidy.sorted,filter_true] at drained
  rw [iter,intact.root,pushed]
  exact drained
lemma range_spec (lo hi : Nat) : m.range lo hi = some (t.entries.filter (fun e => lo ≤ e.1 ∧ e.1 < hi)) := by
  have fuel := intact.height_le_slots
  have low := intact.height_le
  have empty : m.Stacked [] [] := rfl
  obtain ⟨stack,pushed,stacked⟩ := push_from_spec lo m.slots.length
    intact.tidy.holds intact.tidy.sorted fuel (by rw [length_nil,MAX_AVL_HEIGHT]; omega) fuel empty
  rw [append_nil] at stacked
  have size := intact.size_le_slots
  have shorter : (t.entries.filter (fun a => decide (lo ≤ a.1))).length < m.slots.length + 1 := by
    have le := length_filter_le (fun a => decide (lo ≤ a.1)) t.entries
    rw [length_entries] at le
    omega
  have drained := drain_spec (· < hi) (m.slots.length + 1) stacked shorter
  have cut : (t.entries.filter (fun a => decide (lo ≤ a.1))).takeWhile (fun a => decide (a.1 < hi)) =
      t.entries.filter (fun e => decide (lo ≤ e.1 ∧ e.1 < hi)) := by
    rw [takeWhile_eq_filter (p := (· < hi)) (fun a b below => by simpa using below.trans)
      (intact.tidy.sorted.filter _),List.filter_filter]
    congr 1
    funext e
    simp [Bool.and_comm]
  rw [range,intact.root,pushed]
  simp [bind_eq_bind,bind_some,drained,cut]
lemma for_each_range_mut_spec (lo hi : Nat) (visit : V → S → V × S) (s : S) : ∃ m' t', m.for_each_range_mut lo hi visit s =
        some (m',(visitEntries (fun k => lo ≤ k && k < hi) visit t.entries s).2) ∧
      m'.Intact t' free ∧ t'.entries = (visitEntries (fun k => lo ≤ k && k < hi) visit t.entries s).1 ∧ m'.room = m.room := by
  obtain ⟨m',t',executed,shape,holds,entries,rewired⟩ := visit_where_spec (lo < ·) (fun k => lo ≤ k && k < hi) (· < hi) visit
    (fun a b below outside => by simp at outside ⊢; omega)
    (fun a b below outside => by simp at outside ⊢; omega)
    m.slots.length intact.tidy.holds intact.tidy.nodup intact.tidy.sorted intact.height_le_slots s
  refine ⟨m',t',?_,intact.rewire rewired ⟨holds,?_,?_,?_⟩ shape.places shape.link,entries,rewired.room⟩
  · rw [for_each_range_mut,intact.root]
    exact executed
  · rw [shape.places]
    exact intact.tidy.nodup
  · exact shape.balanced intact.tidy.balanced
  · rw [entries,sorted_iff_keys,map_fst_visitEntries]
    exact sorted_iff_keys.mp intact.tidy.sorted
end

/-! ## Reservation and insertion -/
lemma reserve_spec (intact : m.Intact t free) (additional : Nat) (granted : Option Nat) :
    (m.try_reserve_nodes additional granted).1.Intact t free ∧
      m.room ≤ (m.try_reserve_nodes additional granted).1.room ∧ ((m.try_reserve_nodes additional granted).2 = .ok () →
        additional ≤ (m.try_reserve_nodes additional granted).1.room) := by
  unfold try_reserve_nodes
  dsimp only
  split
  · rename_i enough
    refine ⟨intact,le_rfl,fun _ => ?_⟩
    simp only [room]
    omega
  · split
    · exact ⟨intact,le_rfl,fun failed => by simp at failed⟩
    · rename_i short _ spare
      split
      · rename_i fits
        have holds : Holds { m with capacity := m.slots.length + (additional - m.free_len) + spare } t :=
          intact.tidy.holds.congr (fun _ _ => rfl)
        refine ⟨⟨⟨holds,intact.tidy.nodup,intact.tidy.balanced,intact.tidy.sorted⟩,intact.root,intact.chain,
          intact.free_len,intact.len,intact.partition,?_,fits⟩,?_,fun _ => ?_⟩
        all_goals simp only [room]; omega
      · exact ⟨intact,le_rfl,fun failed => by simp at failed⟩
lemma allocate_slot_spec (intact : m.Intact t free) (ready : 0 < m.room) (n : Node V) :
    ∃ m₁ j free', m.allocate_slot n = some (m₁,j) ∧ m₁.node j = some n ∧ m₁.Holds t ∧
      j ∉ t.places ∧ FreeChain m₁.slots m₁.free_head free' ∧ m₁.free_len = free'.length ∧
      ((j :: t.places) ++ free').Perm (List.range m₁.slots.length) ∧ m₁.root = m.root ∧
      m₁.len = m.len ∧ m₁.capacity = m.capacity ∧ m₁.slots.length ≤ m₁.capacity ∧ m₁.room + 1 = m.room := by
  have counted := intact.free_len
  have within := intact.within
  rw [room] at ready
  cases free with
  | nil =>
    have empty : m.free_head = none := intact.chain
    have places := intact.partition
    rw [append_nil] at places
    simp only [length_nil] at counted
    refine ⟨{ m with slots := m.slots ++ [.Occupied n] },m.slots.length,[],by simp [allocate_slot,empty],node_of_slot (by simp),?_,?_,empty,?_,?_,rfl,rfl,
      rfl,?_,?_⟩
    · refine intact.tidy.holds.congr (fun i mem => ?_)
      exact List.getElem?_append_left (lt_of_holds intact.tidy.holds i mem)
    · intro mem
      exact lt_irrefl _ (lt_of_holds intact.tidy.holds _ mem)
    · exact counted
    · rw [append_nil,length_append,length_singleton,range_succ]
      exact (List.Perm.cons _ places).trans (perm_append_singleton _ _).symm
    · simp only [length_append,length_singleton]
      omega
    · simp only [room,length_append,length_singleton]
      omega
  | cons j rest =>
    obtain ⟨first,next,vacant,tail⟩ := intact.chain
    have nodup := intact.partition.nodup_iff.mpr nodup_range
    have apart := intact.apart
    have jRest : j ∉ rest := (nodup_cons.mp (nodup_append.mp nodup).2.1).1
    have jTree : j ∉ t.places := fun mem => apart j mem (by simp)
    have bound := (List.getElem?_eq_some_iff.mp vacant).1
    simp only [length_cons] at counted
    refine ⟨{ m with free_head := next, free_len := m.free_len - 1, slots := m.slots.set j (.Occupied n) },j,rest,
      by simp [allocate_slot,first,vacant],node_of_slot (by simp [bound]),?_,jTree,?_,?_,?_,rfl,rfl,rfl,?_,?_⟩
    · refine intact.tidy.holds.congr (fun i mem => ?_)
      exact List.getElem?_set_ne fun (same : j = i) => jTree (same ▸ mem)
    · refine tail.congr (fun i mem => ?_)
      exact List.getElem?_set_ne fun (same : j = i) => jRest (same ▸ mem)
    · simp only [counted]
      omega
    · rw [length_set]
      exact perm_middle.symm.trans intact.partition
    · rw [length_set]
      exact within
    · simp only [room,length_set,counted]
      omega
/-- Inserting under a key: the old value comes back, and the index holds the new entries. A new
    key takes one of the prepared slots. -/
lemma insert_reserved_spec (key : Nat) (value : V) (intact : m.Intact t free) (ready : (lookup t.entries key).isSome ∨ 0 < m.room) :
    ∃ m' t' free', m.insert_reserved key value = some (m',lookup t.entries key) ∧
      m'.Intact t' free' ∧ t'.entries = insertEntry t.entries key value ∧
      m.room ≤ m'.room + if (lookup t.entries key).isSome then 0 else 1 := by
  have fuel := intact.height_le_slots
  cases found : lookup t.entries key with
  | some old =>
    obtain ⟨i,n,executed,inside,at_i,held,change⟩ :=
      find_from_found m.slots.length intact.tidy fuel found
    obtain ⟨m',changed,at_i',rewired⟩ := node_mut_spec (fun n => { n with value := value }) at_i
    obtain ⟨t',shape,holds,entries⟩ := change m' value (fun j _ other => rewired.kept j (by simpa using other)) at_i'
    refine ⟨m',t',free,?_,intact.rewire (rewired.mono (by simpa using inside)) ⟨holds,?_,?_,?_⟩ shape.places shape.link,
      entries,by rw [rewired.room]; simp⟩
    · rw [← intact.root] at executed
      simp [insert_reserved,find_index,executed,at_i,changed,held]
    · rw [shape.places]
      exact intact.tidy.nodup
    · exact shape.balanced intact.tidy.balanced
    · rw [entries]
      exact Sorted.insertEntry intact.tidy.sorted key value
  | none =>
    rw [found] at ready
    have prepared : 0 < m.room := by simpa using ready
    have missing := find_from_missing m.slots.length intact.tidy fuel found
    obtain ⟨m₁,j,free',allocated,at_j,holds₁,fresh,chain,counted,places,root,len,capacity,within,left_⟩ :=
      allocate_slot_spec intact prepared (.new key value)
    have tidy₁ : m₁.Tidy t := ⟨holds₁,intact.tidy.nodup,intact.tidy.balanced,intact.tidy.sorted⟩
    have low := intact.height_le
    have fuel₁ := (height_le_size t).trans (size_le holds₁ intact.tidy.nodup)
    obtain ⟨m₂,p,t',inserted,link,grafted⟩ := insert_index_spec m₁.slots.length tidy₁ fuel₁ (by omega) at_j
      fresh (lookup_eq_none_iff.mp found)
    have fields := grafted.rewired.fields
    have asserted : m.free_head.isSome ∨ m.slots.length < m.capacity := by
      rw [room,intact.free_len] at prepared
      cases free with
      | nil => exact Or.inr (by simp at prepared; omega)
      | cons i rest => exact Or.inl (by rw [intact.chain.1]; rfl)
    refine ⟨{ m₂ with root := some p, len := m₂.len + 1 },t',free',?_,⟨⟨?_,grafted.tidy.nodup,
      grafted.tidy.balanced,grafted.tidy.sorted⟩,link.symm,?_,?_,?_,?_,?_,?_⟩,grafted.entries,?_⟩
    · rw [← intact.root,] at missing
      rw [← intact.root,← root] at inserted
      simp [insert_reserved,find_index,missing,asserted,allocated,inserted]
    · exact grafted.tidy.holds.congr fun _ _ => rfl
    · have disjoint := (nodup_append.mp (places.nodup_iff.mpr nodup_range)).2.2
      rw [fields]
      exact chain.congr fun i mem => grafted.rewired.kept i (disjoint i · i mem rfl)
    · rw [fields]
      exact counted
    · have size := grafted.places.length_eq
      rw [length_cons,length_places,length_places] at size
      rw [fields,size]
      exact congrArg (· + 1) (len.trans intact.len)
    · exact (grafted.places.append_right _).trans (by rw [grafted.rewired.length]; exact places)
    · simp only [grafted.rewired.length]
      rw [fields]
      exact within
    · rw [fields]
      exact capacity ▸ intact.limit
    · have kept : RegionIndex.room { m₂ with root := some p, len := m₂.len + 1 } = m₁.room := grafted.rewired.room
      rw [kept]
      simp only [isSome_none,Bool.false_eq_true,if_false]
      omega
lemma remove_spec (key : Nat) (intact : m.Intact t free) :
    ∃ m' t' free', m.remove key = some (m',lookup t.entries key) ∧ m'.Intact t' free' ∧
      t'.entries = eraseEntry t.entries key ∧ m.room ≤ m'.room := by
  have fuel := intact.height_le_slots
  have low := intact.height_le
  cases found : lookup t.entries key with
  | none =>
    have executed := remove_index_missing m.slots.length intact.tidy fuel found
    rw [← intact.root] at executed
    refine ⟨m,t,free,by simp [remove,executed],intact,?_,le_rfl⟩
    exact (filter_all (fun e mem => by simpa using lookup_eq_none_iff.mp found e mem)).symm
  | some value =>
    obtain ⟨m₁,gone,t',executed,pruned⟩ :=
      remove_index_found m.slots.length intact.tidy fuel (by omega) found
    have fields := pruned.retired.fields
    have leaving := pruned.places
    have goneIn : gone ∈ t.places := leaving.mem_iff.mpr (by simp)
    rw [← intact.root] at executed
    refine ⟨{ m₁ with root := t'.link, len := m₁.len - 1 },t',gone :: free,by simp [remove,executed],
      ⟨⟨?_,pruned.tidy.nodup,pruned.tidy.balanced,pruned.tidy.sorted⟩,rfl,?_,?_,?_,?_,?_,?_⟩,pruned.entries,?_⟩
    · exact pruned.tidy.holds.congr fun _ _ => rfl
    · refine ⟨by rw [fields],m.free_head,pruned.retired.vacated,?_⟩
      refine intact.chain.congr fun i mem => pruned.retired.kept i ?_
      exact fun inside => intact.apart i inside mem
    · rw [fields]
      simp [intact.free_len]
    · have size := leaving.length_eq
      rw [length_cons,length_places,length_places] at size
      rw [fields]
      simp only [intact.len]
      omega
    · simp only [pruned.retired.length]
      refine Perm.trans ?_ intact.partition
      exact perm_middle.trans (leaving.symm.append_right free)
    · simp only [pruned.retired.length]
      rw [fields]
      exact intact.within
    · rw [fields]
      exact intact.limit
    · have more : RegionIndex.room { m₁ with root := t'.link, len := m₁.len - 1 } = m.room + 1 := by
        simp only [room,pruned.retired.length]
        rw [fields]
        simp only
        omega
      omega
end Narf.Memory.RegionIndex
