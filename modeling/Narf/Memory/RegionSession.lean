import Narf.Memory.RegionRun

namespace Narf.Memory.RegionIndex
open Lib List Bool
open Option hiding guard

variable {V S : Type} {m m' : RegionIndex V} {key : Nat} {value : V} {entries : List (Nat × V)}

/-! ## The sorted build -/
/-- An index under construction: the entries lie in the arena in key order. -/
structure Filling (m : RegionIndex V) (entries : List (Nat × V)) : Prop where
  filled : ∀ i e, entries[i]? = some e → ∃ n, m.node i = some n ∧ (n.key,n.value) = e
  length : m.slots.length = entries.length
  len : m.len = m.slots.length
  free_head : m.free_head = none
  free_len : m.free_len = 0
  within : m.slots.length ≤ m.capacity
  limit : m.capacity ≤ ISIZE_MAX
lemma filling_new : (new : RegionIndex V).Filling [] :=
  ⟨fun i e found => by simp at found,rfl,rfl,rfl,rfl,le_rfl,Nat.zero_le _⟩
lemma Filling.reserve (filling : m.Filling entries) (additional : Nat) (granted : Option Nat) :
    (m.try_reserve_nodes additional granted).1.Filling entries ∧
      m.room ≤ (m.try_reserve_nodes additional granted).1.room ∧ ((m.try_reserve_nodes additional granted).2 = .ok () →
        additional ≤ (m.try_reserve_nodes additional granted).1.room) := by
  unfold try_reserve_nodes
  dsimp only
  split
  · rename_i enough
    refine ⟨filling,le_rfl,fun _ => ?_⟩
    simp only [room]
    omega
  · split
    · exact ⟨filling,le_rfl,fun failed => by simp at failed⟩
    · rename_i short _ spare
      split
      · rename_i fits
        refine ⟨⟨filling.filled,filling.length,filling.len,filling.free_head,filling.free_len,?_,fits⟩,?_,fun _ => ?_⟩
        all_goals simp only [room]; omega
      · exact ⟨filling,le_rfl,fun failed => by simp at failed⟩
/-- Linking the last node to the new one changes no key and no value. -/
lemma push_sorted_reserved_spec (value : V) (filling : m.Filling entries) (ready : 0 < m.room) (greater : ∀ e ∈ entries, e.1 < key) :
    ∃ m', m.push_sorted_reserved key value = some m' ∧ m'.Filling (entries ++ [(key,value)]) ∧ m.room ≤ m'.room + 1 := by
  have length := filling.length
  have fits : m.slots.length < m.capacity := by
    rw [room,filling.free_len] at ready
    omega
  -- the arena with the new node appended
  have grown : ∀ i e, (entries ++ [(key,value)])[i]? = some e →
      ∃ n, node { m with slots := m.slots ++ [.Occupied (.new key value)] } i = some n ∧ (n.key,n.value) = e := by
    intro i e found
    by_cases old : i < entries.length
    · rw [getElem?_append_left old] at found
      obtain ⟨n,at_i,named⟩ := filling.filled i e found
      refine ⟨n,(node_congr ?_).trans at_i,named⟩
      exact getElem?_append_left (length ▸ old)
    · have last : i = entries.length := by
        have := (List.getElem?_eq_some_iff.mp found).1
        rw [length_append,length_singleton] at this
        omega
      subst last
      simp only [getElem?_concat_length,some.injEq] at found
      refine ⟨.new key value,node_of_slot ?_,found⟩
      rw [← length]
      exact getElem?_concat_length
  cases entries with
  | nil =>
    have zero : m.slots = [] := length_eq_zero_iff.mp length
    refine ⟨{ m with
      slots := m.slots ++ [.Occupied (.new key value)], root := some 0, len := m.len + 1 },?_,?_,?_⟩
    · rw [zero] at fits
      simp only [length_nil] at fits
      simp [push_sorted_reserved,guard,filling.free_len,filling.len,zero,fits]
    · refine ⟨grown,?_,?_,filling.free_head,filling.free_len,?_,filling.limit⟩
      · simp [zero]
      · simp [filling.len]
      · simp only [length_append,length_singleton]
        omega
    · simp only [room,length_append,length_singleton]
      omega
  | cons first rest =>
    -- the last entry so far
    obtain ⟨e,found⟩ : ∃ e, (first :: rest)[rest.length]? = some e :=
      ⟨_,getElem?_eq_getElem (by simp)⟩
    obtain ⟨n,at_last,named⟩ := filling.filled _ e found
    have ordered : n.key < key := by
      have := greater e (mem_of_getElem? found)
      rwa [← named] at this
    have last : m.slots.length - 1 = rest.length := by
      rw [length]
      simp
    have positive : m.slots.length ≠ 0 := by
      rw [length]
      simp
    have at_last' : node { m with slots := m.slots ++ [.Occupied (.new key value)] } rest.length = some n := by
      refine (node_congr ?_).trans at_last
      exact getElem?_append_left (by rw [length]; simp)
    obtain ⟨m₁,linked,at_last₁,rewired⟩ :=
      node_mut_spec (fun n => { n with right := some m.slots.length }) at_last'
    have fields := rewired.fields
    have capacity : m₁.capacity = m.capacity := by rw [fields]
    have free_len : m₁.free_len = m.free_len := by rw [fields]
    have grownLength : m₁.slots.length = m.slots.length + 1 := by simp [rewired.length]
    refine ⟨{ m₁ with len := m₁.len + 1 },?_,?_,?_⟩
    · have fresh : guard (m.free_len = 0) = some () := by simp [guard,filling.free_len]
      have dense : guard (m.len = m.slots.length) = some () := by simp [guard,filling.len]
      have reserved : guard (m.slots.length < m.capacity) = some () := by simp [guard,fits]
      have later : guard (n.key < key) = some () := by simp [guard,ordered]
      simp only [push_sorted_reserved,fresh,dense,reserved,bind_eq_bind,bind_some,ne_eq,positive,
        not_false_eq_true,if_true,last,at_last,later,if_false,linked]
    · refine ⟨?_,?_,?_,?_,?_,?_,?_⟩
      · intro i e' found'
        obtain ⟨n',at_i,named'⟩ := grown i e' found'
        by_cases same : i = rest.length
        · subst same
          rw [at_last'] at at_i
          refine ⟨_,(node_congr rfl).trans at_last₁,?_⟩
          rw [← named',← some.inj at_i]
        · refine ⟨n',?_,named'⟩
          exact (node_congr rfl).trans ((rewired.node (by simpa using same)).trans at_i)
      · simp [grownLength,length]
      · have counted : m₁.len = m.len := by rw [fields]
        simp [grownLength,counted,filling.len]
      · exact (show m₁.free_head = m.free_head by rw [fields]).trans filling.free_head
      · exact free_len.trans filling.free_len
      · simp only [grownLength,capacity]
        omega
      · exact capacity ▸ filling.limit
    · simp only [room,grownLength,capacity,free_len]
      omega
lemma size_half {n : Nat} (positive : 0 < n) : Nat.size n = Nat.size (n / 2) + 1 := by
  apply le_antisymm
  · rw [Nat.size_le,pow_succ]
    have := Nat.lt_size_self (n / 2)
    omega
  · rw [Nat.succ_le_iff,Nat.lt_size]
    cases bits : Nat.size (n / 2) with
    | zero => exact positive
    | succ k =>
      have half := Nat.lt_size.mp (show k < Nat.size (n / 2) by omega)
      rw [pow_succ]
      omega
lemma size_le_succ {a b : Nat} (near : a ≤ b + 1) : Nat.size a ≤ Nat.size b + 1 := by
  rw [Nat.size_le,pow_succ]
  have := Nat.lt_size_self b
  omega
lemma slice_cut {α : Type} {l : List α} {lo middle hi : Nat} {e : α} (first : lo ≤ middle)
    (second : middle < hi) (at_middle : l[middle]? = some e) : (l.drop lo).take (hi - lo) =
      (l.drop lo).take (middle - lo) ++ e :: (l.drop (middle + 1)).take (hi - (middle + 1)) := by
  obtain ⟨bound,found⟩ := List.getElem?_eq_some_iff.mp at_middle
  have total : hi - lo = (middle - lo) + (1 + (hi - (middle + 1))) := by omega
  rw [total,take_add,drop_drop,show lo + (middle - lo) = middle by omega,drop_eq_getElem_cons bound,found,add_comm 1,take_succ_cons]
lemma range'_cut {lo middle hi : Nat} (first : lo ≤ middle) (second : middle < hi) : range' lo (hi - lo) =
      range' lo (middle - lo) ++ middle :: range' (middle + 1) (hi - (middle + 1)) := by
  have total : hi - lo = (middle - lo) + (hi - (middle + 1) + 1) := by omega
  rw [total,← range'_append_1,show lo + (middle - lo) = middle by omega,range'_succ]
/-- The balanced tree over a slice of the arena; its height is the bit length of the slice's. -/
lemma build_spec (entries : List (Nat × V)) (lo hi : Nat) (ordered : lo ≤ hi) (bound : hi ≤ entries.length) (small : hi - lo < 2 ^ 63)
    (filled : ∀ i e, lo ≤ i → i < hi → entries[i]? = some e → ∃ n, m.node i = some n ∧ (n.key,n.value) = e) :
    ∃ (m' : RegionIndex V) (t : SearchTree Nat (Nat × V)),
      m.build_balanced_sorted_range lo hi = some (m',t.link,t.height) ∧ m'.Holds t ∧ t.Balanced ∧
      t.height = Nat.size (hi - lo) ∧ t.entries = (entries.drop lo).take (hi - lo) ∧
      t.places.Perm (range' lo (hi - lo)) ∧ Rewired m m' (range' lo (hi - lo)) := by
  induction gap : hi - lo using Nat.strong_induction_on generalizing lo hi m with
  | _ gap' ih =>
    subst gap
    by_cases empty : hi ≤ lo
    · have none_ : hi - lo = 0 := by omega
      refine ⟨m,.leaf,?_,trivial,trivial,?_,?_,?_,Rewired.refl _ _⟩
      · rw [build_balanced_sorted_range,if_pos empty]
        rfl
      all_goals simp [none_]
    · have half : lo ≤ lo + (hi - lo) / 2 ∧ lo + (hi - lo) / 2 < hi := by omega
      generalize middle_eq : lo + (hi - lo) / 2 = middle at half
      obtain ⟨e,at_middle⟩ : ∃ e, entries[middle]? = some e :=
        ⟨_,getElem?_eq_getElem (by omega)⟩
      obtain ⟨n,at_m,named⟩ := filled middle e half.1 half.2 at_middle
      obtain ⟨m₁,l,builtL,holdsL,balancedL,heightL,entriesL,placesL,rewiredL⟩ :=
        ih (middle - lo) (by omega) lo middle half.1 (by omega) (by omega)
          (fun i e low high => filled i e low (by omega)) rfl
      have filledR : ∀ i e, middle + 1 ≤ i → i < hi → entries[i]? = some e → ∃ n, m₁.node i = some n ∧ (n.key,n.value) = e := by
        intro i e low high found
        obtain ⟨n,at_i,named⟩ := filled i e (by omega) high found
        refine ⟨n,(rewiredL.node ?_).trans at_i,named⟩
        rw [mem_range'_1]
        omega
      obtain ⟨m₂,r,builtR,holdsR,balancedR,heightR,entriesR,placesR,rewiredR⟩ :=
        ih (hi - (middle + 1)) (by omega) (middle + 1) hi (by omega) bound (by omega) filledR rfl
      have outsideL : middle ∉ l.places := by
        rw [placesL.mem_iff,mem_range'_1]
        omega
      have outsideR : middle ∉ r.places := by
        rw [placesR.mem_iff,mem_range'_1]
        omega
      have at_m₂ : m₂.node middle = some n := by
        refine (rewiredR.node ?_).trans ((rewiredL.node ?_).trans at_m)
        all_goals
          rw [mem_range'_1]
          omega
      have holdsL₂ : m₂.Holds l := rewiredR.holds holdsL (by
        intro i mem
        rw [placesL.mem_iff,mem_range'_1] at mem
        rw [mem_range'_1]
        omega)
      -- both sides are about half as long, so their heights differ by at most one
      have low : Nat.size (hi - (middle + 1)) ≤ Nat.size (middle - lo) := Nat.size_le_size (by omega)
      have high : Nat.size (middle - lo) ≤ Nat.size (hi - (middle + 1)) + 1 := size_le_succ (by omega)
      have whole : Nat.size (hi - lo) = Nat.size (middle - lo) + 1 := by
        rw [size_half (by omega),show (hi - lo) / 2 = middle - lo by omega]
      have limit : Nat.size (hi - lo) ≤ 63 := Nat.size_le.mpr small
      have byte : (1 + max l.height r.height) % 256 = 1 + max l.height r.height :=
        Nat.mod_eq_of_lt (by omega)
      obtain ⟨m₃,linked,at_m₃,rewired⟩ := node_mut_spec (fun n =>
        { n with left := l.link, right := r.link, height := 1 + max l.height r.height }) at_m₂
      have named₃ : m₃.node middle = some ⟨e.1,e.2,l.link,r.link,1 + max l.height r.height⟩ := by
        rw [at_m₃,← named]
      refine ⟨m₃,.node middle l e r,?_,⟨named₃,?_,?_⟩,⟨by omega,by omega,balancedL,balancedR⟩,?_,?_,?_,?_⟩
      · rw [build_balanced_sorted_range,if_neg empty]
        simp only [middle_eq,bind_eq_bind,builtL,bind_some,builtR,byte,linked,SearchTree.link_node,SearchTree.height_node]
      · exact rewired.holds_apart holdsL₂ outsideL
      · exact rewired.holds_apart holdsR outsideR
      · rw [SearchTree.height_node]
        omega
      · rw [SearchTree.entries_node,entriesL,entriesR,← slice_cut half.1 half.2 at_middle]
      · rw [range'_cut half.1 half.2,SearchTree.places_node]
        exact (Perm.cons middle (placesL.append placesR)).trans perm_middle.symm
      · rw [range'_cut half.1 half.2]
        refine (rewiredL.mono ?_).trans ((rewiredR.mono ?_).trans (rewired.mono ?_))
        · intro i mem
          exact mem_append_left _ mem
        · intro i mem
          exact mem_append_right _ (mem_cons_of_mem _ mem)
        · intro i mem
          rw [mem_singleton.mp mem]
          exact mem_append_right _ mem_cons_self
lemma finish_sorted_build_spec (filling : m.Filling entries) (sorted : Sorted entries) :
    ∃ m' t, m.finish_sorted_build = some m' ∧ m'.Intact t [] ∧ t.entries = entries ∧ m'.room = m.room := by
  have length := filling.length
  have within := filling.within
  have limit := filling.limit
  rw [ISIZE_MAX] at limit
  obtain ⟨m₁,t,built,holds,balanced,-,cut,places,rewired⟩ := build_spec (m := m) entries 0
    m.slots.length (Nat.zero_le _) (le_of_eq length) (by omega) (fun i e _ _ => filling.filled i e)
  have all : t.entries = entries := by rw [cut,drop_zero,Nat.sub_zero,length,take_length]
  have order : t.places.Perm (List.range m.slots.length) := by rwa [Nat.sub_zero,← range_eq_range'] at places
  have fields := rewired.fields
  refine ⟨{ m₁ with root := t.link },t,?_,⟨⟨?_,order.nodup_iff.mpr nodup_range,balanced,all ▸ sorted⟩,rfl,
    ?_,?_,?_,?_,?_,?_⟩,all,rewired.room⟩
  · simp [finish_sorted_build,guard,filling.free_len,filling.len,built]
  · exact holds.congr fun _ _ => rfl
  · exact (show m₁.free_head = m.free_head by rw [fields]).trans filling.free_head
  · exact (show m₁.free_len = m.free_len by rw [fields]).trans filling.free_len
  · have size := order.length_eq
    rw [SearchTree.length_places,length_range] at size
    rw [fields,size]
    exact filling.len
  · rw [append_nil]
    simp only [rewired.length]
    exact order
  · simp only [rewired.length]
    rw [fields]
    exact within
  · rw [fields]
    exact filling.limit

/-! ## Sessions -/
/-- An index next to the map it stands for. `prepared` counts the new keys that successful
    reservations still provide for; `building` is set until a sorted build is finished. -/
structure Session (V : Type) where
  index : RegionIndex V
  map : SortedMap Nat V
  prepared : Nat
  building : Bool

namespace Session
variable {s s' : Session V}
/-- The empty index, used as it is or for a sorted build. -/
def start (building : Bool) : Session V := ⟨new,.empty,0,building⟩
/-- An insertion is prepared when it replaces a value or a reservation provides for it. -/
def Prepared (s : Session V) (key : Nat) : Prop := (s.map.get key).isSome ∨ 0 < s.prepared
inductive Step : Session V → Session V → Prop
  | reserve (s : Session V) (additional : Nat) (granted : Option Nat) :
      Step s { s with
        index := (s.index.try_reserve_nodes additional granted).1
        prepared := match (s.index.try_reserve_nodes additional granted).2 with
          | .ok _ => max s.prepared additional
          | .error _ => s.prepared }
  | insert (s : Session V) (key : Nat) (value : V) (m : RegionIndex V) (old : Option V)
      (ready : s.building = false) (prepared : s.Prepared key)
      (executed : s.index.insert_reserved key value = some (m,old)) :
      Step s { s with
        index := m
        map := s.map.insert key value
        prepared := if (s.map.get key).isSome then s.prepared else s.prepared - 1 }
  | remove (s : Session V) (key : Nat) (m : RegionIndex V) (old : Option V)
      (ready : s.building = false) (executed : s.index.remove key = some (m,old)) :
      Step s { s with index := m, map := s.map.erase key }
  | visit (s : Session V) (lo hi : Nat) (change : V → V) (m : RegionIndex V)
      (ready : s.building = false)
      (executed : s.index.for_each_range_mut lo hi (fun v _ => (change v,())) () = some (m,())) :
      Step s { s with
        index := m
        map := (s.map.visitWhere (fun k => lo ≤ k && k < hi) (fun v _ => (change v,())) ()).1 }
  | push (s : Session V) (key : Nat) (value : V) (m : RegionIndex V) (building : s.building = true)
      (greater : ∀ e ∈ s.map.entries, e.1 < key) (prepared : 0 < s.prepared)
      (executed : s.index.push_sorted_reserved key value = some m) :
      Step s { s with index := m, map := s.map.insert key value, prepared := s.prepared - 1 }
  | finish (s : Session V) (m : RegionIndex V) (building : s.building = true)
      (executed : s.index.finish_sorted_build = some m) :
      Step s { s with index := m, building := false }

def Reachable (s : Session V) : Prop := ∃ building, Relation.ReflTransGen Step (start building) s
def Faithful (s : Session V) : Prop :=
  s.prepared ≤ s.index.room ∧ if s.building then s.index.Filling s.map.entries
    else ∃ t free, s.index.Intact t free ∧ t.entries = s.map.entries
lemma insert_greatest {map : SortedMap Nat V} (greater : ∀ e ∈ map.entries, e.1 < key) :
    (map.insert key value).entries = map.entries ++ [(key,value)] := by
  have below : map.entries.filter (fun e => decide (e.1 < key)) = map.entries :=
    filter_all (fun e mem => by simpa using greater e mem)
  have above : map.entries.filter (fun e => decide (key < e.1)) = [] :=
    filter_none (fun e mem => by simpa using (greater e mem).le)
  simp [SortedMap.insert,insertEntry,below,above]
lemma faithful_start (building : Bool) : (start building : Session V).Faithful := by
  refine ⟨Nat.zero_le _,?_⟩
  cases building with
  | true => exact filling_new
  | false => exact ⟨.leaf,[],intact_new,rfl⟩
lemma faithful_step (faithful : s.Faithful) (step : Step s s') : s'.Faithful := by
  obtain ⟨funded,state⟩ := faithful
  cases step with
  | reserve additional granted =>
    -- in both phases a reservation only grows the room
    have grown : s.index.room ≤ (s.index.try_reserve_nodes additional granted).1.room ∧
        ((s.index.try_reserve_nodes additional granted).2 = .ok () → additional ≤ (s.index.try_reserve_nodes additional granted).1.room) ∧
        if s.building then (s.index.try_reserve_nodes additional granted).1.Filling s.map.entries
        else ∃ t free, (s.index.try_reserve_nodes additional granted).1.Intact t free ∧ t.entries = s.map.entries := by
      cases phase : s.building with
      | true =>
        rw [phase,if_pos rfl] at state
        obtain ⟨filling,more,granted_⟩ := state.reserve additional granted
        exact ⟨more,granted_,filling⟩
      | false =>
        rw [phase,if_neg Bool.false_ne_true] at state
        obtain ⟨t,free,intact,same⟩ := state
        obtain ⟨intact',more,granted_⟩ := reserve_spec intact additional granted
        exact ⟨more,granted_,t,free,intact',same⟩
    refine ⟨?_,grown.2.2⟩
    simp only
    split
    · rename_i succeeded
      exact max_le (funded.trans grown.1) (grown.2.1 succeeded)
    · exact funded.trans grown.1
  | insert key value m old ready prepared executed =>
    rw [ready,if_neg Bool.false_ne_true] at state
    obtain ⟨t,free,intact,same⟩ := state
    have known : lookup t.entries key = s.map.get key := by rw [same]; rfl
    obtain ⟨m',t',free',run,intact',entries,room⟩ := insert_reserved_spec key value intact
      (prepared.imp (known ▸ ·) (fun positive => by omega))
    rw [executed,some.injEq,Prod.mk.injEq] at run
    obtain ⟨rfl,-⟩ := run
    constructor
    · rw [known] at room
      simp only
      split
      · rename_i present
        rw [if_pos present] at room
        omega
      · rename_i absent
        rw [if_neg absent] at room
        omega
    · simp only [ready,false_eq_true,if_false]
      exact ⟨t',free',intact',entries.trans (by rw [same]; rfl)⟩
  | remove key m old ready executed =>
    rw [ready,if_neg Bool.false_ne_true] at state
    obtain ⟨t,free,intact,same⟩ := state
    obtain ⟨m',t',free',run,intact',entries,room⟩ := remove_spec key intact
    rw [executed,some.injEq,Prod.mk.injEq] at run
    obtain ⟨rfl,-⟩ := run
    refine ⟨funded.trans room,?_⟩
    simp only [ready,false_eq_true,if_false]
    exact ⟨t',free',intact',entries.trans (by rw [same]; rfl)⟩
  | visit lo hi change m ready executed =>
    rw [ready,if_neg Bool.false_ne_true] at state
    obtain ⟨t,free,intact,same⟩ := state
    obtain ⟨m',t',run,intact',entries,room⟩ :=
      for_each_range_mut_spec intact lo hi (fun v _ => (change v,())) ()
    rw [executed,some.injEq,Prod.mk.injEq] at run
    obtain ⟨rfl,-⟩ := run
    refine ⟨funded.trans (le_of_eq room.symm),?_⟩
    simp only [ready,false_eq_true,if_false]
    exact ⟨t',free,intact',entries.trans (by rw [same]; rfl)⟩
  | push key value m building greater prepared executed =>
    rw [building,if_pos rfl] at state
    obtain ⟨m',run,filling,room⟩ :=
      push_sorted_reserved_spec value state (by omega) greater
    rw [executed,some.injEq] at run
    subst run
    refine ⟨by simp only; omega,?_⟩
    simp only [building,if_true,insert_greatest greater]
    exact filling
  | finish m building executed =>
    rw [building,if_pos rfl] at state
    obtain ⟨m',t,run,intact,entries,room⟩ := finish_sorted_build_spec state s.map.sorted
    rw [executed,some.injEq] at run
    subst run
    refine ⟨funded.trans (le_of_eq room.symm),?_⟩
    simp only [false_eq_true,if_false]
    exact ⟨t,[],intact,entries⟩
lemma faithful_reachable (run : s.Reachable) : s.Faithful := by
  obtain ⟨building,run⟩ := run
  induction run with
  | refl => exact faithful_start building
  | tail _ step ih => exact faithful_step ih step
/-- The region index refines a sorted map. In every session that is not in the middle of a sorted
    build, the queries, the iterators and the visits answer as the map, the arena is a tree of
    exact heights and balance at most one next to the free list of all other slots, and neither a
    prepared insertion nor a removal panics; a sorted build itself does not panic either. -/
theorem refines_sorted_map (run : s.Reachable) : (s.building = false → (∀ key, s.index.get key = some (s.map.get key)) ∧
      (∀ key, s.index.predecessor key = some (lastWhere (· < key) s.map.entries)) ∧
      (∀ key, s.index.predecessor_or_equal key = some (lastWhere (· ≤ key) s.map.entries)) ∧
      (∀ key, s.index.successor_or_equal key = some (firstWhere (key ≤ ·) s.map.entries)) ∧ s.index.iter = some s.map.entries ∧
      (∀ lo hi, s.index.range lo hi = some (s.map.range lo hi)) ∧ (∀ (T : Type) (visit : V → T → V × T) (x : T) (lo hi : Nat), ∃ m,
        s.index.for_each_range_mut lo hi visit x = some (m,(s.map.visitWhere (fun k => lo ≤ k && k < hi) visit x).2) ∧
        m.iter = some (s.map.visitWhere (fun k => lo ≤ k && k < hi) visit x).1.entries) ∧ s.index.len = s.map.entries.length ∧
      (∃ t free, s.index.Intact t free ∧ t.entries = s.map.entries) ∧
      (∀ key value, s.Prepared key → ∃ m, s.index.insert_reserved key value = some (m,s.map.get key)) ∧
      (∀ key, ∃ m, s.index.remove key = some (m,s.map.get key))) ∧ (s.building = true →
      (∀ key value, 0 < s.prepared → (∀ e ∈ s.map.entries, e.1 < key) → (s.index.push_sorted_reserved key value).isSome) ∧
      s.index.finish_sorted_build.isSome) := by
  obtain ⟨funded,state⟩ := faithful_reachable run
  constructor
  · intro phase
    rw [phase,if_neg Bool.false_ne_true] at state
    obtain ⟨t,free,intact,same⟩ := state
    have known (key : Nat) : lookup t.entries key = s.map.get key := by rw [same]; rfl
    refine ⟨?_,?_,?_,?_,?_,?_,?_,?_,⟨t,free,intact,same⟩,?_,?_⟩
    · intro key
      rw [get_spec intact,known]
    · intro key
      rw [predecessor_spec intact,same]
    · intro key
      rw [predecessor_or_equal_spec intact,same]
    · intro key
      rw [successor_or_equal_spec intact,same]
    · rw [iter_spec intact,same]
    · intro lo hi
      rw [range_spec intact,same]
      rfl
    · intro T visit x lo hi
      obtain ⟨m,t',executed,intact',entries,-⟩ := for_each_range_mut_spec intact lo hi visit x
      rw [same] at executed entries
      exact ⟨m,executed,by rw [iter_spec intact',entries]; rfl⟩
    · rw [intact.len,← same,SearchTree.length_entries]
    · intro key value prepared
      obtain ⟨m,t',free',executed,-⟩ := insert_reserved_spec key value intact
        (prepared.imp (fun some => (known key).symm ▸ some) (fun positive => by omega))
      exact ⟨m,by rw [executed,known]⟩
    · intro key
      obtain ⟨m,t',free',executed,-⟩ := remove_spec key intact
      exact ⟨m,by rw [executed,known]⟩
  · intro phase
    rw [phase,if_pos rfl] at state
    refine ⟨?_,?_⟩
    · intro key value prepared greater
      obtain ⟨m,executed,-⟩ := push_sorted_reserved_spec value state (by omega) greater
      rw [executed]
      rfl
    · obtain ⟨m,t,executed,-⟩ := finish_sorted_build_spec state s.map.sorted
      rw [executed]
      rfl
/-- Two insertions into the room that was reserved for them. -/
theorem refines_sorted_map_reserved : ∃ m m' : RegionIndex Nat,
    (new.try_reserve_nodes 2 (some 0)).1.insert_reserved 7 1 = some (m,none) ∧ m.insert_reserved 3 2 = some (m',none) := by
  have run : (Session.mk (new.try_reserve_nodes 2 (some 0)).1 .empty 2 false : Session Nat).Reachable :=
    ⟨false,.single (Step.reserve (start false) 2 (some 0))⟩
  obtain ⟨m,first⟩ := ((refines_sorted_map run).1 rfl).2.2.2.2.2.2.2.2.2.1 7 1 (Or.inr (by decide))
  have next := ((refines_sorted_map (run.imp fun _ steps => steps.tail (.insert _ 7 1 m none rfl (.inr (by decide)) first))).1 rfl)
  obtain ⟨m',second⟩ := next.2.2.2.2.2.2.2.2.2.1 3 2 (Or.inr Nat.one_pos)
  exact ⟨m,m',first,second⟩
end Session
end Narf.Memory.RegionIndex
