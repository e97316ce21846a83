import Narf.Memory.RegionUpdate

namespace Narf.Memory.RegionIndex
open Lib Lib.SearchTree
open List hiding lookup

variable {V S : Type} {m m' : RegionIndex V} {i key : Nat} {n : Node V} {value : V}
  {t l r : SearchTree Nat (Nat × V)} {e : Nat × V}

/-! ## Lookup -/
lemma find_from_missing (fuel : Nat) (tidy : m.Tidy t) (enough : t.height ≤ fuel)
    (missing : lookup t.entries key = none) : m.find_from key fuel t.link = some none := by
  induction t generalizing fuel with
  | leaf => simp [find_from]
  | node i l e r ihL ihR =>
    simp only [height_node] at enough
    obtain _ | fuel := fuel
    · omega
    rcases lt_trichotomy key e.1 with before | rfl | after
    · rw [entries_node,lookup_left tidy.sorted before] at missing
      simp [find_from,tidy.holds.1,before,ihL fuel tidy.left (by omega) missing]
    · rw [entries_node,lookup_self tidy.sorted] at missing
      exact absurd missing (by simp)
    · rw [entries_node,lookup_right tidy.sorted after] at missing
      simp [find_from,tidy.holds.1,after.not_gt,after,ihR fuel tidy.right (by omega) missing]
/-- A key that is there is found at a place of the tree, and replacing the value at that place
    replaces the entry. -/
lemma find_from_found (fuel : Nat) (tidy : m.Tidy t) (enough : t.height ≤ fuel) (found : lookup t.entries key = some value) :
    ∃ i n, m.find_from key fuel t.link = some (some i) ∧ i ∈ t.places ∧ m.node i = some n ∧ n.value = value ∧
      ∀ (m' : RegionIndex V) (v : V), (∀ j ∈ t.places, j ≠ i → m'.slots[j]? = m.slots[j]?) → m'.node i = some { n with value := v } →
        ∃ t', SearchTree.SameShape t t' ∧ m'.Holds t' ∧ t'.entries = insertEntry t.entries key v := by
  induction t generalizing fuel with
  | leaf => simp [lookup] at found
  | node i l e r ihL ihR =>
    simp only [height_node] at enough
    obtain _ | fuel := fuel
    · omega
    obtain ⟨at_i,holdsL,holdsR⟩ := tidy.holds
    have spread := tidy.spread
    rcases lt_trichotomy key e.1 with before | rfl | after
    · rw [entries_node,lookup_left tidy.sorted before] at found
      obtain ⟨q,n,executed,inside,at_q,held,change⟩ := ihL fuel tidy.left (by omega) found
      refine ⟨q,n,by simp [find_from,at_i,before,executed],by simp [inside],at_q,held,?_⟩
      intro m' v same at_q'
      obtain ⟨l',shape,holds',entries⟩ :=
        change m' v (fun j mem => same j (by simp [mem])) at_q'
      refine ⟨.node i l' e r,.node i e e shape (.refl r),⟨?_,holds',holdsR.congr ?_⟩,?_⟩
      · rw [node_congr (same i (by simp) (fun equal => spread.rootL (equal ▸ inside))),at_i,shape.link,height_node,height_node,shape.height]
      · intro j mem
        refine same j (by simp [mem]) ?_
        rintro rfl
        exact spread.apart j inside mem
      · rw [entries_node,entries,entries_node,insertEntry_left tidy.sorted before]
    · rw [entries_node,lookup_self tidy.sorted] at found
      refine ⟨i,_,by simp [find_from,at_i],by simp,at_i,Option.some.inj found,?_⟩
      intro m' v same at_i'
      refine ⟨.node i l (e.1,v) r,.node i e (e.1,v) (.refl l) (.refl r),⟨at_i',?_,?_⟩,?_⟩
      · refine holdsL.congr (fun j mem => same j (by simp [mem]) ?_)
        rintro rfl
        exact spread.rootL mem
      · refine holdsR.congr (fun j mem => same j (by simp [mem]) ?_)
        rintro rfl
        exact spread.rootR mem
      · rw [entries_node,entries_node,insertEntry_self tidy.sorted]
    · rw [entries_node,lookup_right tidy.sorted after] at found
      obtain ⟨q,n,executed,inside,at_q,held,change⟩ := ihR fuel tidy.right (by omega) found
      refine ⟨q,n,by simp [find_from,at_i,after,after.not_gt,executed],by simp [inside],at_q,held,?_⟩
      intro m' v same at_q'
      obtain ⟨r',shape,holds',entries⟩ :=
        change m' v (fun j mem => same j (by simp [mem])) at_q'
      refine ⟨.node i l e r',.node i e e (.refl l) shape,⟨?_,holdsL.congr ?_,holds'⟩,?_⟩
      · rw [node_congr (same i (by simp) (fun equal => spread.rootR (equal ▸ inside))),at_i,shape.link,height_node,height_node,shape.height]
      · intro j mem
        refine same j (by simp [mem]) ?_
        rintro rfl
        exact spread.apart j mem inside
      · rw [entries_node,entries,entries_node,insertEntry_right tidy.sorted after]

/-! ## Neighbours -/
variable {takes : Nat → Bool} {stack : List Nat} {out : List (Nat × V)}
lemma seek_last (down : ∀ a b, a < b → takes b → takes a)
    (fuel : Nat) (holds : m.Holds t) (sorted : Sorted t.entries) (enough : t.height ≤ fuel)
    (result : Option (Nat × V)) : m.seek takes Node.right Node.left fuel t.link result = some ((lastWhere takes t.entries).or result) := by
  induction t generalizing fuel result with
  | leaf => simp [seek,lastWhere]
  | node i l e r ihL ihR =>
    simp only [height_node] at enough
    obtain _ | fuel := fuel
    · omega
    obtain ⟨at_i,holdsL,holdsR⟩ := holds
    obtain ⟨sortedL,sortedR,-,-⟩ := sorted_node.mp sorted
    rw [entries_node,lastWhere_node down sorted]
    by_cases taken : takes e.1
    · simp [seek,at_i,taken,ihR fuel holdsR sortedR (by omega)]
    · simp [seek,at_i,taken,ihL fuel holdsL sortedL (by omega)]
lemma seek_first (up : ∀ a b, a < b → takes a → takes b)
    (fuel : Nat) (holds : m.Holds t) (sorted : Sorted t.entries) (enough : t.height ≤ fuel)
    (result : Option (Nat × V)) : m.seek takes Node.left Node.right fuel t.link result = some ((firstWhere takes t.entries).or result) := by
  induction t generalizing fuel result with
  | leaf => simp [seek,firstWhere]
  | node i l e r ihL ihR =>
    simp only [height_node] at enough
    obtain _ | fuel := fuel
    · omega
    obtain ⟨at_i,holdsL,holdsR⟩ := holds
    obtain ⟨sortedL,sortedR,-,-⟩ := sorted_node.mp sorted
    rw [entries_node,firstWhere_node up sorted]
    by_cases taken : takes e.1
    · simp [seek,at_i,taken,ihL fuel holdsL sortedL (by omega)]
    · simp [seek,at_i,taken,ihR fuel holdsR sortedR (by omega)]

/-! ## Iteration -/
/-- An iterator's stack and what it will yield: each entry stands for a node and its right
    subtree, and the higher in the stack the lower the subtree. -/
def Stacked (m : RegionIndex V) : List Nat → List (Nat × V) → Prop
  | [], out => out = []
  | i :: rest, out => ∃ l e r tail, m.Holds (.node i l e r) ∧
      (SearchTree.node i l e r).height + rest.length ≤ MAX_AVL_HEIGHT ∧ r.height ≤ m.slots.length ∧
      out = e :: (r.entries ++ tail) ∧ m.Stacked rest tail
lemma push_left_spec (fuel : Nat) (holds : m.Holds t) (enough : t.height ≤ fuel) (room : t.height + stack.length ≤ MAX_AVL_HEIGHT)
    (bound : t.height ≤ m.slots.length) (stacked : m.Stacked stack out) :
    ∃ stack', m.push_left fuel stack t.link = some stack' ∧ m.Stacked stack' (t.entries ++ out) := by
  induction t generalizing fuel stack out with
  | leaf => exact ⟨stack,by simp [push_left],stacked⟩
  | node i l e r ihL _ =>
    have roomT := room
    simp only [height_node] at enough room bound
    obtain _ | fuel := fuel
    · omega
    obtain ⟨stack',pushed,stacked'⟩ := @ihL (i :: stack) (e :: (r.entries ++ out)) fuel holds.2.1
      (by omega) (by simp only [length_cons]; omega) (by omega)
      ⟨l,e,r,out,holds,roomT,by omega,rfl,stacked⟩
    have fits : stack.length < MAX_AVL_HEIGHT := by omega
    refine ⟨stack',by simp [push_left,fits,holds.1,pushed],?_⟩
    rw [entries_node,append_assoc,cons_append]
    exact stacked'
lemma push_from_spec (lo fuel : Nat) (holds : m.Holds t) (sorted : Sorted t.entries) (enough : t.height ≤ fuel)
    (room : t.height + stack.length ≤ MAX_AVL_HEIGHT) (bound : t.height ≤ m.slots.length)
    (stacked : m.Stacked stack out) : ∃ stack', m.push_from lo fuel stack t.link = some stack' ∧
      m.Stacked stack' (t.entries.filter (lo ≤ ·.1) ++ out) := by
  induction t generalizing fuel stack out with
  | leaf => exact ⟨stack,by simp [push_from],stacked⟩
  | node i l e r ihL ihR =>
    have roomT := room
    simp only [height_node] at enough room bound
    obtain _ | fuel := fuel
    · omega
    obtain ⟨sortedL,sortedR,under,upper⟩ := sorted_node.mp sorted
    have fits : stack.length < MAX_AVL_HEIGHT := by omega
    by_cases inRange : lo ≤ e.1
    · obtain ⟨stack',pushed,stacked'⟩ := @ihL (i :: stack) (e :: (r.entries ++ out)) fuel holds.2.1
        sortedL (by omega) (by simp only [length_cons]; omega) (by omega)
        ⟨l,e,r,out,holds,roomT,by omega,rfl,stacked⟩
      have rest : r.entries.filter (fun a => decide (lo ≤ a.1)) = r.entries :=
        filter_all (fun a mem => by simpa using inRange.trans (upper a mem).le)
      refine ⟨stack',by simp [push_from,fits,holds.1,inRange,pushed],?_⟩
      simpa [filter_append,inRange,rest] using stacked'
    · obtain ⟨stack',pushed,stacked'⟩ := ihR fuel holds.2.2 sortedR (by omega) (by omega) (by omega) stacked
      have rest : l.entries.filter (fun a => decide (lo ≤ a.1)) = [] :=
        filter_none (fun a mem => by simpa using (under a mem).trans (not_le.mp inRange))
      refine ⟨stack',by simp [push_from,holds.1,inRange,pushed],?_⟩
      simpa [filter_append,inRange,rest] using stacked'
lemma drain_spec (within : Nat → Bool) (fuel : Nat) (stacked : m.Stacked stack out) (enough : out.length < fuel) :
    m.drain within fuel stack = some (out.takeWhile (within ·.1)) := by
  induction fuel generalizing stack out with
  | zero => exact absurd enough (Nat.not_lt_zero _)
  | succ fuel ih =>
    cases stack with
    | nil =>
      obtain rfl : out = [] := stacked
      simp [drain,next]
    | cons i rest =>
      obtain ⟨l,e,r,tail,holds,room,bound,rfl,stackedRest⟩ := stacked
      by_cases inside : within e.1
      · simp only [height_node] at room
        obtain ⟨stack',pushed,stacked'⟩ := push_left_spec m.slots.length holds.2.2 bound (by omega)
          bound stackedRest
        have remaining := ih stacked' (by simpa using enough)
        simp [drain,next,holds.1,inside,pushed,remaining]
      · simp [drain,next,holds.1,inside]

/-! ## Visits -/
/-- `ran` is what visiting the entries of `t` from the state `s` leaves. -/
def Visits (here : Nat → Bool) (visit : V → S → V × S) (m : RegionIndex V)
    (t : SearchTree Nat (Nat × V)) (s : S) (ran : Option (RegionIndex V × S)) : Prop :=
  ∃ m' t', ran = some (m',(visitEntries here visit t.entries s).2) ∧ SearchTree.SameShape t t' ∧
    m'.Holds t' ∧ t'.entries = (visitEntries here visit t.entries s).1 ∧ Rewired m m' t.places
lemma Visits.cut {here goes : Nat → Bool} {visit : V → S → V × S} {s : S}
    {ran : Option (RegionIndex V × S)} (holds : m.Holds t) (visits : Visits here visit m t s ran)
    (skips : goes key = false → ∀ a ∈ t.entries, here a.1 = false) : Visits here visit m t s (if goes key then ran else some (m,s)) := by
  by_cases inside : goes key
  · rwa [if_pos inside]
  · have skipped := visitEntries_skip visit s (skips (by simpa using inside))
    rw [if_neg inside,Visits,skipped]
    exact ⟨m,t,rfl,.refl t,holds,rfl,Rewired.refl _ _⟩
/-- A visit that never skips a selected key rewrites exactly the selected values, in key order. -/
lemma visit_where_spec (goes_left here goes_right : Nat → Bool) (visit : V → S → V × S)
    (skipsLeft : ∀ a b, a < b → goes_left b = false → here a = false) (skipsRight : ∀ a b, a < b → goes_right a = false → here b = false)
    (fuel : Nat) (holds : m.Holds t) (nodup : t.places.Nodup) (sorted : Sorted t.entries) (enough : t.height ≤ fuel) (s : S) :
    Visits here visit m t s (visit_where goes_left here goes_right visit fuel m t.link s) := by
  induction t generalizing m fuel s with
  | leaf => exact ⟨m,.leaf,by simp [visit_where,visitEntries],.leaf,trivial,rfl,Rewired.refl _ _⟩
  | node i l e r ihL ihR =>
    simp only [height_node] at enough
    obtain _ | fuel := fuel
    · omega
    obtain ⟨at_i,holdsL,holdsR⟩ := holds
    have spread := spread_iff.mp nodup
    obtain ⟨sortedL,sortedR,under,upper⟩ := sorted_node.mp sorted
    -- the left subtree
    obtain ⟨m₁,l',ranL,shapeL,holdsL₁,entriesL,rewiredL⟩ :=
      Visits.cut holdsL (ihL fuel holdsL spread.nodupL sortedL (by omega) s)
        (fun skip a mem => skipsLeft a.1 e.1 (under a mem) skip)
    have at_i₁ := (rewiredL.node spread.rootL).trans at_i
    have holdsR₁ : m₁.Holds r := rewiredL.holds holdsR fun j mem inside => spread.apart j inside mem
    -- the node itself
    obtain ⟨m₂,e',ranHere,at_i₂,visited,rewiredHere⟩ : ∃ (m₂ : RegionIndex V) (e' : Nat × V),
        visit_here here visit m₁ i (visitEntries here visit l.entries s).2 =
          some (m₂,(visitEntries here visit [e] (visitEntries here visit l.entries s).2).2) ∧
        m₂.node i = some ⟨e'.1,e'.2,l.link,r.link,(SearchTree.node i l e r).height⟩ ∧
        (visitEntries here visit [e] (visitEntries here visit l.entries s).2).1 = [e'] ∧
        Rewired m₁ m₂ [i] := by
      by_cases selected : here e.1
      · obtain ⟨m₂,changed,at_i₂,rewired⟩ := node_mut_spec (fun n =>
          { n with value := (visit e.2 (visitEntries here visit l.entries s).2).1 }) at_i₁
        refine ⟨m₂,(e.1,(visit e.2 (visitEntries here visit l.entries s).2).1),?_,at_i₂,?_,rewired⟩
        · simp [visit_here,at_i₁,selected,changed,visitEntries]
        · simp [selected,visitEntries]
      · refine ⟨m₁,e,?_,at_i₁,?_,Rewired.refl _ _⟩
        · simp [visit_here,at_i₁,selected,visitEntries]
        · simp [selected,visitEntries]
    have holdsL₂ : m₂.Holds l' := rewiredHere.holds holdsL₁ (by
      intro j mem inside
      rw [shapeL.places] at mem
      exact spread.rootL (mem_singleton.mp inside ▸ mem))
    have holdsR₂ : m₂.Holds r := rewiredHere.holds holdsR₁ (fun j mem inside =>
      spread.rootR (mem_singleton.mp inside ▸ mem))
    -- the right subtree, from the state the visitor has reached
    obtain ⟨m₃,r',ranR,shapeR,holdsR₃,entriesR,rewiredR⟩ :=
      Visits.cut holdsR₂ (ihR fuel holdsR₂ spread.nodupR sortedR (by omega) _)
        (fun skip a mem => skipsRight e.1 a.1 (upper a mem) skip)
    have whole : (SearchTree.node i l e r).entries = l.entries ++ ([e] ++ r.entries) := rfl
    refine ⟨m₃,.node i l' e' r',?_,.node i e e' shapeL shapeR,⟨?_,?_,holdsR₃⟩,?_,?_⟩
    · rw [whole,visitEntries_append,visitEntries_append]
      simp only [link_node,visit_where,at_i,Option.bind_some,ranL,ranHere]
      exact ranR
    · rw [rewiredR.node spread.rootR,at_i₂,shapeL.link,shapeR.link,height_node,height_node,shapeL.height,shapeR.height]
    · refine rewiredR.holds holdsL₂ (fun j mem => ?_)
      rw [shapeL.places] at mem
      exact spread.apart j mem
    · rw [whole,visitEntries_append,visitEntries_append,entries_node,entriesL,entriesR,visited]
      rfl
    · refine (rewiredL.mono ?_).trans ((rewiredHere.mono ?_).trans (rewiredR.mono ?_))
      all_goals
        intro j mem
        simp_all
end Narf.Memory.RegionIndex
