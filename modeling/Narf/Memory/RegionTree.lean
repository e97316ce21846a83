import Narf.Lib.SortedMap
import Narf.Lib.SearchTree
import Narf.Memory.RegionIndex

namespace Narf.Memory.RegionIndex
open Lib Lib.SearchTree List Option

variable {V : Type} {m m' m₁ m₂ : RegionIndex V} {i j : Nat} {n : Node V}
  {t l r : SearchTree Nat (Nat × V)} {e : Nat × V} {touched : List Nat}

/-- The arena stores the tree: every node is at its place, with its links and its exact height. -/
def Holds (m : RegionIndex V) : SearchTree Nat (Nat × V) → Prop
  | .leaf => True
  | .node i l e r =>
    m.node i = some ⟨e.1,e.2,l.link,r.link,(SearchTree.node i l e r).height⟩ ∧ m.Holds l ∧ m.Holds r
/-- As `Holds`, with any stored height at the root: the state between relinking a node and
    `update_height`. -/
def Rooted (m : RegionIndex V) (i : Nat) (l : SearchTree Nat (Nat × V)) (e : Nat × V) (r : SearchTree Nat (Nat × V)) : Prop :=
  (∃ h, m.node i = some ⟨e.1,e.2,l.link,r.link,h⟩) ∧ m.Holds l ∧ m.Holds r
/-- Only the slots at the touched places changed. -/
structure Rewired (m m' : RegionIndex V) (touched : List Nat) : Prop where
  fields : m' = { m with slots := m'.slots }
  length : m'.slots.length = m.slots.length
  kept : ∀ i, i ∉ touched → m'.slots[i]? = m.slots[i]?
lemma Rewired.refl (m : RegionIndex V) (touched : List Nat) : Rewired m m touched :=
  ⟨rfl,rfl,fun _ _ => rfl⟩
lemma Rewired.trans (first : Rewired m m₁ touched) (second : Rewired m₁ m₂ touched) : Rewired m m₂ touched := by
  refine ⟨?_,second.length.trans first.length,?_⟩
  · rw [second.fields,first.fields]
  · intro i outside
    rw [second.kept i outside,first.kept i outside]
lemma Rewired.mono {more : List Nat} (rewired : Rewired m m' touched) (sub : ∀ i ∈ touched, i ∈ more) : Rewired m m' more :=
  ⟨rewired.fields,rewired.length,fun i outside => rewired.kept i (fun inside => outside (sub i inside))⟩
lemma node_congr (same : m'.slots[i]? = m.slots[i]?) : m'.node i = m.node i := by rw [node,node,same]
lemma Holds.congr (holds : m.Holds t) (same : ∀ i ∈ t.places, m'.slots[i]? = m.slots[i]?) : m'.Holds t := by
  induction t with
  | leaf => trivial
  | node i l e r left right =>
    obtain ⟨at_i,holdsL,holdsR⟩ := holds
    refine ⟨?_,left holdsL ?_,right holdsR ?_⟩
    · rw [node_congr (same i (by simp))]
      exact at_i
    · intro j mem
      exact same j (by simp [mem])
    · intro j mem
      exact same j (by simp [mem])
lemma Rewired.holds (rewired : Rewired m m' touched) (holds : m.Holds t) (apart : ∀ i ∈ t.places, i ∉ touched) : m'.Holds t :=
  holds.congr (fun i mem => rewired.kept i (apart i mem))
lemma Rewired.node (rewired : Rewired m m' touched) (outside : i ∉ touched) : m'.node i = m.node i :=
  node_congr (rewired.kept i outside)
lemma slot_of_node (at_i : m.node i = some n) : m.slots[i]? = some (.Occupied n) := by
  rw [node] at at_i
  split at at_i
  · rename_i found
    rw [found,some.inj at_i]
  · exact absurd at_i (by simp)
lemma node_of_slot (at_i : m.slots[i]? = some (.Occupied n)) : m.node i = some n := by rw [node,at_i]
lemma lt_of_node (at_i : m.node i = some n) : i < m.slots.length :=
  (List.getElem?_eq_some_iff.mp (slot_of_node at_i)).1
lemma lt_of_holds (holds : m.Holds t) : ∀ i ∈ t.places, i < m.slots.length := by
  induction t with
  | leaf => simp
  | node i l e r left right =>
    obtain ⟨at_i,holdsL,holdsR⟩ := holds
    intro j mem
    simp only [places_node,mem_cons,mem_append] at mem
    rcases mem with rfl | mem | mem
    · exact lt_of_node at_i
    · exact left holdsL j mem
    · exact right holdsR j mem
lemma node_mut_spec (change : Node V → Node V) (at_i : m.node i = some n) :
    ∃ m', m.node_mut i change = some m' ∧ m'.node i = some (change n) ∧ Rewired m m' [i] := by
  refine ⟨_,by rw [node_mut,at_i]; rfl,?_,rfl,by simp,?_⟩
  · exact node_of_slot (by simp [lt_of_node at_i])
  · intro j outside
    have other : i ≠ j := fun same => outside (mem_singleton.mpr same.symm)
    simp [getElem?_set_ne other]
lemma Rewired.holds_apart (rewired : Rewired m m' [i]) (holds : m.Holds t) (fresh : i ∉ t.places) : m'.Holds t :=
  rewired.holds holds (fun _ mem inside => fresh (mem_singleton.mp inside ▸ mem))
lemma node_mut_rooted (change : Node V → Node V) (at_i : m.node i = some n)
    (changed : ∃ h, change n = ⟨e.1,e.2,l.link,r.link,h⟩) (holdsL : m.Holds l) (holdsR : m.Holds r)
    (freshL : i ∉ l.places) (freshR : i ∉ r.places) : ∃ m', m.node_mut i change = some m' ∧ m'.Rooted i l e r ∧ Rewired m m' [i] := by
  obtain ⟨m',executed,at_i',rewired⟩ := node_mut_spec change at_i
  obtain ⟨h,changed⟩ := changed
  exact ⟨m',executed,⟨⟨h,changed ▸ at_i'⟩,rewired.holds_apart holdsL freshL,rewired.holds_apart holdsR freshR⟩,rewired⟩
lemma height_link (holds : m.Holds t) : m.height t.link = some t.height := by
  cases t with
  | leaf => rfl
  | node i l e r => simp [height,holds.1]
lemma update_height_spec (rooted : m.Rooted i l e r) (freshL : i ∉ l.places) (freshR : i ∉ r.places)
    (small : 1 + max l.height r.height ≤ 255) : ∃ m', m.update_height i = some m' ∧ m'.Holds (.node i l e r) ∧ Rewired m m' [i] := by
  obtain ⟨⟨h,at_i⟩,holdsL,holdsR⟩ := rooted
  obtain ⟨m',executed,at_i',rewired⟩ :=
    node_mut_spec (fun n => { n with height := 1 + max l.height r.height }) at_i
  refine ⟨m',?_,⟨at_i',rewired.holds_apart holdsL freshL,rewired.holds_apart holdsR freshR⟩,rewired⟩
  simp [update_height,at_i,height_link holdsL,height_link holdsR,small,executed]
lemma balance_factor_spec (holds : m.Holds (.node i l e r)) : m.balance_factor i = some ((l.height : Int) - r.height) := by
  simp [balance_factor,holds.1,height_link holds.2.1,height_link holds.2.2]
lemma Holds.rooted (holds : m.Holds (.node i l e r)) : m.Rooted i l e r :=
  ⟨⟨_,holds.1⟩,holds.2⟩
/-- How the places of a node's subtrees lie apart. -/
structure Spread (i : Nat) (l r : SearchTree Nat (Nat × V)) : Prop where
  rootL : i ∉ l.places
  rootR : i ∉ r.places
  nodupL : l.places.Nodup
  nodupR : r.places.Nodup
  apart : ∀ j ∈ l.places, j ∉ r.places
lemma spread_iff : (places (.node i l e r)).Nodup ↔ Spread i l r := by
  rw [places_node,nodup_cons,mem_append,not_or,nodup_append]
  constructor
  · rintro ⟨⟨rootL,rootR⟩,nodupL,nodupR,apart⟩
    exact ⟨rootL,rootR,nodupL,nodupR,fun j left_ right => apart j left_ j right rfl⟩
  · rintro ⟨rootL,rootR,nodupL,nodupR,apart⟩
    refine ⟨⟨rootL,rootR⟩,nodupL,nodupR,?_⟩
    rintro j left_ _ right rfl
    exact apart j left_ right
section Rotations
variable {root pivot : Nat} {a b c : SearchTree Nat (Nat × V)} {x y : Nat × V}
lemma rotate_left_spec (rooted : m.Rooted root a x (.node pivot b y c)) (nodup : (places (.node root a x (.node pivot b y c))).Nodup)
    (smallA : a.height ≤ 252) (smallB : b.height ≤ 252) (smallC : c.height ≤ 252) : ∃ m', m.rotate_left root = some (m',pivot) ∧
      m'.Holds (.node pivot (.node root a x b) y c) ∧ Rewired m m' [root,pivot] := by
  obtain ⟨⟨h,at_root⟩,holdsA,at_pivot,holdsB,holdsC⟩ := rooted
  simp only [places_node,nodup_cons,mem_append,mem_cons,not_or,nodup_append,ne_eq] at nodup
  obtain ⟨⟨rootA,rootPivot,rootB,rootC⟩,-,⟨⟨pivotB,pivotC⟩,-,-,apartBC⟩,apartA⟩ := nodup
  have pivotA : pivot ∉ a.places := fun mem => apartA pivot mem pivot (Or.inl rfl) rfl
  obtain ⟨m₁,linked,rooted₁,rewired₁⟩ := node_mut_rooted (l := a) (e := x) (r := b)
    (fun n => { n with right := b.link }) at_root ⟨h,rfl⟩ holdsA holdsB rootA rootB
  obtain ⟨m₂,updated,holds₂,rewired₂⟩ := update_height_spec rooted₁ rootA rootB (by omega)
  have first := rewired₁.trans rewired₂
  have at_pivot₂ : m₂.node pivot = some ⟨y.1,y.2,b.link,c.link,_⟩ :=
    (first.node (by simpa using Ne.symm rootPivot)).trans at_pivot
  have holdsC₂ := first.holds_apart holdsC rootC
  have freshRoot : pivot ∉ (places (.node root a x b)) := by simp [Ne.symm rootPivot,pivotA,pivotB]
  obtain ⟨m₃,linked₃,rooted₃,rewired₃⟩ := node_mut_rooted (l := .node root a x b) (e := y) (r := c)
    (fun n => { n with left := some root }) at_pivot₂ ⟨_,rfl⟩ holds₂ holdsC₂ freshRoot pivotC
  obtain ⟨m₄,updated₄,holds₄,rewired₄⟩ := update_height_spec rooted₃ freshRoot pivotC (by simp only [height_node]; omega)
  refine ⟨m₄,?_,holds₄,?_⟩
  · simp [rotate_left,at_root,at_pivot,linked,updated,linked₃,updated₄]
  · exact (first.mono (by simp)).trans ((rewired₃.trans rewired₄).mono (by simp))
lemma rotate_right_spec (rooted : m.Rooted root (.node pivot a x b) y c) (nodup : (places (.node root (.node pivot a x b) y c)).Nodup)
    (smallA : a.height ≤ 252) (smallB : b.height ≤ 252) (smallC : c.height ≤ 252) : ∃ m', m.rotate_right root = some (m',pivot) ∧
      m'.Holds (.node pivot a x (.node root b y c)) ∧ Rewired m m' [root,pivot] := by
  obtain ⟨⟨h,at_root⟩,⟨at_pivot,holdsA,holdsB⟩,holdsC⟩ := rooted
  simp only [places_node,nodup_cons,mem_append,mem_cons,not_or,nodup_append,ne_eq] at nodup
  obtain ⟨⟨⟨rootPivot,rootA,rootB⟩,rootC⟩,⟨⟨pivotA,pivotB⟩,-,-,apartAB⟩,-,apartC⟩ := nodup
  have pivotC : pivot ∉ c.places := fun mem => apartC pivot (Or.inl rfl) pivot mem rfl
  obtain ⟨m₁,linked,rooted₁,rewired₁⟩ := node_mut_rooted (l := b) (e := y) (r := c)
    (fun n => { n with left := b.link }) at_root ⟨h,rfl⟩ holdsB holdsC rootB rootC
  obtain ⟨m₂,updated,holds₂,rewired₂⟩ := update_height_spec rooted₁ rootB rootC (by omega)
  have first := rewired₁.trans rewired₂
  have at_pivot₂ : m₂.node pivot = some ⟨x.1,x.2,a.link,b.link,_⟩ :=
    (first.node (by simpa using Ne.symm rootPivot)).trans at_pivot
  have holdsA₂ := first.holds_apart holdsA rootA
  have freshRoot : pivot ∉ (places (.node root b y c)) := by simp [Ne.symm rootPivot,pivotB,pivotC]
  obtain ⟨m₃,linked₃,rooted₃,rewired₃⟩ := node_mut_rooted (l := a) (e := x) (r := .node root b y c)
    (fun n => { n with right := some root }) at_pivot₂ ⟨_,rfl⟩ holdsA₂ holds₂ pivotA freshRoot
  obtain ⟨m₄,updated₄,holds₄,rewired₄⟩ := update_height_spec rooted₃ pivotA freshRoot (by simp only [height_node]; omega)
  refine ⟨m₄,?_,holds₄,?_⟩
  · simp [rotate_right,at_root,at_pivot,linked,updated,linked₃,updated₄]
  · exact (first.mono (by simp)).trans ((rewired₃.trans rewired₄).mono (by simp))
end Rotations
/-- What rebalancing makes of a node with the given subtrees: the same entries at the same places
    in a balanced tree, no lower than before by more than the excess. -/
structure Levelled (i : Nat) (l : SearchTree Nat (Nat × V)) (e : Nat × V) (r t : SearchTree Nat (Nat × V)) : Prop where
  balanced : t.Balanced
  entries : t.entries = l.entries ++ e :: r.entries
  places : t.places.Perm (SearchTree.node i l e r).places
  level : l.height ≤ r.height + 1 → r.height ≤ l.height + 1 → t.height = 1 + max l.height r.height
  low : max l.height r.height ≤ t.height
  high : t.height ≤ 1 + max l.height r.height

section
variable (holds : m.Holds (.node i l e r)) (nodup : (SearchTree.node i l e r).places.Nodup) (balancedL : l.Balanced) (balancedR : r.Balanced)
include holds nodup balancedL balancedR
lemma lower_left_spec (heavy : l.height = r.height + 2) (small : l.height ≤ 250) :
    ∃ m' p t, m.lower_left i = some (m',p) ∧ t.link = some p ∧ m'.Holds t ∧ Levelled i l e r t ∧
      Rewired m m' (SearchTree.node i l e r).places := by
  cases l with
  | leaf => simp at heavy
  | node p a x b =>
    obtain ⟨ab,ba,balancedA,balancedB⟩ := balancedL
    simp only [height_node] at heavy small
    have linked : m.node i = some ⟨_,_,some p,_,_⟩ := holds.1
    have tilt := balance_factor_spec holds.2.1
    by_cases leans : a.height < b.height
    · -- the left child leans right: its right child is raised twice
      cases b with
      | leaf => simp at leans
      | node q c y d =>
        obtain ⟨cd,dc,balancedC,balancedD⟩ := balancedB
        simp only [height_node] at leans ab ba heavy small
        have spread := spread_iff.mp nodup
        obtain ⟨m₁,raised,holds₁,rewired₁⟩ :=
          rotate_left_spec holds.2.1.rooted spread.nodupL (by omega) (by omega) (by omega)
        have inside : Rewired m m₁ (places (.node p a x (.node q c y d))) := rewired₁.mono (by simp)
        have at_i₁ : m₁.node i = _ := (inside.node spread.rootL).trans holds.1
        have holdsR₁ := inside.holds holds.2.2 fun j mem within => spread.apart j within mem
        have turned : (SearchTree.node i (.node q (.node p a x c) y d) e r).places.Perm
            (SearchTree.node i (.node p a x (.node q c y d)) e r).places :=
          perm_left i e r (perm_rotate q p a c d x y).symm
        have nodup₁ := turned.nodup_iff.mpr nodup
        have fresh := spread_iff.mp nodup₁
        obtain ⟨m₂,linked₂,rooted₂,rewired₂⟩ :=
          node_mut_rooted (l := .node q (.node p a x c) y d) (e := e) (r := r)
            (fun n => { n with left := some q }) at_i₁ ⟨_,rfl⟩ holds₁ holdsR₁ fresh.rootL fresh.rootR
        obtain ⟨m₃,lowered,holds₃,rewired₃⟩ := rotate_right_spec rooted₂ nodup₁
          (by simp only [height_node]; omega) (by omega) (by omega)
        refine ⟨m₃,q,_,?_,rfl,holds₃,?_,?_⟩
        · have leaning : (a.height : Int) - (SearchTree.node q c y d).height < 0 := by
            simp only [height_node]; omega
          simp only [lower_left,linked,tilt,bind_eq_bind,bind_some,leaning,if_true,raised,linked₂,lowered]
        · refine ⟨?_,by simp,?_,?_,?_,?_⟩
          · simp only [SearchTree.Balanced,height_node]
            exact ⟨by omega,by omega,⟨by omega,by omega,balancedA,balancedC⟩,by omega,by omega,balancedD,balancedR⟩
          · exact (perm_rotate i q (.node p a x c) d r y e).trans turned
          all_goals simp only [height_node]; omega
        · refine (rewired₁.mono ?_).trans ((rewired₂.mono ?_).trans (rewired₃.mono ?_))
          all_goals simp
    · obtain ⟨m₁,lowered,holds₁,rewired₁⟩ := rotate_right_spec holds.rooted nodup (by omega) (by omega) (by omega)
      refine ⟨m₁,p,_,?_,rfl,holds₁,?_,?_⟩
      · have leaning : ¬ (a.height : Int) - b.height < 0 := by omega
        simp only [lower_left,linked,tilt,bind_eq_bind,bind_some,leaning,if_false,lowered]
      · refine ⟨?_,by simp,?_,?_,?_,?_⟩
        · simp only [SearchTree.Balanced,height_node]
          exact ⟨by omega,by omega,balancedA,by omega,by omega,balancedB,balancedR⟩
        · exact perm_rotate i p a b r x e
        all_goals simp only [height_node]; omega
      · exact rewired₁.mono (by simp)
lemma lower_right_spec (heavy : r.height = l.height + 2) (small : r.height ≤ 250) :
    ∃ m' p t, m.lower_right i = some (m',p) ∧ t.link = some p ∧ m'.Holds t ∧ Levelled i l e r t ∧
      Rewired m m' (SearchTree.node i l e r).places := by
  cases r with
  | leaf => simp at heavy
  | node p a x b =>
    obtain ⟨ab,ba,balancedA,balancedB⟩ := balancedR
    simp only [height_node] at heavy small
    have linked : m.node i = some ⟨_,_,_,some p,_⟩ := holds.1
    have tilt := balance_factor_spec holds.2.2
    by_cases leans : b.height < a.height
    · -- the right child leans left: its left child is raised twice
      cases a with
      | leaf => simp at leans
      | node q c y d =>
        obtain ⟨cd,dc,balancedC,balancedD⟩ := balancedA
        simp only [height_node] at leans ab ba heavy small
        have spread := spread_iff.mp nodup
        obtain ⟨m₁,raised,holds₁,rewired₁⟩ :=
          rotate_right_spec holds.2.2.rooted spread.nodupR (by omega) (by omega) (by omega)
        have inside : Rewired m m₁ (places (.node p (.node q c y d) x b)) := rewired₁.mono (by simp)
        have at_i₁ : m₁.node i = _ := (inside.node spread.rootR).trans holds.1
        have holdsL₁ := inside.holds holds.2.1 fun j mem within => spread.apart j mem within
        have turned : (SearchTree.node i l e (.node q c y (.node p d x b))).places.Perm
            (SearchTree.node i l e (.node p (.node q c y d) x b)).places :=
          perm_right i l e (perm_rotate p q c d b y x)
        have nodup₁ := turned.nodup_iff.mpr nodup
        have fresh := spread_iff.mp nodup₁
        obtain ⟨m₂,linked₂,rooted₂,rewired₂⟩ :=
          node_mut_rooted (l := l) (e := e) (r := .node q c y (.node p d x b))
            (fun n => { n with right := some q }) at_i₁ ⟨_,rfl⟩ holdsL₁ holds₁ fresh.rootL fresh.rootR
        obtain ⟨m₃,lowered,holds₃,rewired₃⟩ := rotate_left_spec rooted₂ nodup₁
          (by omega) (by omega) (by simp only [height_node]; omega)
        refine ⟨m₃,q,_,?_,rfl,holds₃,?_,?_⟩
        · have leaning : 0 < ((SearchTree.node q c y d).height : Int) - b.height := by
            simp only [height_node]; omega
          simp only [lower_right,linked,tilt,bind_eq_bind,bind_some,leaning,if_true,raised,linked₂,lowered]
        · refine ⟨?_,by simp,?_,?_,?_,?_⟩
          · simp only [SearchTree.Balanced,height_node]
            exact ⟨by omega,by omega,⟨by omega,by omega,balancedL,balancedC⟩,by omega,by omega,balancedD,balancedB⟩
          · exact (perm_rotate q i l c (.node p d x b) e y).symm.trans turned
          all_goals simp only [height_node]; omega
        · refine (rewired₁.mono ?_).trans ((rewired₂.mono ?_).trans (rewired₃.mono ?_))
          all_goals simp
    · obtain ⟨m₁,lowered,holds₁,rewired₁⟩ := rotate_left_spec holds.rooted nodup (by omega) (by omega) (by omega)
      refine ⟨m₁,p,_,?_,rfl,holds₁,?_,?_⟩
      · have leaning : ¬ 0 < (a.height : Int) - b.height := by omega
        simp only [lower_right,linked,tilt,bind_eq_bind,bind_some,leaning,if_false,lowered]
      · refine ⟨?_,by simp,?_,?_,?_,?_⟩
        · simp only [SearchTree.Balanced,height_node]
          exact ⟨by omega,by omega,⟨by omega,by omega,balancedL,balancedA⟩,balancedB⟩
        · exact (perm_rotate p i l a b e x).symm
        all_goals simp only [height_node]; omega
      · exact rewired₁.mono (by simp)
end
lemma rebalance_spec (rooted : m.Rooted i l e r) (nodup : (places (.node i l e r)).Nodup)
    (balancedL : l.Balanced) (balancedR : r.Balanced) (lr : l.height ≤ r.height + 2) (rl : r.height ≤ l.height + 2)
    (smallL : l.height ≤ 250) (smallR : r.height ≤ 250) :
    ∃ m' p t, m.rebalance i = some (m',p) ∧ t.link = some p ∧ m'.Holds t ∧ Levelled i l e r t ∧ Rewired m m' (places (.node i l e r)) := by
  have fresh := spread_iff.mp nodup
  obtain ⟨m₁,updated,holds₁,rewired₁⟩ := update_height_spec rooted fresh.rootL fresh.rootR (by omega)
  have tilt := balance_factor_spec holds₁
  have touched : Rewired m m₁ (places (.node i l e r)) := rewired₁.mono (by simp)
  by_cases leftHeavy : l.height = r.height + 2
  · obtain ⟨m₂,p,t,lowered,link,holds₂,levelled,rewired₂⟩ :=
      lower_left_spec holds₁ nodup balancedL balancedR leftHeavy smallL
    have heavy : 1 < (l.height : Int) - r.height := by omega
    refine ⟨m₂,p,t,?_,link,holds₂,levelled,touched.trans rewired₂⟩
    simp only [rebalance,updated,tilt,bind_eq_bind,bind_some,heavy,if_true,lowered]
  · by_cases rightHeavy : r.height = l.height + 2
    · obtain ⟨m₂,p,t,lowered,link,holds₂,levelled,rewired₂⟩ :=
        lower_right_spec holds₁ nodup balancedL balancedR rightHeavy smallR
      have notLeft : ¬ 1 < (l.height : Int) - r.height := by omega
      have heavy : (l.height : Int) - r.height < -1 := by omega
      refine ⟨m₂,p,t,?_,link,holds₂,levelled,touched.trans rewired₂⟩
      simp only [rebalance,updated,tilt,bind_eq_bind,bind_some,notLeft,heavy,if_true,if_false,lowered]
    · have notLeft : ¬ 1 < (l.height : Int) - r.height := by omega
      have notRight : ¬ (l.height : Int) - r.height < -1 := by omega
      refine ⟨m₁,i,_,?_,rfl,holds₁,?_,touched⟩
      · simp only [rebalance,updated,tilt,bind_eq_bind,bind_some,notLeft,notRight,if_false]
      · refine ⟨⟨by omega,by omega,balancedL,balancedR⟩,rfl,Perm.refl _,fun _ _ => rfl,?_,le_rfl⟩
        simp only [height_node]
        omega
end Narf.Memory.RegionIndex
