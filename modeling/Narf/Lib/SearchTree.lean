import Mathlib

namespace Narf.Lib
open List

/-- Binary trees whose nodes carry the place they are stored at. -/
inductive SearchTree (ι α : Type*) where
  | leaf
  | node (place : ι) (left : SearchTree ι α) (entry : α) (right : SearchTree ι α)

namespace SearchTree
variable {ι α : Type*}
def link : SearchTree ι α → Option ι
  | leaf => none
  | node i _ _ _ => some i
def height : SearchTree ι α → Nat
  | leaf => 0
  | node _ l _ r => 1 + max l.height r.height
def size : SearchTree ι α → Nat
  | leaf => 0
  | node _ l _ r => l.size + r.size + 1
def places : SearchTree ι α → List ι
  | leaf => []
  | node i l _ r => i :: (l.places ++ r.places)
def entries : SearchTree ι α → List α
  | leaf => []
  | node _ l e r => l.entries ++ e :: r.entries
def Balanced : SearchTree ι α → Prop
  | leaf => True
  | node _ l _ r => l.height ≤ r.height + 1 ∧ r.height ≤ l.height + 1 ∧ l.Balanced ∧ r.Balanced
@[simp] lemma link_leaf : (leaf : SearchTree ι α).link = none := rfl
variable (i j : ι)
variable (l : SearchTree ι α)
@[simp] lemma link_node (e : α) (r : SearchTree ι α) : (node i l e r).link = some i := rfl
@[simp] lemma height_leaf : (leaf : SearchTree ι α).height = 0 := rfl
@[simp] lemma height_node (e : α) (r : SearchTree ι α) : (node i l e r).height = 1 + max l.height r.height := rfl
@[simp] lemma places_leaf : (leaf : SearchTree ι α).places = [] := rfl
@[simp] lemma places_node (e : α) (r : SearchTree ι α) : (node i l e r).places = i :: (l.places ++ r.places) := rfl
@[simp] lemma entries_leaf : (leaf : SearchTree ι α).entries = [] := rfl
@[simp] lemma entries_node (e : α) (r : SearchTree ι α) : (node i l e r).entries = l.entries ++ e :: r.entries := rfl
lemma length_places (t : SearchTree ι α) : t.places.length = t.size := by
  induction t with
  | leaf => rfl
  | node i l e r left right => simp [size,left,right]
lemma length_entries (t : SearchTree ι α) : t.entries.length = t.size := by
  induction t with
  | leaf => rfl
  | node i l e r left right => simp [size,left,right]; omega
lemma height_le_size (t : SearchTree ι α) : t.height ≤ t.size := by
  induction t with
  | leaf => exact le_refl 0
  | node i l e r left right => simp only [height_node,size]; omega
lemma perm_rotate (a b c : SearchTree ι α) (x y : α) : (node j a x (node i b y c)).places.Perm (node i (node j a x b) y c).places := by
  simp only [places_node,cons_append,append_assoc]
  exact (Perm.cons j perm_middle).trans (Perm.swap i j _)
lemma perm_left {l l' : SearchTree ι α} (i : ι) (e : α) (r : SearchTree ι α) (same : l.places.Perm l'.places) :
    (node i l e r).places.Perm (node i l' e r).places := by
  simp only [places_node]
  exact Perm.cons i (same.append_right _)
lemma perm_right {r r' : SearchTree ι α} (i : ι) (l : SearchTree ι α) (e : α) (same : r.places.Perm r'.places) :
    (node i l e r).places.Perm (node i l e r').places := by
  simp only [places_node]
  exact Perm.cons i (same.append_left _)
variable {t : SearchTree ι α}
lemma Balanced.fib_le (balanced : t.Balanced) : Nat.fib (t.height + 2) ≤ t.size + 1 := by
  induction t with
  | leaf => simp [size]
  | node i l e r left right =>
    obtain ⟨lr,rl,balancedL,balancedR⟩ := balanced
    have sizeL := left balancedL
    have sizeR := right balancedR
    simp only [height_node,size]
    -- the higher side gives `fib (h + 1)`, the other at least `fib h`
    rcases le_total l.height r.height with below | below
    · have lower := Nat.fib_mono (show r.height + 1 ≤ l.height + 2 by omega)
      have step : Nat.fib (1 + max l.height r.height + 2) = Nat.fib (r.height + 1) + Nat.fib (r.height + 2) := by
        rw [max_eq_right below,show 1 + r.height + 2 = r.height + 1 + 2 by omega,Nat.fib_add_two]
      omega
    · have lower := Nat.fib_mono (show l.height + 1 ≤ r.height + 2 by omega)
      have step : Nat.fib (1 + max l.height r.height + 2) = Nat.fib (l.height + 1) + Nat.fib (l.height + 2) := by
        rw [max_eq_left below,show 1 + l.height + 2 = l.height + 1 + 2 by omega,Nat.fib_add_two]
      omega
lemma Balanced.height_le (balanced : t.Balanced) (small : t.size < 2 ^ 63) : t.height ≤ 90 := by
  by_contra high
  have grown := Nat.fib_mono (show 93 ≤ t.height + 2 by omega)
  have large : 2 ^ 63 < Nat.fib 93 := by norm_num
  have bound := balanced.fib_le
  omega
/-- The same nodes and links, possibly with other entries. -/
inductive SameShape : SearchTree ι α → SearchTree ι α → Prop
  | leaf : SameShape .leaf .leaf
  | node {l l' r r' : SearchTree ι α} (i : ι) (e e' : α) (left : SameShape l l') (right : SameShape r r') :
      SameShape (.node i l e r) (.node i l' e' r')

namespace SameShape
variable {t t' : SearchTree ι α}
lemma refl (t : SearchTree ι α) : SameShape t t := by
  induction t with
  | leaf => exact .leaf
  | node i l e r left right => exact .node i e e left right
lemma link (same : SameShape t t') : t'.link = t.link := by
  cases same with
  | leaf | node => rfl
lemma height (same : SameShape t t') : t'.height = t.height := by
  induction same with
  | leaf => rfl
  | node i e e' _ _ left right => rw [height_node,height_node,left,right]
lemma places (same : SameShape t t') : t'.places = t.places := by
  induction same with
  | leaf => rfl
  | node i e e' _ _ left right => rw [places_node,places_node,left,right]
lemma balanced (same : SameShape t t') (balanced : t.Balanced) : t'.Balanced := by
  induction same with
  | leaf => trivial
  | node i e e' sameL sameR left right =>
    obtain ⟨lr,rl,balancedL,balancedR⟩ := balanced
    refine ⟨?_,?_,left balancedL,right balancedR⟩
    · rw [sameL.height,sameR.height]
      exact lr
    · rw [sameL.height,sameR.height]
      exact rl
end SameShape
/-- Put another entry at the leftmost node. -/
def setFirst (first : α) : SearchTree ι α → SearchTree ι α
  | leaf => leaf
  | node i leaf _ r => node i leaf first r
  | node i (node j a x b) e r => node i ((node j a x b).setFirst first) e r
@[simp] lemma link_setFirst (first : α) (t : SearchTree ι α) : (t.setFirst first).link = t.link := by
  fun_cases setFirst <;> rfl
@[simp] lemma height_setFirst (first : α) (t : SearchTree ι α) : (t.setFirst first).height = t.height := by
  fun_induction setFirst with
  | case1 => rfl
  | case2 => rfl
  | case3 i j a x b e r ih => rw [height_node,ih]; rfl
@[simp] lemma places_setFirst (first : α) (t : SearchTree ι α) : (t.setFirst first).places = t.places := by
  fun_induction setFirst with
  | case1 => rfl
  | case2 => rfl
  | case3 i j a x b e r ih => rw [places_node,ih]; rfl
lemma Balanced.setFirst (balanced : t.Balanced) (first : α) : (t.setFirst first).Balanced := by
  fun_induction SearchTree.setFirst first t with
  | case1 | case2 => exact balanced
  | case3 i j a x b e r ih =>
    obtain ⟨lr,rl,balancedL,balancedR⟩ := balanced
    exact ⟨by rw [height_setFirst]; exact lr,by rw [height_setFirst]; exact rl,ih balancedL,balancedR⟩
lemma entries_setFirst {old : α} {rest : List α} (first : α)
    (cut : t.entries = old :: rest) : (t.setFirst first).entries = first :: rest := by
  fun_induction SearchTree.setFirst first t generalizing rest with
  | case1 => simp at cut
  | case2 i e r =>
    simp only [entries_node,entries_leaf,nil_append,List.cons.injEq] at cut ⊢
    exact ⟨trivial,cut.2⟩
  | case3 i j a x b e r ih =>
    obtain ⟨y,ys,inner⟩ : ∃ y ys, (node j a x b).entries = y :: ys := by
      rw [entries_node]
      cases a.entries with
      | nil | cons => exact ⟨_,_,rfl⟩
    rw [entries_node,inner,cons_append,List.cons.injEq] at cut
    rw [entries_node,ih (cut.1 ▸ inner),cons_append,cut.2]
end SearchTree
end Narf.Lib
