import Mathlib

namespace Narf.Lib.IntrusiveList
open Multiset List Option

/-! Lists threaded through a `next` pointer in each node, and who owns which nodes. A root is a pointer
    that some party holds, with what the party knows of the list behind it; in a pool the lists of all
    roots are disjoint. A write to `next` of a node is harmless to all roots but the one that owns it. -/

section Segments
variable {Node : Type} (next : Node → Option Node)
/-- From `p` through the nodes of the list to `q`. -/
def Seg : Option Node → List Node → Option Node → Prop
  | p, [], q => p = q
  | p, a :: l, q => p = some a ∧ Seg (next a) l q

variable {next} {p q r : Option Node} {a t u : Node} {l m : List Node}
lemma Seg.append (first : Seg next p l q) (second : Seg next q m r) : Seg next p (l ++ m) r := by
  induction l generalizing p with
  | nil =>
    obtain rfl : p = q := first
    exact second
  | cons a l ih => exact ⟨first.1,ih first.2⟩
lemma Seg.update [DecidableEq Node] (seg : Seg next p l q) (outside : a ∉ l) : Seg (Function.update next a r) p l q := by
  induction l generalizing p with
  | nil => exact seg
  | cons b l ih =>
    rw [List.mem_cons,not_or] at outside
    refine ⟨seg.1,?_⟩
    rw [Function.update_of_ne (Ne.symm outside.1)]
    exact ih seg.2 outside.2
lemma Seg.next_mem (seg : Seg next p l none) (mem : t ∈ l) (link : next t = some u) : u ∈ l := by
  induction l generalizing p with
  | nil => cases mem
  | cons a l ih =>
    rcases mem_cons.mp mem with rfl | later
    · cases l with
      | nil => have done : next t = none := seg.2; rw [link] at done; cases done
      | cons b l =>
        have same := seg.2.1
        rw [link,some.injEq] at same
        rw [same]
        exact mem_cons_of_mem _ mem_cons_self
    · exact mem_cons_of_mem _ (ih seg.2 later)
lemma Seg.split_last (seg : Seg next p l none) (mem : t ∈ l) (last : next t = none) :
    ∃ before, l = before ++ [t] ∧ Seg next p before (some t) := by
  induction l generalizing p with
  | nil => cases mem
  | cons a l ih =>
    rcases mem_cons.mp mem with rfl | later
    · cases l with
      | nil => exact ⟨[],rfl,seg.1⟩
      | cons b l => have link := seg.2.1; rw [last] at link; cases link
    · obtain ⟨before,rfl,rest⟩ := ih seg.2 later
      exact ⟨a :: before,rfl,seg.1,rest⟩
end Segments
/-- What a party knows of the list that its pointer leads to. -/
inductive Shape (Node : Type) where
  /-- The list ends as lists do. -/
  | chain (head : Option Node)
  /-- The party walks along it. -/
  | walk (head cursor : Node)
  /-- The last node is known; what it points to does not matter. -/
  | tail (head last : Node)
  /-- The last node points out of the list. -/
  | linked (head last : Node) (out : Option Node)
  | one (a : Node)

structure Root (Node κ : Type) where
  shape : Shape Node
  /-- The length, where the party keeps it. -/
  count : Option Nat
  label : κ

section Pools
variable {Node κ : Type}
def Shape.Holds (next : Node → Option Node) : Shape Node → List Node → Prop
  | .chain head, l => Seg next head l none
  | .walk head cursor, l => Seg next (some head) l none ∧ cursor ∈ l
  | .tail head last, l => ∃ before, l = before ++ [last] ∧ Seg next (some head) before (some last)
  | .linked head last out, l => (∃ before, l = before ++ [last] ∧ Seg next (some head) before (some last)) ∧ next last = out
  | .one a, l => l = [a]
/-- The root has these nodes, and each is as the label says. -/
structure Root.Has (next : Node → Option Node) (P : κ → Node → Prop) (r : Root Node κ) (l : List Node) : Prop where
  shape : r.shape.Holds next l
  count : ∀ k ∈ r.count, l.length = k
  label : ∀ a ∈ l, P r.label a
/-- The roots have disjoint lists, and `nodes` is what they have together. -/
def Pool (next : Node → Option Node) (P : κ → Node → Prop) (roots : Multiset (Root Node κ)) (nodes : Multiset Node) : Prop :=
  ∃ held : Multiset (Root Node κ × List Node),
    held.map Prod.fst = roots ∧ (∀ x ∈ held, x.1.Has next P x.2) ∧
    (held.bind fun x => (x.2 : Multiset Node)) = nodes ∧ nodes.Nodup

variable {next : Node → Option Node} {P Q : κ → Node → Prop} {r r' : Root Node κ} {roots : Multiset (Root Node κ)}
  {nodes : Multiset Node} {a : Node} {p q : Option Node} {l : List Node}

lemma pool_cons : Pool next P (r ::ₘ roots) nodes ↔
    ∃ l m, r.Has next P l ∧ Pool next P roots m ∧ nodes = (l : Multiset Node) + m ∧ nodes.Nodup := by
  constructor
  · rintro ⟨held,maps,has,rfl,nodup⟩
    have first : r ∈ held.map Prod.fst := maps ▸ mem_cons_self r roots
    obtain ⟨⟨root,l⟩,mem,same⟩ := mem_map.mp first
    obtain rfl : root = r := same
    obtain ⟨others,rfl⟩ := exists_cons_of_mem mem
    rw [Multiset.map_cons,Multiset.cons_inj_right] at maps
    rw [cons_bind] at nodup ⊢
    refine ⟨l,_,has _ (mem_cons_self _ _),⟨others,maps,?_,rfl,?_⟩,rfl,nodup⟩
    · exact fun x inside => has x (mem_cons_of_mem inside)
    · exact (nodup_add.mp nodup).2.1
  · rintro ⟨l,_,has,⟨held,rfl,each,rfl,_⟩,rfl,nodup⟩
    refine ⟨(r,l) ::ₘ held,Multiset.map_cons ..,?_,?_,nodup⟩
    · intro x inside
      rcases Multiset.mem_cons.mp inside with rfl | other
      · exact has
      · exact each x other
    · rw [cons_bind]
lemma pool_zero : Pool next P (0 : Multiset (Root Node κ)) 0 := ⟨0,rfl,fun _ inside => absurd inside (notMem_zero _),rfl,nodup_zero⟩
lemma Pool.nodup (pool : Pool next P roots nodes) : nodes.Nodup := by
  obtain ⟨_,_,_,_,nodup⟩ := pool
  exact nodup
lemma Pool.mono (pool : Pool next P roots nodes) (more : ∀ ℓ, ∀ a ∈ nodes, P ℓ a → Q ℓ a) : Pool next Q roots nodes := by
  obtain ⟨held,maps,has,rfl,nodup⟩ := pool
  refine ⟨held,maps,fun x inside => ⟨(has x inside).shape,(has x inside).count,fun b mem => ?_⟩,rfl,nodup⟩
  exact more _ b (mem_bind.mpr ⟨x,inside,mem_coe.mpr mem⟩) ((has x inside).label b mem)
lemma Pool.label_of_mem (pool : Pool next P roots nodes) (inside : a ∈ nodes) : ∃ ℓ, P ℓ a := by
  obtain ⟨held,_,has,rfl,_⟩ := pool
  obtain ⟨x,mem,on⟩ := mem_bind.mp inside
  exact ⟨x.1.label,(has x mem).label a (mem_coe.mp on)⟩
/-- The party learns or forgets something of its list. -/
lemma Pool.imp (pool : Pool next P (r ::ₘ roots) nodes) (same : ∀ l, r.Has next P l → r'.Has next P l) :
    Pool next P (r' ::ₘ roots) nodes := by
  obtain ⟨l,m,has,rest,total,nodup⟩ := pool_cons.mp pool
  exact pool_cons.mpr ⟨l,m,same l has,rest,total,nodup⟩
lemma Pool.forget (pool : Pool next P (r ::ₘ roots) nodes) (empty : r.shape = .chain none) : Pool next P roots nodes := by
  obtain ⟨l,m,has,rest,rfl,nodup⟩ := pool_cons.mp pool
  have held := has.shape
  rw [empty] at held
  cases l with
  | nil => rw [coe_nil,zero_add]; exact rest
  | cons a l => cases held.1
lemma Pool.begin (pool : Pool next P roots nodes) (ℓ : κ) (k : Option Nat) (zero : ∀ n ∈ k, n = 0) :
    Pool next P (⟨.chain none,k,ℓ⟩ ::ₘ roots) nodes :=
  pool_cons.mpr ⟨[],nodes,⟨rfl,fun n has => (zero n has).symm,fun _ inside => (not_mem_nil inside).elim⟩,pool,
    (zero_add _).symm,pool.nodup⟩
lemma pool_empty (empty : ∀ r ∈ roots, r.shape = .chain none ∧ ∀ k ∈ r.count, k = 0) : Pool next P roots 0 := by
  induction roots using Multiset.induction with
  | empty => exact pool_zero
  | cons r roots ih =>
    obtain ⟨shape,count⟩ := empty r (mem_cons_self r roots)
    have rest := ih fun q inside => empty q (mem_cons_of_mem inside)
    obtain ⟨sh,k,ℓ⟩ := r
    obtain rfl : sh = .chain none := shape
    exact rest.begin ℓ k count
lemma Pool.begin_next (pool : Pool next P (r ::ₘ roots) nodes) (ℓ : κ) (k : Option Nat) (zero : ∀ n ∈ k, n = 0) :
    Pool next P (r ::ₘ ⟨.chain none,k,ℓ⟩ ::ₘ roots) nodes :=
  cons_swap _ r roots ▸ pool.begin ℓ k zero
lemma Pool.swap (pool : Pool next P (r ::ₘ r' ::ₘ roots) nodes) : Pool next P (r' ::ₘ r ::ₘ roots) nodes :=
  cons_swap r r' roots ▸ pool
lemma Pool.swap_next {first : Root Node κ} (pool : Pool next P (first ::ₘ r ::ₘ r' ::ₘ roots) nodes) :
    Pool next P (first ::ₘ r' ::ₘ r ::ₘ roots) nodes :=
  cons_swap r r' roots ▸ pool
lemma Pool.swap_third {first second : Root Node κ} (pool : Pool next P (first ::ₘ second ::ₘ r ::ₘ r' ::ₘ roots) nodes) :
    Pool next P (first ::ₘ second ::ₘ r' ::ₘ r ::ₘ roots) nodes :=
  cons_swap r r' roots ▸ pool
lemma Pool.pop (pool : Pool next P (⟨.chain (some a),k,ℓ⟩ ::ₘ roots) nodes) :
    Pool next P (⟨.one a,none,ℓ⟩ ::ₘ ⟨.chain (next a),none,ℓ⟩ ::ₘ roots) nodes := by
  obtain ⟨l,m,has,rest,rfl,nodup⟩ := pool_cons.mp pool
  have label := has.label
  cases l with
  | nil => cases has.shape
  | cons b l =>
    obtain ⟨same,seg⟩ := has.shape
    obtain rfl : a = b := some.inj same
    rw [← cons_coe,cons_add] at nodup ⊢
    refine pool_cons.mpr ⟨[a],l + m,?_,pool_cons.mpr ⟨l,m,?_,rest,rfl,(Multiset.nodup_cons.mp nodup).2⟩,rfl,nodup⟩
    · exact ⟨rfl,fun _ absent => (not_mem_none _ absent).elim,fun b inside => label b (List.mem_cons.mpr (.inl (List.mem_singleton.mp inside)))⟩
    · exact ⟨seg,fun _ absent => (not_mem_none _ absent).elim,fun b inside => label b (mem_cons_of_mem _ inside)⟩
/-- The list whose last node points to the other one's first is put before it. -/
lemma Pool.join {h t : Node} {k' : Option Nat} {ℓ' : κ}
    (pool : Pool next P (⟨.linked h t p,k,ℓ⟩ ::ₘ ⟨.chain p,k',ℓ'⟩ ::ₘ roots) nodes) (fits : ∀ a, P ℓ a → P ℓ' a) :
    Pool next P (⟨.chain (some h),k.bind fun n => k'.map (n + ·),ℓ'⟩ ::ₘ roots) nodes := by
  obtain ⟨l,m,has,rest,rfl,nodup⟩ := pool_cons.mp pool
  obtain ⟨list,m,chain,others,rfl,_⟩ := pool_cons.mp rest
  obtain ⟨⟨before,rfl,seg⟩,link⟩ := has.shape
  have whole : Seg next (some h) (before ++ [t]) p := seg.append ⟨rfl,link⟩
  refine pool_cons.mpr ⟨before ++ [t] ++ list,m,⟨whole.append chain.shape,?_,?_⟩,others,?_,nodup⟩
  · intro n counted
    obtain ⟨first,known,counted⟩ := bind_eq_some_iff.mp counted
    obtain ⟨second,known',rfl⟩ := map_eq_some_iff.mp counted
    rw [length_append,has.count first known,chain.count second known']
  · intro b inside
    rcases mem_append.mp inside with mine | old
    · exact fits b (has.label b mine)
    · exact chain.label b old
  · rw [← coe_add (before ++ [t]) list,add_assoc]
lemma Pool.release (pool : Pool next P (⟨.one a,k,ℓ⟩ ::ₘ roots) nodes) : ∃ m, nodes = a ::ₘ m ∧ a ∉ m ∧ P ℓ a ∧ Pool next P roots m := by
  obtain ⟨l,m,has,rest,rfl,nodup⟩ := pool_cons.mp pool
  obtain rfl : l = [a] := has.shape
  rw [coe_singleton,singleton_add] at nodup ⊢
  exact ⟨m,rfl,(Multiset.nodup_cons.mp nodup).1,has.label a (List.mem_singleton.mpr rfl),rest⟩
lemma Pool.adopt (pool : Pool next P roots nodes) (fresh : a ∉ nodes) (fits : P ℓ a) :
    Pool next P (⟨.one a,none,ℓ⟩ ::ₘ roots) (a ::ₘ nodes) := by
  refine pool_cons.mpr ⟨[a],nodes,⟨rfl,fun _ absent => (not_mem_none _ absent).elim,?_⟩,pool,rfl,Multiset.nodup_cons.mpr ⟨fresh,pool.nodup⟩⟩
  intro b inside
  rw [List.mem_singleton.mp inside]
  exact fits

/-! ## Walking to the end -/
variable {h t u : Node} {k : Option Nat} {ℓ : κ}
lemma Pool.start_walk (pool : Pool next P (⟨.chain (some h),k,ℓ⟩ ::ₘ roots) nodes) : Pool next P (⟨.walk h h,k,ℓ⟩ ::ₘ roots) nodes := by
  refine pool.imp fun l has => ⟨⟨has.shape,?_⟩,has.count,has.label⟩
  have seg := has.shape
  cases l with
  | nil => cases seg
  | cons a l => rw [some.inj seg.1]; exact mem_cons_self
lemma Pool.walk_on (pool : Pool next P (⟨.walk h t,k,ℓ⟩ ::ₘ roots) nodes) (link : next t = some u) :
    Pool next P (⟨.walk h u,k,ℓ⟩ ::ₘ roots) nodes :=
  pool.imp fun _ has => ⟨⟨has.shape.1,has.shape.1.next_mem has.shape.2 link⟩,has.count,has.label⟩
lemma Pool.end_walk (pool : Pool next P (⟨.walk h t,k,ℓ⟩ ::ₘ roots) nodes) (last : next t = none) :
    Pool next P (⟨.tail h t,k,ℓ⟩ ::ₘ roots) nodes :=
  pool.imp fun _ has => ⟨has.shape.1.split_last has.shape.2 last,has.count,has.label⟩
lemma Pool.unlink_last {out : Option Node} (pool : Pool next P (⟨.linked h t out,k,ℓ⟩ ::ₘ roots) nodes) :
    Pool next P (⟨.tail h t,k,ℓ⟩ ::ₘ roots) nodes :=
  pool.imp fun _ has => ⟨has.shape.1,has.count,has.label⟩

/-! ## Writing -/
variable [DecidableEq Node]
lemma Root.Has.update (has : r.Has next P l) (outside : a ∉ l) : r.Has (Function.update next a q) P l := by
  refine ⟨?_,has.count,has.label⟩
  have held := has.shape
  cases shape : r.shape with
  | chain head => rw [shape] at held; exact held.update outside
  | walk head cursor => rw [shape] at held; exact ⟨held.1.update outside,held.2⟩
  | tail head last =>
    rw [shape] at held
    obtain ⟨before,rfl,seg⟩ := held
    exact ⟨before,rfl,seg.update fun inside => outside (mem_append_left _ inside)⟩
  | linked head last out =>
    rw [shape] at held
    obtain ⟨⟨before,rfl,seg⟩,link⟩ := held
    refine ⟨⟨before,rfl,seg.update fun inside => outside (mem_append_left _ inside)⟩,?_⟩
    rw [Function.update_of_ne]
    · exact link
    · rintro rfl
      exact outside (List.mem_append_right _ (List.mem_singleton.mpr rfl))
  | one b => rw [shape] at held; exact held
lemma Pool.update (pool : Pool next P roots nodes) (outside : a ∉ nodes) : Pool (Function.update next a q) P roots nodes := by
  obtain ⟨held,maps,has,rfl,nodup⟩ := pool
  refine ⟨held,maps,fun x inside => (has x inside).update fun mem => outside ?_,rfl,nodup⟩
  exact mem_bind.mpr ⟨x,inside,mem_coe.mpr mem⟩
lemma Pool.write (pool : Pool next P (r ::ₘ roots) nodes)
    (own : ∀ l, r.Has next P l → a ∈ l ∧ (l.Nodup → r'.Has (Function.update next a q) P l)) :
    Pool (Function.update next a q) P (r' ::ₘ roots) nodes := by
  obtain ⟨l,m,has,rest,rfl,nodup⟩ := pool_cons.mp pool
  obtain ⟨mine,after⟩ := own l has
  have parts := nodup_add.mp nodup
  refine pool_cons.mpr ⟨l,m,after (coe_nodup.mp parts.1),rest.update ?_,rfl,nodup⟩
  exact fun other => disjoint_left.mp parts.2.2 (mem_coe.mpr mine) other
lemma Pool.push {k' : Option Nat} {ℓ' : κ} (pool : Pool next P (⟨.one a,k',ℓ⟩ ::ₘ ⟨.chain p,k,ℓ'⟩ ::ₘ roots) nodes)
    (fits : P ℓ a → P ℓ' a) : Pool (Function.update next a p) P (⟨.chain (some a),k.map (· + 1),ℓ'⟩ ::ₘ roots) nodes := by
  obtain ⟨l,m,has,rest,rfl,nodup⟩ := pool_cons.mp pool
  obtain ⟨list,m,chain,others,rfl,_⟩ := pool_cons.mp rest
  obtain rfl : l = [a] := has.shape
  rw [coe_singleton,singleton_add] at nodup ⊢
  have fresh := (Multiset.nodup_cons.mp nodup).1
  rw [mem_add,not_or,mem_coe] at fresh
  refine pool_cons.mpr ⟨a :: list,m,⟨?_,?_,?_⟩,others.update fresh.2,?_,nodup⟩
  · refine ⟨rfl,?_⟩
    rw [Function.update_self]
    exact (chain.update fresh.1).shape
  · intro n counted
    obtain ⟨before,known,rfl⟩ := map_eq_some_iff.mp counted
    rw [length_cons,chain.count before known]
  · intro b inside
    rcases mem_cons.mp inside with rfl | old
    · exact fits (has.label b (List.mem_singleton.mpr rfl))
    · exact chain.label b old
  · rw [← cons_coe,cons_add]
lemma Pool.link_last (pool : Pool next P (⟨.tail h t,k,ℓ⟩ ::ₘ roots) nodes) (out : Option Node) :
    Pool (Function.update next t out) P (⟨.linked h t out,k,ℓ⟩ ::ₘ roots) nodes := by
  refine pool.write fun l has => ?_
  obtain ⟨before,rfl,seg⟩ := has.shape
  refine ⟨List.mem_append_right _ (List.mem_singleton.mpr rfl),fun nodup => ⟨⟨⟨before,rfl,seg.update ?_⟩,?_⟩,has.count,has.label⟩⟩
  · intro inside
    exact List.disjoint_of_nodup_append nodup inside (List.mem_singleton.mpr rfl)
  · rw [Function.update_self]
end Pools
end Narf.Lib.IntrusiveList
