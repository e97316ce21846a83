import Mathlib

/-! The graph passes of the IR builder: traversal order, dominators, strongly connected
components, and the choice of widening points. A graph is given by its block count and
its successor and predecessor lists. The loops run on fuel: each traversal takes one
step per edge and one per block, and each dominator round but the last moves an
immediate dominator up. -/

namespace Narf.Bpf.Cfg
/-- The source's `u32::MAX` sentinel. -/
def NONE : Nat := 2 ^ 32 - 1
def update {α : Type} (f : Nat → α) (key : Nat) (value : α) : Nat → α :=
  fun other => if other = key then value else f other

variable (n : Nat) (succs preds : Nat → List Nat)
def traversal_fuel : Nat := ((List.range n).map (fun b => (succs b).length + 1)).sum
/-- Depth-first search on an explicit stack; finished blocks are consed, which yields
    the reverse postorder. -/
def postorder_loop : Nat → List Nat → List Nat → List (Nat × Nat) → List Nat
  | 0,_,post,_ => post
  | _ + 1,_,post,[] => post
  | fuel + 1,seen,post,(b,next) :: rest =>
    match (succs b)[next]? with
    | some s =>
      if seen.contains s then postorder_loop fuel seen post ((b,next + 1) :: rest)
      else postorder_loop fuel (s :: seen) post ((s,0) :: (b,next + 1) :: rest)
    | none => postorder_loop fuel seen (b :: post) rest
def reverse_postorder (entry : Nat) : List Nat :=
  postorder_loop succs (traversal_fuel n succs) [entry] [] [(entry,0)]

/-! ### Dominators -/
/-- Walk the two blocks up until they meet; the nested loops of the source, one step
    at a time. -/
def intersect (rpo idom : Nat → Nat) : Nat → Nat → Nat → Nat
  | 0,a,_ => a
  | fuel + 1,a,b =>
    if a = b then a
    else if rpo b < rpo a then
      let next := idom a
      if next = a ∨ next = NONE then b else intersect rpo idom fuel next b
    else if rpo a < rpo b then
      let next := idom b
      if next = b ∨ next = NONE then a else intersect rpo idom fuel a next
    else a
def new_idom (rpo idom : Nat → Nat) (b : Nat) : Nat :=
  (preds b).foldl (fun best p =>
    if idom p = NONE then best
    else if best = NONE then p
    else intersect rpo idom (2 * n) p best) NONE
/-- One sweep over the blocks after the entry, and whether it changed anything. -/
def idom_round (rpo : Nat → Nat) : List Nat → (Nat → Nat) → Bool → (Nat → Nat) × Bool
  | [],idom,changed => (idom,changed)
  | b :: rest,idom,changed =>
    let best := new_idom n preds rpo idom b
    if best ≠ NONE ∧ idom b ≠ best then idom_round rpo rest (update idom b best) true
    else idom_round rpo rest idom changed
def idom_rounds (rpo : Nat → Nat) (order : List Nat) : Nat → (Nat → Nat) → Nat → Nat
  | 0,idom => idom
  | fuel + 1,idom =>
    match idom_round n preds rpo order idom false with
    | (next,true) => idom_rounds rpo order fuel next
    | (next,false) => next
def compute_idoms (rpo : Nat → Nat) (order : List Nat) (entry : Nat) : Nat → Nat :=
  idom_rounds n preds rpo order.tail (n * n + 1) (update (fun _ => NONE) entry entry)
def dominates (idom : Nat → Nat) (a : Nat) : Nat → Nat → Bool
  | 0,cur => cur == a
  | fuel + 1,cur =>
    if cur = a then true
    else
      let next := idom cur
      if next = cur ∨ next = NONE then false else dominates idom a fuel next
/-- The back edges of the blocks reachable from `entry`: edges to a dominator. -/
def back_edges (entry : Nat) : List (Nat × Nat) :=
  let order := reverse_postorder n succs entry
  let rpo := fun b => if order.contains b then order.idxOf b else NONE
  let idom := compute_idoms n preds rpo order entry
  order.flatMap fun b => ((succs b).filter (fun s => dominates idom s n b)).map (fun s => (b,s))

/-! ### Strongly connected components -/
structure Tarjan where
  index : Nat → Nat
  lowlink : Nat → Nat
  on_stack : Nat → Bool
  stack : List Nat
  next_index : Nat
  components : List (List Nat)
def Tarjan.start : Tarjan := ⟨fun _ => NONE,fun _ => 0,fun _ => false,[],0,[]⟩
def Tarjan.visit (t : Tarjan) (v : Nat) : Tarjan :=
  { t with
    index := update t.index v t.next_index
    lowlink := update t.lowlink v t.next_index
    on_stack := update t.on_stack v true
    stack := v :: t.stack
    next_index := t.next_index + 1 }
def Tarjan.lower (t : Tarjan) (v value : Nat) : Tarjan :=
  { t with lowlink := update t.lowlink v (min (t.lowlink v) value) }
/-- Pop the component of `v`; it is kept when it is a cycle. -/
def Tarjan.close (t : Tarjan) (v : Nat) (self_loop : Bool) : Tarjan :=
  if t.lowlink v = t.index v then
    let members := t.stack.takeWhile (fun w => w != v) ++ [v]
    let rest := (t.stack.dropWhile (fun w => w != v)).tail
    { t with
      stack := rest
      on_stack := fun w => if members.contains w then false else t.on_stack w
      components := if 1 < members.length || self_loop then t.components ++ [members] else t.components }
  else t

variable (live : Nat → Bool)
def tarjan_loop : Nat → Tarjan → List (Nat × Nat) → Tarjan
  | 0,t,_ => t
  | _ + 1,t,[] => t
  | fuel + 1,t,(v,si) :: rest =>
    match (succs v)[si]? with
    | some w =>
      if !live w then tarjan_loop fuel t ((v,si + 1) :: rest)
      else if t.index w = NONE then tarjan_loop fuel (t.visit w) ((w,0) :: (v,si + 1) :: rest)
      else if t.on_stack w then tarjan_loop fuel (t.lower v (t.index w)) ((v,si + 1) :: rest)
      else tarjan_loop fuel t ((v,si + 1) :: rest)
    | none =>
      let t :=
        match rest with
        | [] => t
        | (parent,_) :: _ => t.lower parent (t.lowlink v)
      tarjan_loop fuel (t.close v ((succs v).contains v && live v)) rest
def cyclic_components : List (List Nat) :=
  ((List.range n).foldl (fun t root =>
    if !live root || t.index root != NONE then t
    else tarjan_loop succs live (traversal_fuel n succs) (t.visit root) [(root,0)]) Tarjan.start).components
def tarjan_scc (b : Nat) : Nat :=
  let components := cyclic_components n succs (fun _ => true)
  match components.findIdx? (fun members => members.contains b) with
  | some index => index
  | none => NONE

/-! ### Widening points -/
/-- The least block entered from outside the component, or the least block. -/
def pick_component_head (comp : List Nat) : Nat :=
  let entered := comp.filter (fun b => (preds b).any (fun p => !comp.contains p))
  match entered.min? with
  | some head => head
  | none => comp.min?.getD 0
/-- Mark one head per cycle that has no marked block, until there is none. -/
def mark_nested_widening_points : Nat → (Nat → Bool) → Nat → Bool
  | 0,marked => marked
  | fuel + 1,marked =>
    match cyclic_components n succs (fun b => !marked b) with
    | [] => marked
    | comps =>
      mark_nested_widening_points fuel
        (comps.foldl (fun marked comp => update marked (pick_component_head preds comp) true) marked)
/-- Back-edge targets, entries into a component, then heads of the nested cycles left. -/
def widening_points (entries : List Nat) : Nat → Bool :=
  let targets := entries.flatMap (fun entry => (back_edges n succs preds entry).map (fun edge => edge.2))
  let scc := tarjan_scc n succs
  mark_nested_widening_points n succs preds (n + 1) fun b =>
    targets.contains b || (scc b != NONE && (preds b).any (fun p => scc p != scc b))
end Narf.Bpf.Cfg
