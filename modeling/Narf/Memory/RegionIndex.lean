import Mathlib

namespace Narf.Memory

/-! The ordered index of the VMA table: an AVL tree whose nodes live in a movable arena and are
    linked by arena positions. `none` is a panic: an `unreachable!`, an `expect`, an assertion or
    an index out of range. -/

def MAX_AVL_HEIGHT : Nat := 96
/-- No `Vec` is larger than `isize::MAX`. -/
def ISIZE_MAX : Nat := 2 ^ 63 - 1
structure Node (V : Type) where
  key : Nat
  value : V
  left : Option Nat
  right : Option Nat
  height : Nat
def Node.new {V : Type} (key : Nat) (value : V) : Node V := ⟨key,value,none,none,1⟩
inductive Slot (V : Type) where
  | Occupied (node : Node V)
  | Vacant (next : Option Nat)
structure ReserveError where
/-- The index; `capacity` is what the arena's `Vec` has allocated. -/
structure RegionIndex (V : Type) where
  slots : List (Slot V)
  capacity : Nat
  root : Option Nat
  free_head : Option Nat
  free_len : Nat
  len : Nat

namespace RegionIndex
variable {V S : Type}
def new : RegionIndex V := ⟨[],0,none,none,0,0⟩
variable (m : RegionIndex V)
/-- Prepare room for `additional` new keys. When the `Vec` has to grow, the allocator decides:
    it refuses, or grants some capacity beyond the need. -/
def try_reserve_nodes (additional : Nat) (granted : Option Nat) : RegionIndex V × Except ReserveError Unit :=
  let new_slots := additional - m.free_len
  if new_slots ≤ m.capacity - m.slots.length then (m,.ok ())
  else
    match granted with
    | none => (m,.error {})
    | some spare =>
      if m.slots.length + new_slots + spare ≤ ISIZE_MAX then
        ({ m with capacity := m.slots.length + new_slots + spare },.ok ())
      else (m,.error {})
def node (m : RegionIndex V) (index : Nat) : Option (Node V) :=
  match m.slots[index]? with
  | some (.Occupied node) => some node
  | _ => none
def node_mut (index : Nat) (change : Node V → Node V) : Option (RegionIndex V) :=
  (m.node index).map (fun n => { m with slots := m.slots.set index (.Occupied (change n)) })
def find_from (m : RegionIndex V) (key : Nat) : Nat → Option Nat → Option (Option Nat)
  | _, none => some none
  | 0, some _ => none
  | fuel + 1, some index => do
    let node ← m.node index
    if key < node.key then m.find_from key fuel node.left
    else if node.key < key then m.find_from key fuel node.right
    else some (some index)
def find_index (key : Nat) : Option (Option Nat) :=
  m.find_from key m.slots.length m.root
def get (key : Nat) : Option (Option V) := do
  match ← m.find_index key with
  | none => some none
  | some index => (m.node index).map (fun node => some node.value)
/-- The descent of the neighbour queries: remember a node the condition takes and go on at its
    `after` side, otherwise at the other side. -/
def seek (m : RegionIndex V) (takes : Nat → Bool) (after before : Node V → Option Nat) :
    Nat → Option Nat → Option (Nat × V) → Option (Option (Nat × V))
  | _, none, result => some result
  | 0, some _, _ => none
  | fuel + 1, some index, result => do
    let node ← m.node index
    if takes node.key then m.seek takes after before fuel (after node) (some (node.key,node.value))
    else m.seek takes after before fuel (before node) result
def predecessor (key : Nat) : Option (Option (Nat × V)) :=
  m.seek (· < key) Node.right Node.left m.slots.length m.root none
def predecessor_or_equal (key : Nat) : Option (Option (Nat × V)) :=
  m.seek (· ≤ key) Node.right Node.left m.slots.length m.root none
def successor_or_equal (key : Nat) : Option (Option (Nat × V)) :=
  m.seek (key ≤ ·) Node.left Node.right m.slots.length m.root none
def height (m : RegionIndex V) : Option Nat → Option Nat
  | none => some 0
  | some index => (m.node index).map Node.height
def update_height (index : Nat) : Option (RegionIndex V) := do
  let node ← m.node index
  let height := 1 + max (← m.height node.left) (← m.height node.right)
  if height ≤ 255 then m.node_mut index (fun n => { n with height := height }) else none
def balance_factor (index : Nat) : Option Int := do
  let node ← m.node index
  let left ← m.height node.left
  let right ← m.height node.right
  some ((left : Int) - right)
def rotate_left (root : Nat) : Option (RegionIndex V × Nat) := do
  let pivot ← (← m.node root).right
  let middle := (← m.node pivot).left
  let m ← m.node_mut root (fun n => { n with right := middle })
  let m ← m.update_height root
  let m ← m.node_mut pivot (fun n => { n with left := some root })
  let m ← m.update_height pivot
  some (m,pivot)
def rotate_right (root : Nat) : Option (RegionIndex V × Nat) := do
  let pivot ← (← m.node root).left
  let middle := (← m.node pivot).right
  let m ← m.node_mut root (fun n => { n with left := middle })
  let m ← m.update_height root
  let m ← m.node_mut pivot (fun n => { n with right := some root })
  let m ← m.update_height pivot
  some (m,pivot)
def lower_left (root : Nat) : Option (RegionIndex V × Nat) := do
  let left ← (← m.node root).left
  if (← m.balance_factor left) < 0 then
    let (m,rotated) ← m.rotate_left left
    let m ← m.node_mut root (fun n => { n with left := some rotated })
    m.rotate_right root
  else m.rotate_right root
def lower_right (root : Nat) : Option (RegionIndex V × Nat) := do
  let right ← (← m.node root).right
  if 0 < (← m.balance_factor right) then
    let (m,rotated) ← m.rotate_right right
    let m ← m.node_mut root (fun n => { n with right := some rotated })
    m.rotate_left root
  else m.rotate_left root
def rebalance (root : Nat) : Option (RegionIndex V × Nat) := do
  let m ← m.update_height root
  let balance ← m.balance_factor root
  if 1 < balance then m.lower_left root
  else if balance < -1 then m.lower_right root
  else some (m,root)
def insert_index (inserted : Nat) : Nat → RegionIndex V → Option Nat → Option (RegionIndex V × Nat)
  | _, m, none => some (m,inserted)
  | 0, _, some _ => none
  | fuel + 1, m, some root => do
    let inserted_key := (← m.node inserted).key
    let node ← m.node root
    if inserted_key < node.key then
      let (m,child) ← insert_index inserted fuel m node.left
      let m ← m.node_mut root (fun n => { n with left := some child })
      m.rebalance root
    else
      let (m,child) ← insert_index inserted fuel m node.right
      let m ← m.node_mut root (fun n => { n with right := some child })
      m.rebalance root
def allocate_slot (node : Node V) : Option (RegionIndex V × Nat) :=
  match m.free_head with
  | some index =>
    match m.slots[index]? with
    | some (.Vacant next) =>
      some ({ m with
        free_head := next
        free_len := m.free_len - 1
        slots := m.slots.set index (.Occupied node) },index)
    | _ => none
  | none => some ({ m with slots := m.slots ++ [.Occupied node] },m.slots.length)
def insert_reserved (key : Nat) (value : V) : Option (RegionIndex V × Option V) := do
  match ← m.find_index key with
  | some index =>
    let old ← m.node index
    let m ← m.node_mut index (fun n => { n with value := value })
    some (m,some old.value)
  | none =>
    if m.free_head.isSome ∨ m.slots.length < m.capacity then
      let (m,inserted) ← m.allocate_slot (.new key value)
      let (m,root) ← insert_index inserted m.slots.length m m.root
      some ({ m with root := some root, len := m.len + 1 },none)
    else none
def retire_slot (index : Nat) : Option (RegionIndex V × V) :=
  match m.slots[index]? with
  | some (.Occupied node) =>
    some ({ m with
      slots := m.slots.set index (.Vacant m.free_head)
      free_head := some index
      free_len := m.free_len + 1 },node.value)
  | _ => none
def leftmost (m : RegionIndex V) : Nat → Nat → Option Nat
  | 0, _ => none
  | fuel + 1, index => do
    match (← m.node index).left with
    | some left => m.leftmost fuel left
    | none => some index
def swap_key_value (first second : Nat) : Option (RegionIndex V) := do
  guard (first ≠ second)
  let one ← m.node first
  let two ← m.node second
  let m ← m.node_mut first (fun n => { n with key := two.key, value := two.value })
  m.node_mut second (fun n => { n with key := one.key, value := one.value })
def remove_index (key : Nat) : Nat → RegionIndex V → Option Nat → Option (RegionIndex V × Option Nat × Option V)
  | _, m, none => some (m,none,none)
  | 0, _, some _ => none
  | fuel + 1, m, some root => do
    let node ← m.node root
    if key < node.key then
      let (m,left,removed) ← remove_index key fuel m node.left
      if removed.isNone then some (m,some root,none)
      else
        let m ← m.node_mut root (fun n => { n with left := left })
        let (m,root) ← m.rebalance root
        some (m,some root,removed)
    else if node.key < key then
      let (m,right,removed) ← remove_index key fuel m node.right
      if removed.isNone then some (m,some root,none)
      else
        let m ← m.node_mut root (fun n => { n with right := right })
        let (m,root) ← m.rebalance root
        some (m,some root,removed)
    else
      match node.left, node.right with
      | none, child =>
        let (m,value) ← m.retire_slot root
        some (m,child,some value)
      | child, none =>
        let (m,value) ← m.retire_slot root
        some (m,child,some value)
      | some _, some right =>
        let successor ← m.leftmost m.slots.length right
        let m ← m.swap_key_value root successor
        let (m,new_right,removed) ← remove_index key fuel m (some right)
        let m ← m.node_mut root (fun n => { n with right := new_right })
        let (m,root) ← m.rebalance root
        some (m,some root,removed)
def remove (key : Nat) : Option (RegionIndex V × Option V) := do
  let (m,root,removed) ← remove_index key m.slots.length m m.root
  let m := { m with root := root }
  if removed.isSome then some ({ m with len := m.len - 1 },removed) else some (m,removed)
/-- Append a key that is greater than every key so far to a fresh index. -/
def push_sorted_reserved (key : Nat) (value : V) : Option (RegionIndex V) := do
  guard (m.free_len = 0)
  guard (m.len = m.slots.length)
  guard (m.slots.length < m.capacity)
  if m.slots.length ≠ 0 then
    let last ← m.node (m.slots.length - 1)
    guard (last.key < key)
  let inserted := m.slots.length
  let m : RegionIndex V := { m with slots := m.slots ++ [.Occupied (.new key value)] }
  if inserted = 0 then some { m with root := some inserted, len := m.len + 1 }
  else
    let m ← m.node_mut (inserted - 1) (fun n => { n with right := some inserted })
    some { m with len := m.len + 1 }
/-- Rewire the positions `lo..hi` into a balanced tree; every call has `lo ≤ hi`. The heights
    are added in `u8`. -/
def build_balanced_sorted_range (m : RegionIndex V) (lo hi : Nat) : Option (RegionIndex V × Option Nat × Nat) :=
  if hi ≤ lo then some (m,none,0)
  else do
    let middle := lo + (hi - lo) / 2
    let (m,left,left_height) ← m.build_balanced_sorted_range lo middle
    let (m,right,right_height) ← m.build_balanced_sorted_range (middle + 1) hi
    let height := (1 + max left_height right_height) % 256
    let m ← m.node_mut middle (fun n => { n with left := left, right := right, height := height })
    some (m,some middle,height)
termination_by hi - lo

def finish_sorted_build : Option (RegionIndex V) := do
  guard (m.free_len = 0)
  guard (m.len = m.slots.length)
  let (m,root,_) ← m.build_balanced_sorted_range 0 m.slots.length
  some { m with root := root }
/-- The stack of an iterator, top first: at most `MAX_AVL_HEIGHT` positions. -/
def push_left (m : RegionIndex V) : Nat → List Nat → Option Nat → Option (List Nat)
  | _, stack, none => some stack
  | 0, _, some _ => none
  | fuel + 1, stack, some index =>
    if stack.length < MAX_AVL_HEIGHT then do
      let node ← m.node index
      m.push_left fuel (index :: stack) node.left
    else none
def push_from (m : RegionIndex V) (lo : Nat) : Nat → List Nat → Option Nat → Option (List Nat)
  | _, stack, none => some stack
  | 0, _, some _ => none
  | fuel + 1, stack, some index => do
    let node ← m.node index
    if lo ≤ node.key then
      if stack.length < MAX_AVL_HEIGHT then m.push_from lo fuel (index :: stack) node.left
      else none
    else m.push_from lo fuel stack node.right
/-- One `next`: a range iterator ends at the first key its bound refuses, `iter` has no bound. -/
def next (within : Nat → Bool) : List Nat → Option (List Nat × Option (Nat × V))
  | [] => some ([],none)
  | index :: rest => do
    let node ← m.node index
    if within node.key then
      let stack ← m.push_left m.slots.length rest node.right
      some (stack,some (node.key,node.value))
    else some ([],none)
def drain (m : RegionIndex V) (within : Nat → Bool) : Nat → List Nat → Option (List (Nat × V))
  | 0, _ => none
  | fuel + 1, stack => do
    match ← m.next within stack with
    | (_,none) => some []
    | (stack,some entry) => (m.drain within fuel stack).map (entry :: ·)
def iter : Option (List (Nat × V)) := do
  let stack ← m.push_left m.slots.length [] m.root
  m.drain (fun _ => true) (m.slots.length + 1) stack
def range (lo hi : Nat) : Option (List (Nat × V)) := do
  let stack ← m.push_from lo m.slots.length [] m.root
  m.drain (· < hi) (m.slots.length + 1) stack
/-- Visit the value of one node when its key is selected. -/
def visit_here (here : Nat → Bool) (visit : V → S → V × S) (m : RegionIndex V) (index : Nat) (s : S) : Option (RegionIndex V × S) := do
  let node ← m.node index
  if here node.key then
    let seen := visit node.value s
    let m ← m.node_mut index (fun n => { n with value := seen.1 })
    some (m,seen.2)
  else some (m,s)
/-- In-order visit of the values, with a state the visitor carries along: `goes_left` and
    `goes_right` say which subtrees are entered, `here` whether the node's own value is visited. -/
def visit_where (goes_left here goes_right : Nat → Bool) (visit : V → S → V × S) :
    Nat → RegionIndex V → Option Nat → S → Option (RegionIndex V × S)
  | _, m, none, s => some (m,s)
  | 0, _, some _, _ => none
  | fuel + 1, m, some index, s =>
    (m.node index).bind fun node =>
    (if goes_left node.key then visit_where goes_left here goes_right visit fuel m node.left s
      else some (m,s)).bind fun left =>
    (visit_here here visit left.1 index left.2).bind fun own =>
    if goes_right node.key then visit_where goes_left here goes_right visit fuel own.1 node.right own.2
    else some own
def for_each_range_mut (lo hi : Nat) (visit : V → S → V × S) (s : S) : Option (RegionIndex V × S) :=
  visit_where (lo < ·) (fun key => lo ≤ key && key < hi) (· < hi) visit m.slots.length m m.root s
end RegionIndex
end Narf.Memory
