import Mathlib

/-! Typed capabilities, the global object table and the per-task capability tables. A `Cap`
keeps the two type parameters of the source as data: `kind` is `T::KIND` and `right` the
marker `R`. Operations that are only typable for some markers say so in `World.Allowed`. -/

namespace Narf.Capabilities
open List

/-! ### Rights -/
inductive Right where
  | Read | Write | Grant | Spend | Invoke | Create
  deriving DecidableEq
def Right.BITS : Right → BitVec 32
  | .Read => 0b000001#32
  | .Write => 0b000010#32
  | .Grant => 0b000100#32
  | .Spend => 0b001000#32
  | .Invoke => 0b010000#32
  | .Create => 0b100000#32
/-- The declared edges: a holder of the second right may derive the first. -/
def SubsetOf : Right → Right → Bool
  | .Read,.Grant => true
  | .Write,.Grant => true
  | .Spend,.Grant => true
  | .Invoke,.Grant => true
  | .Read,.Write => true
  | .Read,.Invoke => true
  | .Read,.Spend => true
  | weaker,right => weaker == right
/-- `weaker` is reached from `right` by declared edges only. -/
def Weakened (right weaker : Right) : Prop := Relation.ReflTransGen (fun r r2 => SubsetOf r2 r = true) right weaker

/-! ### Kinds and slots -/
inductive CapKind where
  | BusDevice | BusDeviceP2pDma | BusReconfigureAcs | BusRegistry | BlockDevice | BlockDeviceBackend
  | BlockIoQueueOwn | Namespace | NetIface | StackInstall | NetfilterAdmin | FileNode | DirNode
  | MountPoint | FsInstance | Ring | RingPair | Endpoint | Domain | DmaBuffer | SharedRegion | Jit | Probe
  | TraceRing | Recorder | Pmu | HwCrypto | HwTrace | Debugger | Diagnostics | Watchpoint | Key | KeyMgr
  | Rng | Tpm | Spdm | Task | CpuAffinity | CpuLifecycle | CpuBudget | FreqHint | Power | Timer | DevicePm
  | Governor | PmBus | SleepableReader | Scmi | Process | Driver | FbScanout | AudioStream | I3cBus | Pwm
  | Firmware | FirmwareRegistry | Bluetooth | UsbPd | CpuTelemetry | TopicRegistry | EventPublisher
  | EventSubscriber | MemAlloc | HeapBackend | Pager | SchedPolicy | DonationPolicy | StealStrategy
  | IoScheduler | CongestionControl | IdleGovernor | EventSink | BpfProgLoad | BpfAttach | BpfMap
  | BpfArena | BpfStructOps
  deriving DecidableEq
/-- `kind as u32`. -/
def CapKind.tag : CapKind → BitVec 32
  | .BusDevice => 0x0001#32
  | .BusDeviceP2pDma => 0x0002#32
  | .BusReconfigureAcs => 0x0003#32
  | .BusRegistry => 0x0004#32
  | .BlockDevice => 0x0010#32
  | .BlockDeviceBackend => 0x0011#32
  | .BlockIoQueueOwn => 0x0012#32
  | .Namespace => 0x0013#32
  | .NetIface => 0x0020#32
  | .StackInstall => 0x0021#32
  | .NetfilterAdmin => 0x0022#32
  | .FileNode => 0x0030#32
  | .DirNode => 0x0031#32
  | .MountPoint => 0x0032#32
  | .FsInstance => 0x0033#32
  | .Ring => 0x0040#32
  | .RingPair => 0x0041#32
  | .Endpoint => 0x0042#32
  | .Domain => 0x0050#32
  | .DmaBuffer => 0x0051#32
  | .SharedRegion => 0x0052#32
  | .Jit => 0x0053#32
  | .Probe => 0x0060#32
  | .TraceRing => 0x0061#32
  | .Recorder => 0x0062#32
  | .Pmu => 0x0063#32
  | .HwCrypto => 0x0064#32
  | .HwTrace => 0x0065#32
  | .Debugger => 0x0066#32
  | .Diagnostics => 0x0067#32
  | .Watchpoint => 0x0068#32
  | .Key => 0x0070#32
  | .KeyMgr => 0x0071#32
  | .Rng => 0x0072#32
  | .Tpm => 0x0073#32
  | .Spdm => 0x0074#32
  | .Task => 0x0080#32
  | .CpuAffinity => 0x0081#32
  | .CpuLifecycle => 0x0082#32
  | .CpuBudget => 0x0083#32
  | .FreqHint => 0x0084#32
  | .Power => 0x0085#32
  | .Timer => 0x0086#32
  | .DevicePm => 0x0087#32
  | .Governor => 0x0088#32
  | .PmBus => 0x0089#32
  | .SleepableReader => 0x0090#32
  | .Scmi => 0x0091#32
  | .Process => 0x00a0#32
  | .Driver => 0x00a1#32
  | .FbScanout => 0x00b0#32
  | .AudioStream => 0x00c0#32
  | .I3cBus => 0x00d0#32
  | .Pwm => 0x00d1#32
  | .Firmware => 0x00e0#32
  | .FirmwareRegistry => 0x00e1#32
  | .Bluetooth => 0x00f0#32
  | .UsbPd => 0x00f1#32
  | .CpuTelemetry => 0x00f2#32
  | .TopicRegistry => 0x0100#32
  | .EventPublisher => 0x0101#32
  | .EventSubscriber => 0x0102#32
  | .MemAlloc => 0x0200#32
  | .HeapBackend => 0x0201#32
  | .Pager => 0x0202#32
  | .SchedPolicy => 0x0203#32
  | .DonationPolicy => 0x0204#32
  | .StealStrategy => 0x0205#32
  | .IoScheduler => 0x0206#32
  | .CongestionControl => 0x0207#32
  | .IdleGovernor => 0x0208#32
  | .EventSink => 0x0209#32
  | .BpfProgLoad => 0x0300#32
  | .BpfAttach => 0x0301#32
  | .BpfMap => 0x0302#32
  | .BpfArena => 0x0303#32
  | .BpfStructOps => 0x0304#32

inductive CapError where
  | Revoked | DomainMismatch | TypeMismatch | RightsTooWeak | CapTableFull | ObjectMismatch
structure CapSlot where
  generation : BitVec 32
  index : BitVec 32
  rights : BitVec 32
  type_tag : BitVec 32
  deriving DecidableEq

namespace CapSlot
def EMPTY : CapSlot := ⟨0#32,0#32,0#32,0#32⟩
def is_empty (slot : CapSlot) : Bool :=
  slot.generation == 0#32 && slot.index == 0#32 && slot.rights == 0#32 && slot.type_tag == 0#32
lemma is_empty_iff {slot : CapSlot} : slot.is_empty ↔ slot = EMPTY := by
  cases slot
  simp [is_empty,EMPTY,and_assoc]
end CapSlot

/-! ### The object table -/
structure Entry where
  epoch : BitVec 32
  kind : CapKind
abbrev ObjectTable := List Entry

namespace ObjectTable
def register (t : ObjectTable) (kind : CapKind) : ObjectTable × BitVec 32 × BitVec 32 :=
  (t ++ [⟨1#32,kind⟩],BitVec.ofNat 32 t.length,1#32)
def current_epoch (t : ObjectTable) (index : BitVec 32) : Option (BitVec 32) :=
  (t[index.toNat]?).map (·.epoch)
def epoch_and_kind (t : ObjectTable) (index : BitVec 32) : Option (BitVec 32 × CapKind) :=
  (t[index.toNat]?).map (fun e => (e.epoch,e.kind))
/-- The counter wraps, as the release build's does. -/
def bump_epoch (t : ObjectTable) (index : BitVec 32) : ObjectTable :=
  t.modify index.toNat (fun e => { e with epoch := e.epoch + 1#32 })
end ObjectTable

/-! ### Per-task tables -/
def INITIAL_SLOTS : Nat := 256
def MAX_SLOTS : Nat := 131072
def RESERVED_SLOTS : Nat := 16
/-- One task's table: two regions filled from the left, the first of fixed size. Positions
    the cursors have not reached are empty. -/
structure CapTable where
  slots : List CapSlot
  next_bootstrap : Nat
  next_general : Nat
  reserved : next_bootstrap ≤ RESERVED_SLOTS
  beyond : RESERVED_SLOTS ≤ next_general
  fits : next_general ≤ slots.length
  vacant : ∀ p slot, slots[p]? = some slot → next_bootstrap ≤ p → (p < RESERVED_SLOTS ∨ next_general ≤ p) →
    slot = CapSlot.EMPTY

namespace CapTable
def new : CapTable where
  slots := List.replicate INITIAL_SLOTS CapSlot.EMPTY
  next_bootstrap := 0
  next_general := RESERVED_SLOTS
  reserved := Nat.zero_le _
  beyond := Nat.le_refl _
  fits := by rw [length_replicate]; decide
  vacant p slot found _ _ := eq_of_mem_replicate (mem_of_getElem? found)

variable (table : CapTable)
def put_bootstrap (slot : CapSlot) (room : table.next_bootstrap < RESERVED_SLOTS) : CapTable where
  slots := table.slots.set table.next_bootstrap slot
  next_bootstrap := table.next_bootstrap + 1
  next_general := table.next_general
  reserved := room
  beyond := table.beyond
  fits := by rw [length_set]; exact table.fits
  vacant p found here after outside := by
    rw [List.getElem?_set_ne (by omega)] at here
    exact table.vacant p found here (by omega) outside
/-- The table grown to `new_len` empty positions past its end. -/
def resize (new_len : Nat) : CapTable where
  slots := table.slots ++ List.replicate (new_len - table.slots.length) CapSlot.EMPTY
  next_bootstrap := table.next_bootstrap
  next_general := table.next_general
  reserved := table.reserved
  beyond := table.beyond
  fits := by
    have fits := table.fits
    rw [length_append,length_replicate]
    omega
  vacant p slot found after outside := by
    rw [List.getElem?_append] at found
    split at found
    · exact table.vacant p slot found after outside
    · exact eq_of_mem_replicate (mem_of_getElem? found)
/-- The write behind `install_general`, once there is room. -/
def put_general (slot : CapSlot) (room : table.next_general < table.slots.length) : CapTable where
  slots := table.slots.set table.next_general slot
  next_bootstrap := table.next_bootstrap
  next_general := table.next_general + 1
  reserved := table.reserved
  beyond := Nat.le_succ_of_le table.beyond
  fits := by rw [length_set]; exact room
  vacant p found here after outside := by
    have beyond := table.beyond
    rw [List.getElem?_set_ne (by omega)] at here
    exact table.vacant p found here after (by omega)
lemma grown_room (full : table.next_general = table.slots.length)
    (below : ¬ MAX_SLOTS ≤ table.slots.length) : table.slots.length < min (table.slots.length * 2) MAX_SLOTS := by
  have beyond := table.beyond
  simp only [RESERVED_SLOTS,MAX_SLOTS] at *
  omega
/-- The table with `slot` at the next general position, and that position. -/
def install_general (slot : CapSlot) : Except CapError (CapTable × BitVec 32) :=
  if full : table.next_general = table.slots.length then
    if below : MAX_SLOTS ≤ table.slots.length then .error .CapTableFull
    else
      let grown := table.resize (min (table.slots.length * 2) MAX_SLOTS)
      .ok (grown.put_general slot (by
        have room := table.grown_room full below
        simp only [grown,resize,length_append,length_replicate]
        omega),BitVec.ofNat 32 grown.next_general)
  else
    .ok (table.put_general slot (Nat.lt_of_le_of_ne table.fits full),BitVec.ofNat 32 table.next_general)
/-- Dispatch validation of a presented slot: its `index` is a position of this table. -/
def lookup (t : ObjectTable) (presented : CapSlot) : Except CapError CapSlot :=
  match table.slots[presented.index.toNat]? with
  | none => .error .Revoked
  | some entry =>
    if entry.is_empty then .error .Revoked
    else if presented.type_tag ≠ entry.type_tag then .error .TypeMismatch
    else if presented.generation ≠ entry.generation then .error .Revoked
    else if t.current_epoch entry.index ≠ some entry.generation then .error .Revoked
    else if presented.rights &&& ~~~entry.rights ≠ 0#32 then .error .RightsTooWeak
    else .ok entry
/-- Both entries are results of `lookup`. -/
def install_transfer (grant_entry cap_entry : CapSlot) : Except CapError (CapTable × BitVec 32) :=
  if grant_entry.rights &&& Right.Grant.BITS = 0#32 then .error .RightsTooWeak
  else if grant_entry.index ≠ cap_entry.index then .error .ObjectMismatch
  else if grant_entry.type_tag ≠ cap_entry.type_tag then .error .TypeMismatch
  else table.install_general cap_entry
end CapTable

/-! ### Capabilities -/
structure Cap where
  slot : CapSlot
  kind : CapKind
  right : Right

namespace Cap
def check_live (cap : Cap) (t : ObjectTable) : Except CapError Unit :=
  if t.current_epoch cap.slot.index = some cap.slot.generation then .ok () else .error .Revoked
def invoke {α : Type} (cap : Cap) (t : ObjectTable) (execute : Cap → Except CapError α) : Except CapError α :=
  match t.epoch_and_kind cap.slot.index with
  | none => .error .Revoked
  | some (epoch,kind) =>
    if epoch ≠ cap.slot.generation then .error .Revoked
    else if kind ≠ cap.kind then .error .TypeMismatch
    else if cap.slot.type_tag ≠ cap.kind.tag then .error .TypeMismatch
    else if cap.slot.rights &&& cap.right.BITS ≠ cap.right.BITS then .error .RightsTooWeak
    else execute cap
def revoke (cap : Cap) (t : ObjectTable) : ObjectTable := t.bump_epoch cap.slot.index
def derive (cap : Cap) (t : ObjectTable) (right : Right) : Except CapError Cap := do
  cap.check_live t
  pure ⟨{ cap.slot with rights := right.BITS },cap.kind,right⟩
def transfer (grant cap : Cap) (t : ObjectTable) (target : CapTable) : Except CapError (CapTable × BitVec 32) := do
  grant.check_live t
  cap.check_live t
  if grant.slot.index ≠ cap.slot.index then .error .ObjectMismatch
  else if cap.slot.type_tag ≠ cap.kind.tag then .error .TypeMismatch
  else target.install_general cap.slot
def bootstrap (t : ObjectTable) (kind : CapKind) (right : Right) : ObjectTable × Cap :=
  let (t,index,generation) := t.register kind
  (t,⟨⟨generation,index,right.BITS,kind.tag⟩,kind,right⟩)
def bootstrap_with (creator : Cap) (t : ObjectTable) (kind : CapKind) (right : Right) : Except CapError (ObjectTable × Cap) := do
  creator.check_live t
  if creator.slot.type_tag ≠ CapKind.Task.tag then .error .TypeMismatch
  else if creator.slot.rights &&& Right.Create.BITS = 0#32 then .error .RightsTooWeak
  else .ok (bootstrap t kind right)
end Cap

def CapTable.install_bootstrap (table : CapTable) (t : ObjectTable) (cap : Cap) : Except CapError (CapTable × BitVec 32) := do
  cap.check_live t
  if cap.slot.type_tag ≠ cap.kind.tag then .error .TypeMismatch
  else if room : table.next_bootstrap < RESERVED_SLOTS then
    .ok (table.put_bootstrap cap.slot room,BitVec.ofNat 32 table.next_bootstrap)
  else .error .CapTableFull

/-! ### Runs -/
/-- A minted capability and the position its object has in the object table. -/
structure Mint where
  object : Nat
  cap : Cap
/-- Everything the operations act on. A capability is copied freely, so whoever acts may use
    any of `caps`; `resolved` are the entries that lookups returned. `minted` is the history. -/
structure World where
  objects : ObjectTable
  caps : List Cap
  resolved : List CapSlot
  tables : Nat → CapTable
  minted : List Mint
inductive Op where
  | bootstrap (kind : CapKind) (right : Right)
  | bootstrap_with (creator : Cap) (kind : CapKind) (right : Right)
  | derive (cap : Cap) (right : Right)
  | transfer (grant cap : Cap) (task : Nat)
  | install_bootstrap (cap : Cap) (task : Nat)
  | lookup (task : Nat) (presented : CapSlot)
  | install_transfer (grant_entry cap_entry : CapSlot) (task : Nat)
  | revoke (cap : Cap)

namespace World
def start : World := ⟨[],[],[],fun _ => CapTable.new,[]⟩
/-- The operation is typable and its operands exist. -/
def Allowed (w : World) : Op → Prop
  | .bootstrap _ _ => True
  | .bootstrap_with creator _ _ => creator ∈ w.caps ∧ creator.right = .Create
  | .derive cap right => cap ∈ w.caps ∧ SubsetOf right cap.right = true
  | .transfer grant cap _ => grant ∈ w.caps ∧ cap ∈ w.caps ∧ grant.right = .Grant ∧ grant.kind = cap.kind
  | .install_bootstrap cap _ => cap ∈ w.caps
  | .lookup _ _ => True
  | .install_transfer grant_entry cap_entry _ => grant_entry ∈ w.resolved ∧ cap_entry ∈ w.resolved
  | .revoke cap => cap ∈ w.caps
def set_table (w : World) (task : Nat) (table : CapTable) : World :=
  { w with tables := fun other => if other = task then table else w.tables other }
/-- A table operation's result; a refused one leaves everything as it was. -/
def installed (w : World) (task : Nat) : Except CapError (CapTable × BitVec 32) → World
  | .ok (table,_) => w.set_table task table
  | .error _ => w
/-- The minted capability joins those in circulation. -/
def mint (w : World) (made : ObjectTable × Cap) : World :=
  { w with objects := made.1, caps := made.2 :: w.caps, minted := ⟨w.objects.length,made.2⟩ :: w.minted }
def step (w : World) : Op → World
  | .bootstrap kind right => w.mint (Cap.bootstrap w.objects kind right)
  | .bootstrap_with creator kind right =>
    match creator.bootstrap_with w.objects kind right with
    | .ok made => w.mint made
    | .error _ => w
  | .derive cap right =>
    match cap.derive w.objects right with
    | .ok derived => { w with caps := derived :: w.caps }
    | .error _ => w
  | .transfer grant cap task => w.installed task (grant.transfer cap w.objects (w.tables task))
  | .install_bootstrap cap task => w.installed task ((w.tables task).install_bootstrap w.objects cap)
  | .lookup task presented =>
    match (w.tables task).lookup w.objects presented with
    | .ok entry => { w with resolved := entry :: w.resolved }
    | .error _ => w
  | .install_transfer grant_entry cap_entry task =>
    w.installed task ((w.tables task).install_transfer grant_entry cap_entry)
  | .revoke cap => { w with objects := cap.revoke w.objects }
/-- One allowed operation, among those `ok` admits. -/
def Steps (ok : World → Op → Prop) (w w' : World) : Prop := ∃ op, w.Allowed op ∧ ok w op ∧ w' = w.step op
def Run (ok : World → Op → Prop) : World → World → Prop := Relation.ReflTransGen (Steps ok)
end World
end Narf.Capabilities
