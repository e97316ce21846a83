import Mathlib

namespace Narf.Net.Cbpf
open BitVec

/-! Classic BPF socket filters: the attach-time checker and the interpreter. A load that the source
    would let panic is a fault here; so are the arms it documents as unreachable and, watched in
    `Machine.written`, a read of a scratch slot that the program has not written. Machine words are
    bit vectors, sizes of Rust's `usize` natural numbers, and 64-bit sums wrap as they do in the
    release profile. Both targets are little-endian, which is what `from_ne_bytes` reads. -/

def BPF_MAXINSNS : Nat := 4096
def BPF_MEMWORDS : Nat := 16
def SKF_AD_OFF : BitVec 32 := 0xfffff000#32
def SKF_NET_OFF : Int := -0x100000
def SKF_LL_OFF : Int := -0x200000
def SKF_AD_MAX : Nat := 64
structure SockFilter where
  code : Nat
  jt : Nat
  jf : Nat
  k : BitVec 32

/-! ## The checker -/
def code_allowed (code : Nat) : Bool :=
  code ∈ [0x04,0x0c,0x14,0x1c,0x24,0x2c,0x34,0x3c,0x44,0x4c,0x54,0x5c,0x64,0x6c,0x74,0x7c,0x84,0x94,0x9c,0xa4,0xac,
    0x20,0x28,0x30,0x80,0x40,0x48,0x50,0x00,0x60,0x81,0xb1,0x01,0x61,
    0x02,0x03,0x06,0x16,0x07,0x87,
    0x05,0x15,0x1d,0x25,0x2d,0x35,0x3d,0x45,0x4d]
abbrev Masks := Nat → BitVec 16
/-- A target accumulates the slots that are written on every path to it. -/
def Masks.narrow (masks : Masks) (target : Nat) (mem_valid : BitVec 16) : Masks :=
  fun i => if i = target then masks i &&& mem_valid else masks i
def conditional (code : Nat) : Bool := code ∈ [0x15,0x1d,0x25,0x2d,0x35,0x3d,0x45,0x4d]
/-- One turn of the checker's loop, after `mem_valid &= masks[pc]`; `none` is a rejection. -/
def check_insn (count pc : Nat) (insn : SockFilter) (masks : Masks) (mem_valid : BitVec 16) : Option (Masks × BitVec 16) :=
  let code := insn.code
  let k := insn.k
  if !code_allowed code then none
  else if (code = 0x34 ∨ code = 0x94) ∧ k = 0 then none
  else if (code = 0x64 ∨ code = 0x74) ∧ 32 ≤ k.toNat then none
  else if (code = 0x60 ∨ code = 0x61) ∧ BPF_MEMWORDS ≤ k.toNat then none
  else if (code = 0x60 ∨ code = 0x61) ∧ mem_valid &&& (1#16 <<< k.toNat) = 0 then none
  else if (code = 0x02 ∨ code = 0x03) ∧ BPF_MEMWORDS ≤ k.toNat then none
  else if code = 0x02 ∨ code = 0x03 then some (masks,mem_valid ||| (1#16 <<< k.toNat))
  else if code = 0x05 then
    -- a target that overflows is past the end as well
    if count ≤ pc + 1 + k.toNat then none
    else some (masks.narrow (pc + 1 + k.toNat) mem_valid,allOnes 16)
  else if conditional code then
    if count ≤ pc + 1 + insn.jt ∨ count ≤ pc + 1 + insn.jf then none
    else some ((masks.narrow (pc + 1 + insn.jt) mem_valid).narrow (pc + 1 + insn.jf) mem_valid,allOnes 16)
  else if (code = 0x20 ∨ code = 0x28 ∨ code = 0x30) ∧ SKF_AD_OFF.toNat ≤ k.toNat then
    let ancillary := (k - SKF_AD_OFF).toNat
    if SKF_AD_MAX ≤ ancillary ∨ ancillary % 4 ≠ 0 then none else some (masks,mem_valid)
  else some (masks,mem_valid)
def check_from (count : Nat) : Nat → Masks → BitVec 16 → List SockFilter → Bool
  | _, _, _, [] => true
  | pc, masks, mem_valid, insn :: rest =>
    match check_insn count pc insn masks (mem_valid &&& masks pc) with
    | none => false
    | some (masks,mem_valid) => check_from count (pc + 1) masks mem_valid rest
def check_classic (insns : List SockFilter) : Bool :=
  !(insns.length = 0 || BPF_MAXINSNS < insns.length) &&
    check_from insns.length 0 (fun _ => allOnes 16) 0 insns &&
    insns.getLast?.any (fun insn => insn.code = 0x06 || insn.code = 0x16)

/-! ## The packet view -/
/-- A Rust slice has at most `isize::MAX` bytes. -/
abbrev Slice := { bytes : List UInt8 // bytes.length < 2 ^ 63 }
def Slice.range (s : Slice) (start stop : Nat) : Slice :=
  ⟨(s.1.drop start).take (stop - start),by
    have fits := s.2
    simp only [List.length_take,List.length_drop]
    omega⟩
structure SkbView where
  frame : Slice
  data_off : Nat
  len : Nat
  mac_off : Nat
  net_off : Nat
  protocol : BitVec 16
  pkt_type : BitVec 8
  ifindex : BitVec 32
  hatype : BitVec 16
  vlan : Option (BitVec 16 × BitVec 16)

inductive Fault where
  | MemIndex | UnwrittenSlot | DivideByZero | PacketIndex | UnreachableArm | PastTheEnd | OutOfSteps
  deriving DecidableEq
/-- The value of a 64-bit signed sum. -/
def i64 (z : Int) : Int := z.bmod (2 ^ 64)
def byte_at (buf : List UInt8) (at_ : Nat) : Except Fault Nat :=
  match buf[at_]? with
  | some b => .ok b.toNat
  | none => .error .PacketIndex

namespace SkbView
/-- `none` ends the program with verdict 0. -/
def load (skb : SkbView) (offset : Int) (size : Nat) : Option (BitVec 32) :=
  let mac_offset := i64 (i64 skb.mac_off - i64 skb.data_off)
  let net_offset := i64 (i64 skb.net_off - i64 skb.data_off)
  let off? : Option Int :=
    if 0 ≤ offset then some offset
    else if SKF_NET_OFF ≤ offset then some (i64 (offset - SKF_NET_OFF + net_offset))
    else if SKF_LL_OFF ≤ offset then some (i64 (offset - SKF_LL_OFF + mac_offset))
    else none
  off?.bind (fun off =>
    if i64 (i64 skb.len - off) < size then none
    else
      let start := i64 (i64 skb.data_off + off)
      if start < 0 then none
      else if start.toNat + size ≤ skb.frame.1.length then
        some ((skb.frame.range start.toNat (start.toNat + size)).1.foldl
          (fun v b => v * 256 + BitVec.ofNat 32 b.toNat) 0)
      else none)
/-- The window `data .. data + len`, a slice of the frame. -/
def data (skb : SkbView) : Except Fault Slice :=
  let stop := min ((skb.data_off + skb.len) % 2 ^ 64) skb.frame.1.length
  let start := min skb.data_off stop
  if start ≤ stop ∧ stop ≤ skb.frame.1.length then .ok (skb.frame.range start stop) else .error .PacketIndex
end SkbView

def nla_ok (buf : List UInt8) (at_ rem : Nat) : Option Nat :=
  if rem < 4 then none
  else
    match buf[at_]?, buf[at_ + 1]? with
    | some b₀, some b₁ =>
      let len := b₀.toNat + 256 * b₁.toNat
      if len < 4 ∨ rem < len then none else some len
    | _, _ => none
lemma nla_ok_bounds {buf : List UInt8} {at_ rem len : Nat} (found : nla_ok buf at_ rem = some len) : 4 ≤ len ∧ len ≤ rem := by
  unfold nla_ok at found
  split at found
  · exact absurd found (by simp)
  split at found
  · dsimp only at found
    split at found
    · exact absurd found (by simp)
    · have same := Option.some.inj found
      omega
  · exact absurd found (by simp)
/-- The offset of the attribute, searched in `buf[at_ .. at_ + rem]`. -/
def nla_find (buf : List UInt8) (at_ rem : Nat) (attrtype : BitVec 32) : Except Fault (Option Nat) :=
  match _found : nla_ok buf at_ rem with
  | none => .ok none
  | some len =>
    match byte_at buf (at_ + 2), byte_at buf (at_ + 3) with
    | .ok b₂, .ok b₃ =>
      -- the two top bits of the type are flags
      if (b₂ + 256 * b₃) % 2 ^ 14 = attrtype.toNat then .ok (some at_)
      else
        let aligned := (len + 3) / 4 * 4
        if rem < aligned then .ok none else nla_find buf (at_ + aligned) (rem - aligned) attrtype
    | _, _ => .error .PacketIndex
termination_by rem
decreasing_by
  have bounds := nla_ok_bounds _found
  omega

def get_nlattr (skb : SkbView) (a x : BitVec 32) : Except Fault (BitVec 32) :=
  skb.data.bind (fun data =>
    let len := data.1.length
    if len < 4 ∨ len - 4 < a.toNat then .ok 0
    else (nla_find data.1 a.toNat (len - a.toNat) x).map (fun found => found.elim 0 (BitVec.ofNat 32)))
def get_nlattr_nest (skb : SkbView) (a x : BitVec 32) : Except Fault (BitVec 32) :=
  skb.data.bind (fun data =>
    let len := data.1.length
    if len < 4 ∨ len - 4 < a.toNat then .ok 0
    else
      match nla_ok data.1 a.toNat (len - a.toNat) with
      | none => .ok 0
      | some nla_len =>
        (nla_find data.1 (a.toNat + 4) (nla_len - 4) x).map (fun found => found.elim 0 (BitVec.ofNat 32)))

/-! ## The payload offset -/
def byte (data : Slice) (off : Int) : Option Nat :=
  if off < 0 then none else (data.1[off.toNat]?).map UInt8.toNat
lemma byte_bounds {data : Slice} {off : Int} {b : Nat} (found : byte data off = some b) :
    0 ≤ off ∧ off.toNat < data.1.length ∧ b < 256 := by
  unfold byte at found
  split at found
  · exact absurd found (by simp)
  · obtain ⟨v,read,rfl⟩ := Option.map_eq_some_iff.mp found
    exact ⟨by omega,(List.getElem?_eq_some_iff.mp read).1,v.toNat_lt⟩
lemma i64_add_cases {off step : Int} (low : 0 ≤ off) (high : off < 2 ^ 63) (pos : 0 < step) (small : step < 2 ^ 62) :
    i64 (off + step) = off + step ∨ i64 (off + step) < 0 := by
  unfold i64
  rw [Int.bmod_def]
  split <;> omega
/-- The IPv6 extension headers: the transport header's offset, its protocol and whether the packet
    is a later fragment. -/
def ipv6_headers (data : Slice) (next : Nat) (off : Int) : Option (Int × Nat × Bool) :=
  if next = 0 ∨ next = 43 ∨ next = 60 then
    match _read : byte data off, _length : byte data (i64 (off + 1)) with
    | some nh, some len => ipv6_headers data nh (i64 (off + ((len : Int) + 1) * 8))
    | _, _ => none
  else if next = 44 then
    match byte data off, byte data (i64 (off + 2)), byte data (i64 (off + 3)) with
    | some nh, some f₀, some f₁ => some (i64 (off + 8),nh,(f₀ * 256 + f₁) / 8 ≠ 0)
    | _, _, _ => none
  else some (off,next,false)
termination_by if off < 0 then 0 else data.1.length + 1 - off.toNat
decreasing_by
  have first := byte_bounds _read
  have second := byte_bounds _length
  have _fits := data.2
  rcases @i64_add_cases _ (((len : Int) + 1) * 8) first.1 (by omega) (by omega) (by omega) with sum | sum
  · rw [sum]
    split <;> split <;> omega
  · simp only [sum,if_true]
    split <;> omega

/-- What the network header says of the transport header. -/
def dissect (skb : SkbView) (data : Slice) : Option (Int × Nat × Bool) :=
  let net := i64 (i64 skb.net_off - i64 skb.data_off)
  if skb.protocol = 0x0800 then
    (byte data net).bind (fun vihl =>
      let ihl : Int := (vihl % 16 * 4 : Nat)
      if ihl < 20 ∨ byte data (i64 (net + ihl - 1)) = none then none
      else
        match byte data (i64 (net + 6)), byte data (i64 (net + 7)), byte data (i64 (net + 9)) with
        | some f₀, some f₁, some proto => some (i64 (net + ihl),proto,(f₀ * 256 + f₁) % 2 ^ 13 ≠ 0)
        | _, _, _ => none)
  else if skb.protocol = 0x86dd then
    (byte data (i64 (net + 6))).bind (fun next =>
      if byte data (i64 (net + 39)) = none then none else ipv6_headers data next (i64 (net + 40)))
  else none
/-- The size of the transport header that the payload offset adds. -/
def transport_header (data : Slice) (thoff : Int) (ip_proto : Nat) : Int :=
  if ip_proto = 6 then
    match byte data (i64 (thoff + 12)) with
    | some doff => max 20 ((doff / 16 * 4 : Nat) : Int)
    | none => 0
  else if ip_proto ∈ [17,136,1,58,2] then 8
  else if ip_proto ∈ [33,132] then 12
  else 0
def pay_offset (skb : SkbView) : Except Fault (BitVec 32) :=
  skb.data.map (fun data =>
    match dissect skb data with
    | none => 0
    | some (thoff,ip_proto,later_fragment) =>
      let thoff := min thoff (i64 skb.len)
      let poff := if later_fragment then thoff else i64 (thoff + transport_header data thoff ip_proto)
      BitVec.ofInt 32 (max poff 0))

/-! ## The interpreter -/
/-- What a run reads besides the packet. -/
structure Env where
  cpu : BitVec 32
  random : Nat → BitVec 32
/-- The registers, with the slots written so far and the random numbers drawn. -/
structure Machine where
  pc : Nat
  a : BitVec 32
  x : BitVec 32
  mem : List (BitVec 32)
  written : List Nat
  draws : Nat
def Machine.start : Machine := ⟨0,0,0,List.replicate BPF_MEMWORDS 0,[],0⟩
inductive Outcome where
  | next (m : Machine)
  | done (verdict : BitVec 32)
def Machine.read (m : Machine) (k : BitVec 32) : Except Fault (BitVec 32) :=
  match m.mem[k.toNat]? with
  | none => .error .MemIndex
  | some v => if k.toNat ∈ m.written then .ok v else .error .UnwrittenSlot
def Machine.write (m : Machine) (k v : BitVec 32) : Except Fault Outcome :=
  if k.toNat < m.mem.length then
    .ok (.next { m with mem := m.mem.set k.toNat v, written := k.toNat :: m.written })
  else .error .MemIndex
def ancillary (env : Env) (skb : SkbView) (m : Machine) (field : Nat) : Except Fault Machine :=
  match field with
  | 0 => .ok { m with a := skb.protocol.setWidth 32 }
  | 4 => .ok { m with a := (skb.pkt_type &&& 7).setWidth 32 }
  | 8 => .ok { m with a := skb.ifindex }
  | 28 => .ok { m with a := skb.hatype.setWidth 32 }
  | 20 => .ok { m with a := 0 }
  | 24 => .ok { m with a := 0 }
  | 32 => .ok { m with a := 0 }
  | 44 => .ok { m with a := skb.vlan.elim 0 (fun tag => tag.1.setWidth 32) }
  | 48 => .ok { m with a := if skb.vlan.isSome then 1 else 0 }
  | 60 => .ok { m with a := skb.vlan.elim 0 (fun tag => tag.2.setWidth 32) }
  | 12 => (get_nlattr skb m.a m.x).map (fun v => { m with a := v })
  | 16 => (get_nlattr_nest skb m.a m.x).map (fun v => { m with a := v })
  | 36 => .ok { m with a := env.cpu }
  | 56 => .ok { m with a := env.random m.draws, draws := m.draws + 1 }
  | 40 => .ok { m with a := m.a ^^^ m.x }
  | 52 => (pay_offset skb).map (fun v => { m with a := v })
  | _ => .error .UnreachableArm
/-- A packet load that fails ends the program with verdict 0. -/
def loaded (v : Option (BitVec 32)) (next : BitVec 32 → Machine) : Except Fault Outcome :=
  .ok (v.elim (.done 0) (fun v => .next (next v)))
def size_of_load (code : Nat) : Nat := if code = 0x20 ∨ code = 0x40 then 4 else if code = 0x28 ∨ code = 0x48 then 2 else 1
def divide (m : Machine) (divisor : BitVec 32) (v : BitVec 32) : Except Fault Outcome :=
  if divisor = 0 then .error .DivideByZero else .ok (.next { m with a := v })
def taken (code : Nat) (a operand : BitVec 32) : Bool :=
  match code / 16 with
  | 1 => a = operand
  | 2 => operand < a
  | 3 => operand ≤ a
  | _ => a &&& operand ≠ 0
/-- One turn of the loop, with `pc` already past the instruction. -/
def exec (env : Env) (skb : SkbView) (insn : SockFilter) (m : Machine) : Except Fault Outcome :=
  let k := insn.k
  let set_a (v : BitVec 32) : Except Fault Outcome := .ok (.next { m with a := v })
  match insn.code with
  | 0x00 => set_a k
  | 0x60 => (m.read k).map (fun v => .next { m with a := v })
  | 0x80 => set_a (BitVec.ofNat 32 skb.len)
  | 0x20 | 0x28 | 0x30 =>
    if SKF_AD_OFF.toNat ≤ k.toNat then (ancillary env skb m (k - SKF_AD_OFF).toNat).map .next
    else loaded (skb.load k.toInt (size_of_load insn.code)) (fun v => { m with a := v })
  | 0x40 | 0x48 | 0x50 =>
    let offset := ((m.x.setWidth 64 + k.signExtend 64).setWidth 32).toInt
    loaded (skb.load offset (size_of_load insn.code)) (fun v => { m with a := v })
  | 0x01 => .ok (.next { m with x := k })
  | 0x61 => (m.read k).map (fun v => .next { m with x := v })
  | 0x81 => .ok (.next { m with x := BitVec.ofNat 32 skb.len })
  | 0xb1 => loaded (skb.load k.toInt 1) (fun v => { m with x := (v &&& 0xf) <<< 2 })
  | 0x02 => m.write k m.a
  | 0x03 => m.write k m.x
  | 0x04 => set_a (m.a + k)
  | 0x0c => set_a (m.a + m.x)
  | 0x14 => set_a (m.a - k)
  | 0x1c => set_a (m.a - m.x)
  | 0x24 => set_a (m.a * k)
  | 0x2c => set_a (m.a * m.x)
  | 0x34 => divide m k (m.a / k)
  | 0x3c => if m.x = 0 then .ok (.done 0) else divide m m.x (m.a / m.x)
  | 0x44 => set_a (m.a ||| k)
  | 0x4c => set_a (m.a ||| m.x)
  | 0x54 => set_a (m.a &&& k)
  | 0x5c => set_a (m.a &&& m.x)
  | 0x64 => set_a (m.a <<< (k &&& 31).toNat)
  | 0x6c => set_a (m.a <<< (m.x &&& 31).toNat)
  | 0x74 => set_a (m.a >>> (k &&& 31).toNat)
  | 0x7c => set_a (m.a >>> (m.x &&& 31).toNat)
  | 0x84 => set_a (-m.a)
  | 0x94 => divide m k (m.a % k)
  | 0x9c => if m.x = 0 then .ok (.done 0) else divide m m.x (m.a % m.x)
  | 0xa4 => set_a (m.a ^^^ k)
  | 0xac => set_a (m.a ^^^ m.x)
  | 0x05 => .ok (.next { m with pc := m.pc + k.toNat })
  | 0x15 | 0x1d | 0x25 | 0x2d | 0x35 | 0x3d | 0x45 | 0x4d =>
    let operand := if insn.code / 8 % 2 = 1 then m.x else k
    .ok (.next { m with pc := m.pc + if taken insn.code m.a operand then insn.jt else insn.jf })
  | 0x06 => .ok (.done k)
  | 0x16 => .ok (.done m.a)
  | 0x07 => .ok (.next { m with x := m.a })
  | 0x87 => set_a m.x
  | _ => .error .UnreachableArm
/-- At most `steps` turns. -/
def run_from (insns : List SockFilter) (env : Env) (skb : SkbView) : Nat → Machine → Except Fault (BitVec 32)
  | 0, _ => .error .OutOfSteps
  | steps + 1, m =>
    match insns[m.pc]? with
    -- the source leaves the loop here with verdict 0
    | none => .error .PastTheEnd
    | some insn =>
      (exec env skb insn { m with pc := m.pc + 1 }).bind (fun outcome =>
        match outcome with
        | .next m => run_from insns env skb steps m
        | .done verdict => .ok verdict)
/-- As many turns as there are instructions. -/
def run (insns : List SockFilter) (env : Env) (skb : SkbView) : Except Fault (BitVec 32) :=
  run_from insns env skb insns.length .start
end Narf.Net.Cbpf
