import Narf.Bpf.Scalar

/-! The concrete reference machine: arithmetic and comparison of words. It is written from the
instruction set and knows nothing of the abstract domain. -/

namespace Narf.Bpf
def MAX_STACK_BYTES : Nat := 16384

namespace Interp
def sext (v : U64) (bits : Nat) : U64 :=
  if 64 ≤ bits then v else (v <<< (64 - bits)).sshiftRight (64 - bits)
def alu (op : AluOp) (wide : Bool) (dst src : U64) : U64 :=
  if wide then
    match op with
    | .Add => dst + src
    | .Sub => dst - src
    | .Mul => dst * src
    | .Or => dst ||| src
    | .And => dst &&& src
    | .Xor => dst ^^^ src
    | .Lsh => dst <<< (src &&& 63#64).toNat
    | .Rsh => dst >>> (src &&& 63#64).toNat
    | .Arsh => dst.sshiftRight (src &&& 63#64).toNat
  else
    let a := dst.setWidth 32
    let b := src.setWidth 32
    let r :=
      match op with
      | .Add => a + b
      | .Sub => a - b
      | .Mul => a * b
      | .Or => a ||| b
      | .And => a &&& b
      | .Xor => a ^^^ b
      | .Lsh => a <<< (b &&& 31#32).toNat
      | .Rsh => a >>> (b &&& 31#32).toNat
      | .Arsh => a.sshiftRight (b &&& 31#32).toNat
    r.setWidth 64
def low32 (v : U64) : U64 := (v.setWidth 32).setWidth 64
def div (wide signed : Bool) (dst src : U64) : U64 :=
  match wide,signed with
  | true,false => concrete_udiv dst src
  | true,true => concrete_sdiv dst src
  | false,false => low32 (concrete_udiv (low32 dst) (low32 src))
  | false,true => (concrete_sdiv32 (dst.setWidth 32) (src.setWidth 32)).setWidth 64
def rem (wide signed : Bool) (dst src : U64) : U64 :=
  match wide,signed with
  | true,false => concrete_umod dst src
  | true,true => concrete_smod dst src
  | false,false => low32 (concrete_umod (low32 dst) (low32 src))
  | false,true => (concrete_smod32 (dst.setWidth 32) (src.setWidth 32)).setWidth 64
def neg (wide : Bool) (dst : U64) : U64 := if wide then -dst else (-(dst.setWidth 32)).setWidth 64
def mov (wide : Bool) (sign_extend : Option Nat) (src : U64) : U64 :=
  match sign_extend,wide with
  | some bits,true => sext src bits
  | some bits,false => low32 (sext src bits)
  | none,true => src
  | none,false => low32 src
/-- Byte-order conversion; both targets are little-endian. -/
def end_order (order : ByteOrder) (width : Nat) (dst : U64) : U64 :=
  let truncated :=
    match width with
    | 16 => (dst.setWidth 16).setWidth 64
    | 32 => low32 dst
    | _ => dst
  match order with
  | .Little => truncated
  | .Big | .Swap => concrete_bswap dst width
def compare {w : Nat} (op : CondOp) (a b : BitVec w) : Bool :=
  match op with
  | .Eq => a == b
  | .Ne => a != b
  | .Gt => decide (b.toNat < a.toNat)
  | .Ge => decide (b.toNat ≤ a.toNat)
  | .Lt => decide (a.toNat < b.toNat)
  | .Le => decide (a.toNat ≤ b.toNat)
  | .Sgt => decide (b.toInt < a.toInt)
  | .Sge => decide (b.toInt ≤ a.toInt)
  | .Slt => decide (a.toInt < b.toInt)
  | .Sle => decide (a.toInt ≤ b.toInt)
  | .Set => a &&& b != 0#w
def cond (op : CondOp) (wide : Bool) (a b : U64) : Bool :=
  if wide then compare op a b else compare op (a.setWidth 32) (b.setWidth 32)
end Interp
end Narf.Bpf
