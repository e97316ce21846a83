import Narf.Net.Bytes

namespace Narf.Net

/-! The Internet checksum. The code sums eight bytes a step, as native words, and swaps the bytes
    of the folded sum once; its 64-bit accumulator is a natural number here, since no buffer under
    16 GiB overflows it. -/

/-- `from_ne_bytes` on the little-endian targets. -/
def le : List Byte → Nat
  | [] => 0
  | b :: rest => b.toNat + 256 * le rest
/-- What is left after the last group of eight. -/
def remainder_sum (rem : List Byte) : Nat :=
  let first := if 4 ≤ rem.length then le (rem.take 4) else 0
  let rem := if 4 ≤ rem.length then rem.drop 4 else rem
  let second := if 2 ≤ rem.length then le (rem.take 2) else 0
  let rem := if 2 ≤ rem.length then rem.drop 2 else rem
  let last := match rem with
    | [b] => le [b,0]
    | _ => 0
  first + second + last
def group_sum : List Byte → Nat
  | a :: b :: c :: d :: e :: f :: g :: h :: rest =>
    let w := le [a,b,c,d,e,f,g,h]
    w % 2 ^ 32 + w / 2 ^ 32 + group_sum rest
  | rem => remainder_sum rem
/-- Fold 64 to 32 to 16 bits with end-around carry. -/
def fold (acc : Nat) : Nat :=
  let s := acc % 2 ^ 32 + acc / 2 ^ 32
  let s := s % 2 ^ 32 + s / 2 ^ 32
  let s := s % 2 ^ 32
  let s := s % 2 ^ 16 + s / 2 ^ 16
  let s := s % 2 ^ 16 + s / 2 ^ 16
  s % 2 ^ 16
def ones_complement_sum (buf : List Byte) : Nat :=
  let s := fold (group_sum buf)
  s % 256 * 256 + s / 256
def ones_complement_add (a b : Nat) : Nat :=
  let s := a + b
  (s % 2 ^ 16 + s / 2 ^ 16) % 2 ^ 16
def complement (v : Nat) : Nat := 65535 - v
def ip_checksum (buf : List Byte) : Nat := complement (ones_complement_sum buf)
/-- The pseudo-header's sum: the addresses as words, the protocol and the length. -/
def pseudo_sum (src dst : List Byte) (proto len : Nat) : Nat :=
  word_of src 0 + word_of src 2 + word_of dst 0 + word_of dst 2 + proto + len
/-- The loop that folds the pseudo-header's sum. -/
def fold_pseudo (ph : Nat) : Nat :=
  if ph < 65536 then ph else fold_pseudo (ph % 65536 + ph / 65536)
termination_by ph
decreasing_by omega
def ipv4_pseudo_checksum_proto (src dst : List Byte) (proto : Nat) (segment : List Byte) : Nat :=
  complement (ones_complement_add (fold_pseudo (pseudo_sum src dst proto segment.length)) (ones_complement_sum segment))
def ipv4_pseudo_checksum (src dst segment : List Byte) : Nat := ipv4_pseudo_checksum_proto src dst 6 segment
end Narf.Net
