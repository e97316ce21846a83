import Mathlib

namespace Narf.Net
open List

/-! Packets as lists of bytes, with the big-endian fields that the code reads and writes. An index
    is in range wherever the code uses it; past the end a byte reads as zero. -/

abbrev Byte := BitVec 8
/-- `u16::from_be_bytes`. -/
def be (hi lo : Byte) : Nat := hi.toNat * 256 + lo.toNat
def byte_of (packet : List Byte) (i : Nat) : Byte := packet.getD i 0
def word_of (packet : List Byte) (i : Nat) : Nat := be (byte_of packet i) (byte_of packet (i + 1))
def put_word (packet : List Byte) (i v : Nat) : List Byte :=
  (packet.set i (BitVec.ofNat 8 (v / 256))).set (i + 1) (BitVec.ofNat 8 v)
lemma be_lt (hi lo : Byte) : be hi lo < 65536 := by
  have first := hi.isLt
  have second := lo.isLt
  unfold be
  omega
lemma word_of_lt (packet : List Byte) (i : Nat) : word_of packet i < 65536 := be_lt _ _
@[simp] lemma length_put_word (packet : List Byte) (i v : Nat) : (put_word packet i v).length = packet.length := by
  simp [put_word]
variable {packet : List Byte} {i j v : Nat}
lemma byte_of_set_ne {v : Byte} (apart : j ≠ i) : byte_of (packet.set i v) j = byte_of packet j := by
  simp only [byte_of,getD_eq_getElem?_getD]
  rw [getElem?_set_ne (Ne.symm apart)]
lemma byte_of_append_left {rest : List Byte} (inside : i < packet.length) : byte_of (packet ++ rest) i = byte_of packet i := by
  simp only [byte_of,getD_eq_getElem?_getD]
  rw [getElem?_append_left inside]
lemma byte_of_put_word (apart : j < i ∨ i + 1 < j) : byte_of (put_word packet i v) j = byte_of packet j := by
  rw [put_word,byte_of_set_ne (by omega),byte_of_set_ne (by omega)]
lemma word_of_put_word_ne (apart : j + 1 < i ∨ i + 1 < j) : word_of (put_word packet i v) j = word_of packet j := by
  rw [word_of,word_of,byte_of_put_word (by omega),byte_of_put_word (by omega)]
lemma word_of_put_word (inside : i + 1 < packet.length) (small : v < 65536) : word_of (put_word packet i v) i = v := by
  have high : byte_of (put_word packet i v) i = BitVec.ofNat 8 (v / 256) := by
    simp only [byte_of,put_word,getD_eq_getElem?_getD]
    rw [getElem?_set_ne (by omega),getElem?_set_self (by omega)]
    rfl
  have low : byte_of (put_word packet i v) (i + 1) = BitVec.ofNat 8 v := by
    simp only [byte_of,put_word,getD_eq_getElem?_getD]
    rw [getElem?_set_self (by simpa using inside)]
    rfl
  rw [word_of,high,low,be,BitVec.toNat_ofNat,BitVec.toNat_ofNat]
  omega
lemma drop_put_word {n : Nat} (below : i + 1 < n) : (put_word packet i v).drop n = packet.drop n := by
  rw [put_word,drop_set_of_lt (by omega),drop_set_of_lt (by omega)]
end Narf.Net
