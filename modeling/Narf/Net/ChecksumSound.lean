import Narf.Lib.OnesComplement
import Narf.Net.Checksum

namespace Narf.Net
open Lib.OnesComplement List

/-! The checksum code against RFC 1071: the folded sum is the ones' complement sum of the
    big-endian words, so a buffer passes its check when that sum is sixteen ones. -/

/-- The sum of the big-endian words, an odd last byte padded with zero. -/
def word_sum : List Byte → Nat
  | [] => 0
  | [a] => be a 0
  | a :: b :: rest => be a b + word_sum rest
def swapped_sum : List Byte → Nat
  | [] => 0
  | [a] => a.toNat
  | a :: b :: rest => be b a + swapped_sum rest
/-- Swapping the bytes of a word multiplies it by 256 modulo 65535. -/
lemma swapped_sum_spec (buf : List Byte) : Alike (256 * swapped_sum buf) (word_sum buf) := by
  induction buf using word_sum.induct with
  | case1 => exact Alike.refl _
  | case2 a =>
    have zero : (0 : Byte).toNat = 0 := rfl
    rw [swapped_sum,word_sum,be,zero]
    constructor <;> omega
  | case3 a b rest ih =>
    have one : Alike (256 * be b a) (be a b) := by
      unfold be
      constructor <;> omega
    rw [swapped_sum,word_sum,Nat.mul_add]
    exact one.add ih
lemma alike_remainder_sum (rem : List Byte) (short : rem.length < 8) : Alike (remainder_sum rem) (swapped_sum rem) := by
  match rem, short with
  | [], _ => exact Alike.refl _
  | [a], _ | [a,b], _ | [a,b,c], _ | [a,b,c,d], _ | [a,b,c,d,e], _ | [a,b,c,d,e,f], _ | [a,b,c,d,e,f,g], _ =>
    simp [remainder_sum,swapped_sum,le,be]
    unfold Alike
    omega
lemma length_lt_of_few {rem : List Byte}
    (few : ∀ a b c d e f g h rest, rem = a :: b :: c :: d :: e :: f :: g :: h :: rest → False) : rem.length < 8 := by
  match rem, few with
  | [], _ | [_], _ | [_,_], _ | [_,_,_], _ | [_,_,_,_], _ | [_,_,_,_,_], _ | [_,_,_,_,_,_], _ | [_,_,_,_,_,_,_], _ => simp
  | a :: b :: c :: d :: e :: f :: g :: h :: rest, few => exact absurd rfl (few a b c d e f g h rest)
lemma alike_group_sum (buf : List Byte) : Alike (group_sum buf) (swapped_sum buf) := by
  induction buf using group_sum.induct with
  | case1 a b c d e f g h rest ih =>
    have group : Alike (le [a,b,c,d,e,f,g,h]) (be b a + (be d c + (be f e + be h g))) := by
      simp only [le,be]
      constructor <;> omega
    have sums := ((alike_fold_wide _).trans group).add ih
    simpa only [group_sum,swapped_sum,add_assoc] using sums
  | case2 rem few =>
    rw [group_sum.eq_2 rem few]
    exact alike_remainder_sum rem (length_lt_of_few few)
lemma le_lt (bytes : List Byte) : le bytes < 256 ^ bytes.length := by
  induction bytes with
  | nil => simp [le]
  | cons b rest ih =>
    have := b.isLt
    rw [le,length_cons,pow_succ]
    omega
lemma remainder_sum_le (rem : List Byte) (short : rem.length < 8) : remainder_sum rem ≤ rem.length * 2 ^ 32 := by
  match rem, short with
  | [], _ | [_], _ | [_,_], _ | [_,_,_], _ | [_,_,_,_], _ | [_,_,_,_,_], _ | [_,_,_,_,_,_], _ | [_,_,_,_,_,_,_], _ =>
    simp [remainder_sum,le]
    try omega
lemma group_sum_le (buf : List Byte) : group_sum buf ≤ buf.length * 2 ^ 32 := by
  induction buf using group_sum.induct with
  | case1 a b c d e f g h rest ih =>
    have bound := le_lt [a,b,c,d,e,f,g,h]
    simp only [group_sum,length_cons,length_nil] at bound ih ⊢
    omega
  | case2 rem few =>
    rw [group_sum.eq_2 rem few]
    exact remainder_sum_le rem (length_lt_of_few few)
lemma alike_fold_sum {acc : Nat} (small : acc < 2 ^ 64) : Alike (fold acc) acc ∧ fold acc < 65536 := by
  have first := alike_fold_wide acc
  have second := alike_fold_wide (acc % 2 ^ 32 + acc / 2 ^ 32)
  -- two folds leave 32 bits, two more leave sixteen
  generalize half : acc % 2 ^ 32 + acc / 2 ^ 32 = s₁ at first second
  generalize quarter : s₁ % 2 ^ 32 + s₁ / 2 ^ 32 = s₂ at second
  have wide : s₂ < 2 ^ 32 := by omega
  have third := alike_fold s₂
  have fourth := alike_fold (s₂ % 2 ^ 16 + s₂ / 2 ^ 16)
  generalize eighth : s₂ % 2 ^ 16 + s₂ / 2 ^ 16 = s₃ at third fourth
  have narrow : s₃ % 2 ^ 16 + s₃ / 2 ^ 16 < 2 ^ 16 := by omega
  have same : fold acc = s₃ % 2 ^ 16 + s₃ / 2 ^ 16 := by
    simp only [fold,half,quarter,Nat.mod_eq_of_lt wide,eighth,Nat.mod_eq_of_lt narrow]
  rw [same]
  exact ⟨fourth.trans (third.trans (second.trans first)),narrow⟩
variable {buf : List Byte}
lemma ones_complement_sum_spec (small : buf.length < 2 ^ 32) :
    Alike (ones_complement_sum buf) (word_sum buf) ∧ ones_complement_sum buf < 65536 := by
  have bound := group_sum_le buf
  obtain ⟨folds,short⟩ := @alike_fold_sum (group_sum buf) (by omega)
  have swap : Alike (ones_complement_sum buf) (256 * fold (group_sum buf)) := by
    simp only [ones_complement_sum,Alike]
    omega
  have scaled : Alike (256 * fold (group_sum buf)) (256 * swapped_sum buf) := by
    obtain ⟨mod,zero⟩ := folds.trans (alike_group_sum buf)
    unfold Alike
    omega
  refine ⟨swap.trans (scaled.trans (swapped_sum_spec buf)),?_⟩
  simp only [ones_complement_sum]
  omega
lemma ip_checksum_eq_zero (small : buf.length < 2 ^ 32) : ip_checksum buf = 0 ↔ Verifies (word_sum buf) := by
  obtain ⟨alike,short⟩ := ones_complement_sum_spec small
  rw [← alike.eq_ones_iff short,ip_checksum,complement]
  omega
lemma fold_pseudo_spec (ph : Nat) : Alike (fold_pseudo ph) ph ∧ fold_pseudo ph < 65536 := by
  induction ph using fold_pseudo.induct with
  | case1 ph small =>
    rw [fold_pseudo,if_pos small]
    exact ⟨Alike.refl _,small⟩
  | case2 ph large ih =>
    rw [fold_pseudo,if_neg large]
    exact ⟨ih.1.trans (alike_fold ph),ih.2⟩
lemma ones_complement_add_spec {a b : Nat} (left : a < 65536) (right : b < 65536) :
    Alike (ones_complement_add a b) (a + b) ∧ ones_complement_add a b < 65536 := by
  have narrow : (a + b) % 2 ^ 16 + (a + b) / 2 ^ 16 < 2 ^ 16 := by omega
  simp only [ones_complement_add,Nat.mod_eq_of_lt narrow]
  exact ⟨alike_fold (a + b),narrow⟩
lemma pseudo_checksum_eq_zero {src dst segment : List Byte} {proto : Nat} (small : segment.length < 2 ^ 32) :
    ipv4_pseudo_checksum_proto src dst proto segment = 0 ↔ Verifies (pseudo_sum src dst proto segment.length + word_sum segment) := by
  obtain ⟨alike,short⟩ := ones_complement_sum_spec small
  obtain ⟨header,fits⟩ := fold_pseudo_spec (pseudo_sum src dst proto segment.length)
  obtain ⟨sum,bounded⟩ := ones_complement_add_spec fits short
  rw [← (sum.trans (header.add alike)).eq_ones_iff bounded,ipv4_pseudo_checksum_proto,complement]
  omega

/-! ### Storing a word -/
lemma word_sum_put_word {packet : List Byte} {i v : Nat} (even : i % 2 = 0) (inside : i + 1 < packet.length)
    (small : v < 65536) : word_sum (put_word packet i v) + word_of packet i = word_sum packet + v := by
  induction packet using word_sum.induct generalizing i with
  | case1 | case2 => simp at inside
  | case3 a b rest ih =>
    match i, even with
    | 0, _ =>
      have stored : word_sum (put_word (a :: b :: rest) 0 v) = v + word_sum rest := by
        simp only [put_word,set_cons_zero,set_cons_succ,word_sum,be,BitVec.toNat_ofNat]
        omega
      have old : word_of (a :: b :: rest) 0 = be a b := rfl
      rw [stored,old,word_sum]
      omega
    | j + 2, even =>
      simp only [length_cons] at inside
      have later := @ih j (by omega) (by omega)
      have stored : put_word (a :: b :: rest) (j + 2) v = a :: b :: put_word rest j v := rfl
      have old : word_of (a :: b :: rest) (j + 2) = word_of rest j := rfl
      rw [stored,old,word_sum,word_sum]
      omega

/-! ### Sums over a part of a packet -/
def range_sum (packet : List Byte) (start len : Nat) : Nat := word_sum ((packet.drop start).take len)

section Sums
variable {packet : List Byte} {start len i v : Nat}
lemma word_of_part (inside : i + 1 < len) : word_of ((packet.drop start).take len) i = word_of packet (start + i) := by
  have byte (j : Nat) (small : j < len) : byte_of ((packet.drop start).take len) j = byte_of packet (start + j) := by
    simp only [byte_of,getD_eq_getElem?_getD]
    rw [getElem?_take_of_lt small,getElem?_drop]
  rw [word_of,word_of,byte i (by omega),byte (i + 1) inside,add_assoc]
lemma part_put_word_inside (after : start ≤ i) :
    ((put_word packet i v).drop start).take len = put_word ((packet.drop start).take len) (i - start) v := by
  have next : i + 1 - start = i - start + 1 := by omega
  simp only [put_word,drop_set]
  rw [if_neg (by omega),if_neg (by omega),next]
  simp [take_set]
lemma part_put_word_outside (outside : i + 1 < start ∨ start + len ≤ i) :
    ((put_word packet i v).drop start).take len = (packet.drop start).take len := by
  by_cases before : i + 1 < start
  · rw [drop_put_word before]
  · apply ext_getElem?
    intro j
    by_cases small : j < len
    · rw [getElem?_take_of_lt small,getElem?_take_of_lt small,getElem?_drop,getElem?_drop,put_word,
        getElem?_set_ne (by omega),getElem?_set_ne (by omega)]
    · rw [getElem?_eq_none (by simp; omega),getElem?_eq_none (by simp; omega)]
lemma range_sum_inside (after : start ≤ i) (even : (i - start) % 2 = 0) (inside : i + 1 < start + len)
    (fits : start + len ≤ packet.length) (small : v < 65536) :
    range_sum (put_word packet i v) start len + word_of packet i = range_sum packet start len + v := by
  have length : ((packet.drop start).take len).length = len := by
    rw [length_take,length_drop]
    omega
  have here : start + (i - start) = i := by omega
  have stored := @word_sum_put_word ((packet.drop start).take len) (i - start) v even (by omega) small
  rw [word_of_part (by omega),here] at stored
  rw [range_sum,range_sum,part_put_word_inside after]
  exact stored
lemma range_sum_outside (outside : i + 1 < start ∨ start + len ≤ i) :
    range_sum (put_word packet i v) start len = range_sum packet start len := by
  rw [range_sum,part_put_word_outside outside,range_sum]
end Sums
end Narf.Net
