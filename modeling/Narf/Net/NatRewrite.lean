import Narf.Net.ChecksumSound
import Narf.Net.Netfilter

namespace Narf.Net.Netfilter
open Lib.OnesComplement List
open BitVec hiding not_or

/-! A rewritten packet passes its checks: what is stored in a checksum makes up for what is stored
    elsewhere, modulo 65535, and no sum becomes zero. -/

/-! ## Incremental updates -/
lemma csum_incremental_spec {c w w' : Nat} (csum : c < 65536) (old : w < 65536) (new : w' < 65536) :
    csum_incremental c w w' < 65536 ∧ (csum_incremental c w w' + w') % 65535 = (c + w) % 65535 := by
  unfold csum_incremental complement
  dsimp only
  generalize sum : 65535 - c + (65535 - w) + w' = s
  have once : s % 65536 + s / 65536 ≤ 65537 := by omega
  generalize first : s % 65536 + s / 65536 = f at once
  have twice : f % 65536 + f / 65536 < 65536 := by omega
  rw [Nat.mod_eq_of_lt twice]
  omega
lemma Ipv4Addr.hi_lt (ip : Ipv4Addr) : ip.hi < 65536 := be_lt _ _
lemma Ipv4Addr.lo_lt (ip : Ipv4Addr) : ip.lo < 65536 := be_lt _ _
lemma csum_addr_spec {c : Nat} (csum : c < 65536) (old new : Ipv4Addr) :
    csum_addr c old new < 65536 ∧ (csum_addr c old new + new.hi + new.lo) % 65535 = (c + old.hi + old.lo) % 65535 := by
  obtain ⟨small,first⟩ := csum_incremental_spec csum old.hi_lt new.hi_lt
  obtain ⟨small',second⟩ := csum_incremental_spec small old.lo_lt new.lo_lt
  refine ⟨small',?_⟩
  unfold csum_addr
  omega
lemma put_addr_eq (packet : List Byte) (i : Nat) (ip : Ipv4Addr) :
    put_addr packet i ip = put_word (put_word packet i ip.hi) (i + 2) ip.lo := by
  have high (x y : Byte) : BitVec.ofNat 8 (be x y / 256) = x := by
    apply eq_of_toNat_eq
    rw [toNat_ofNat,be]
    omega
  have low (x y : Byte) : BitVec.ofNat 8 (be x y) = y := by
    apply eq_of_toNat_eq
    rw [toNat_ofNat,be]
    omega
  simp [put_word,put_addr,Ipv4Addr.hi,Ipv4Addr.lo,high,low]

/-! ## Valid packets -/
/-- Where a TCP or UDP header has its checksum. -/
def csum_at (proto : Byte) : Nat := if proto = 17 then 6 else 16
/-- An unfragmented TCP or UDP packet whose transport segment is `len` bytes from `l4` on, and which
    passes the checks a receiver makes. Bytes after the total length are padding. -/
structure Valid (packet : List Byte) (l4 len : Nat) : Prop where
  offset : ipv4_l4_offset packet = some l4
  whole : word_of packet 6 % 0x4000 = 0
  proto : byte_of packet 9 = 6 ∧ len = word_of packet 2 - l4 ∧ 20 ≤ len ∨ byte_of packet 9 = 17 ∧ len = word_of packet (l4 + 4) ∧ 8 ≤ len
  total : l4 + len ≤ word_of packet 2 ∧ word_of packet 2 ≤ packet.length
  header : ip_checksum (packet.take l4) = 0
  transport : byte_of packet 9 = 17 ∧ word_of packet (l4 + 6) = 0 ∨
    ipv4_pseudo_checksum_proto (addr_of packet 12).bytes (addr_of packet 16).bytes (byte_of packet 9).toNat
      ((packet.drop l4).take len) = 0
/-- What the transport checksum covers. -/
def transport_sum (packet : List Byte) (l4 len : Nat) : Nat :=
  word_of packet 12 + word_of packet 14 + word_of packet 16 + word_of packet 18 + (byte_of packet 9).toNat + len +
    range_sum packet l4 len

section Valid
variable {packet : List Byte} {l4 len : Nat}
lemma offset_bounds (offset : ipv4_l4_offset packet = some l4) :
    20 ≤ l4 ∧ l4 ≤ 60 ∧ l4 % 4 = 0 ∧ l4 ≤ packet.length ∧ byte_of packet 0 ≠ 0 := by
  unfold ipv4_l4_offset at offset
  split at offset
  · exact absurd offset (by simp)
  dsimp only at offset
  split at offset
  · exact absurd offset (by simp)
  next small =>
  cases offset
  simp only [IPV4_MIN_HDR_LEN,not_or] at small
  have nibble : (byte_of packet 0 &&& 0x0f).toNat ≤ 15 := by
    rw [toNat_and]
    exact Nat.and_le_right
  refine ⟨by omega,by omega,by omega,by omega,fun zero => ?_⟩
  simp [zero] at small
lemma header_iff (offset : ipv4_l4_offset packet = some l4) : ip_checksum (packet.take l4) = 0 ↔ Verifies (range_sum packet 0 l4) := by
  have bounds := offset_bounds offset
  rw [ip_checksum_eq_zero (by rw [length_take]; omega),range_sum,drop_zero]
lemma transport_iff (fits : l4 + len ≤ packet.length) (small : len < 65536) :
    ipv4_pseudo_checksum_proto (addr_of packet 12).bytes (addr_of packet 16).bytes (byte_of packet 9).toNat
      ((packet.drop l4).take len) = 0 ↔ Verifies (transport_sum packet l4 len) := by
  have length : ((packet.drop l4).take len).length = len := by
    rw [length_take,length_drop]
    omega
  rw [pseudo_checksum_eq_zero (by omega),length]
  rfl
variable {packet' : List Byte} {n off i : Nat} {proto : Byte} {update : Nat → Nat}
lemma offset_congr (length : packet'.length = packet.length)
    (same : byte_of packet' 0 = byte_of packet 0) : ipv4_l4_offset packet' = ipv4_l4_offset packet := by
  rw [ipv4_l4_offset,ipv4_l4_offset,length,same]
lemma rewrite_offset_congr (length : packet'.length = packet.length)
    (same : ∀ i < 10, byte_of packet' i = byte_of packet i) : l4_rewrite_offset packet' = l4_rewrite_offset packet := by
  have fragment : word_of packet' 6 = word_of packet 6 := by rw [word_of,word_of,same 6 (by decide),same 7 (by decide)]
  rw [l4_rewrite_offset,l4_rewrite_offset,offset_congr length (same 0 (by decide)),ipv4_is_later_fragment,
    ipv4_is_later_fragment,length,fragment]
lemma Valid.rewrite_offset (valid : Valid packet l4 len) : l4_rewrite_offset packet = some l4 := by
  have whole := valid.whole
  have first : ipv4_is_later_fragment packet = false := by
    simp only [ipv4_is_later_fragment,decide_eq_false_iff_not]
    omega
  rw [l4_rewrite_offset,first]
  exact valid.offset
lemma Valid.bounds (valid : Valid packet l4 len) :
    20 ≤ l4 ∧ l4 ≤ 60 ∧ l4 % 4 = 0 ∧ l4 + len ≤ packet.length ∧ len < 65536 ∧ csum_at (byte_of packet 9) + 2 ≤ len ∧
      (csum_at (byte_of packet 9) = 6 ∨ csum_at (byte_of packet 9) = 16) := by
  have bounds := offset_bounds valid.offset
  have total := valid.total
  have small := word_of_lt packet 2
  rcases valid.proto with ⟨tcp,_,least⟩ | ⟨udp,_,least⟩
  · have at_ : csum_at (byte_of packet 9) = 16 := by
      rw [csum_at,tcp]
      rfl
    omega
  · have at_ : csum_at (byte_of packet 9) = 6 := by
      rw [csum_at,udp]
      rfl
    omega
/-- A valid packet stays valid when its first bytes and the length of its segment stay and its sums do. -/
lemma Valid.of_sums (valid : Valid packet l4 len) (length : packet'.length = packet.length)
    (same : ∀ i < 10, byte_of packet' i = byte_of packet i)
    (udp_len : byte_of packet 9 = 17 → word_of packet' (l4 + 4) = word_of packet (l4 + 4))
    (header : Verifies (range_sum packet 0 l4) → Verifies (range_sum packet' 0 l4))
    (transport : byte_of packet 9 = 17 ∧ word_of packet' (l4 + 6) = 0 ∨
      (Verifies (transport_sum packet l4 len) → Verifies (transport_sum packet' l4 len)))
    (none : byte_of packet 9 = 17 → word_of packet (l4 + 6) = 0 → word_of packet' (l4 + 6) = 0) : Valid packet' l4 len := by
  have offset := (offset_congr length (same 0 (by decide))).trans valid.offset
  have nine := same 9 (by decide)
  have two : word_of packet' 2 = word_of packet 2 := by rw [word_of,word_of,same 2 (by decide),same 3 (by decide)]
  have six : word_of packet' 6 = word_of packet 6 := by rw [word_of,word_of,same 6 (by decide),same 7 (by decide)]
  have bounds := valid.bounds
  have total := valid.total
  refine ⟨offset,by rw [six]; exact valid.whole,?_,by rw [two,length]; exact total,?_,?_⟩
  · rw [nine,two]
    rcases valid.proto with tcp | ⟨udp,same_len,least⟩
    · exact .inl tcp
    · exact .inr ⟨udp,by rw [udp_len udp]; exact same_len,least⟩
  · rw [header_iff offset]
    exact header ((header_iff valid.offset).mp valid.header)
  · rw [nine]
    rcases transport with absent | sums
    · exact .inl absent
    rcases valid.transport with ⟨udp,absent⟩ | checked
    · exact .inl ⟨udp,none udp absent⟩
    · right
      rw [← nine,transport_iff (by omega) (by omega)]
      exact sums ((transport_iff (by omega) (by omega)).mp checked)
lemma verifies_of_alike {m : Nat} (mod : m % 65535 = n % 65535) (nonzero : m ≠ 0) (verifies : Verifies n) : Verifies m :=
  ⟨nonzero,mod.trans verifies.2⟩
lemma header_sum_pos (offset : ipv4_l4_offset packet = some l4) : range_sum packet 0 l4 ≠ 0 := by
  have bounds := offset_bounds offset
  match packet, bounds with
  | [], bounds => exact absurd bounds.2.2.2.1 (by simp; omega)
  | [_], bounds => exact absurd bounds.2.2.2.1 (by simp; omega)
  | a :: b :: rest, bounds =>
    obtain ⟨m,rfl⟩ : ∃ m, l4 = m + 2 := ⟨l4 - 2,by omega⟩
    have first : a.toNat ≠ 0 := fun zero => bounds.2.2.2.2 (eq_of_toNat_eq (by simpa [byte_of] using zero))
    simp only [range_sum,drop_zero,take_succ_cons,word_sum,be]
    omega
/-- The bytes that differ are in the header checksum, in `field` or in the transport checksum, and a UDP
    packet has a checksum when it had one. -/
structure Keeps (packet packet' : List Byte) (l4 : Nat) (field : Nat → Prop) : Prop where
  length : packet'.length = packet.length
  bytes : ∀ i, ¬ (10 ≤ i ∧ i < 12) → ¬ field i →
    ¬ (l4 + csum_at (byte_of packet 9) ≤ i ∧ i < l4 + csum_at (byte_of packet 9) + 2) → byte_of packet' i = byte_of packet i
  zero : byte_of packet 9 = 17 → (word_of packet' (l4 + 6) = 0 ↔ word_of packet (l4 + 6) = 0)
lemma csum_off_eq (kind : proto = 6 ∨ proto = 17) (enough : csum_at proto + 2 ≤ n) : csum_off proto n = some (csum_at proto) := by
  rcases kind with rfl | rfl
  · exact if_pos enough
  · exact if_pos enough
/-- The checksum stays away, or takes the updated value up to a multiple of 65535. -/
lemma update_l4_csum_cases (kind : proto = 6 ∨ proto = 17)
    (reach : csum_at proto + 2 ≤ packet.length - l4) (bounded : ∀ c < 65536, update c < 65536) :
    (proto = 17 ∧ word_of packet (l4 + csum_at proto) = 0 ∧ update_l4_csum packet l4 proto update = packet) ∨
    ((proto = 17 → word_of packet (l4 + csum_at proto) ≠ 0) ∧
      ∃ v, update_l4_csum packet l4 proto update = put_word packet (l4 + csum_at proto) v ∧ v < 65536 ∧
        v % 65535 = update (word_of packet (l4 + csum_at proto)) % 65535 ∧ (proto = 17 → v ≠ 0)) := by
  have cur := bounded _ (word_of_lt packet (l4 + csum_at proto))
  rw [update_l4_csum,csum_off_eq kind reach]
  dsimp only
  by_cases skip : proto = 17 ∧ word_of packet (l4 + csum_at proto) = 0
  · have udp : proto ≠ 6 := by
      rw [skip.1]
      decide
    have neither : ¬ (word_of packet (l4 + csum_at proto) ≠ 0 ∨ proto = 6) := by
      rintro (nonzero | tcp)
      · exact nonzero skip.2
      · exact udp tcp
    rw [if_neg neither]
    exact .inl ⟨skip.1,skip.2,rfl⟩
  · have applies : word_of packet (l4 + csum_at proto) ≠ 0 ∨ proto = 6 := by
      rcases kind with tcp | udp
      · exact .inr tcp
      · exact .inl fun zero => skip ⟨udp,zero⟩
    rw [if_pos applies,put_l4_csum]
    refine .inr ⟨fun udp zero => skip ⟨udp,zero⟩,_,rfl,?_,?_,?_⟩
    · split <;> omega
    · split <;> omega
    · intro udp
      split
      · omega
      · next nonzero => exact fun zero => nonzero ⟨zero,udp⟩
section
variable (valid : Valid packet l4 len)
include valid
lemma Valid.kind : byte_of packet 9 = 6 ∨ byte_of packet 9 = 17 := by
  rcases valid.proto with tcp | udp
  · exact .inl tcp.1
  · exact .inr udp.1
/-- The last step of every rewriting: `mid` has the new field and the header checksum for it, and the update
    of the transport checksum balances the rest. -/
lemma update_valid {mid : List Byte} {update : Nat → Nat} {field : Nat → Prop} (length : mid.length = packet.length)
    (bytes : ∀ i, ¬ (10 ≤ i ∧ i < 12) → ¬ field i → byte_of mid i = byte_of packet i)
    (place : ∀ i, field i → 12 ≤ i ∧ i < 20 ∨ l4 ≤ i ∧ i < l4 + 4)
    (header : range_sum mid 0 l4 % 65535 = range_sum packet 0 l4 % 65535) (bounded : ∀ c < 65536, update c < 65536)
    (balance : (transport_sum mid l4 len + update (word_of packet (l4 + csum_at (byte_of packet 9)))) % 65535 =
      (transport_sum packet l4 len + word_of packet (l4 + csum_at (byte_of packet 9))) % 65535) :
    Valid (update_l4_csum mid l4 (byte_of mid 9) update) l4 len ∧ Keeps packet (update_l4_csum mid l4 (byte_of mid 9) update) l4 field := by
  obtain ⟨low,high,aligned,fits,short,reach,which⟩ := valid.bounds
  have kept (i : Nat) (outside : i < 10 ∨ l4 + 4 ≤ i) : byte_of mid i = byte_of packet i := by
    refine bytes i (by omega) fun inside => ?_
    have := place i inside
    omega
  have nine : byte_of mid 9 = byte_of packet 9 := kept 9 (by omega)
  have word (i : Nat) (outside : l4 + 4 ≤ i) : word_of mid i = word_of packet i := by
    rw [word_of,word_of,kept i (by omega),kept (i + 1) (by omega)]
  rw [nine]
  have sound {q : List Byte} (long : q.length = packet.length) (same : ∀ i < 10, byte_of q i = byte_of packet i)
      (sum : range_sum q 0 l4 % 65535 = range_sum packet 0 l4 % 65535) :
      Verifies (range_sum packet 0 l4) → Verifies (range_sum q 0 l4) :=
    verifies_of_alike sum (header_sum_pos ((offset_congr long (same 0 (by decide))).trans valid.offset))
  rcases @update_l4_csum_cases mid l4 _ update valid.kind (by omega) bounded with ⟨udp,zero,skipped⟩ | ⟨present,v,stored,small,value,nonzero⟩
  · have six : csum_at (byte_of packet 9) = 6 := by rw [udp]; rfl
    rw [six] at zero
    rw [skipped]
    refine ⟨valid.of_sums length (fun i early => kept i (by omega)) (fun _ => word _ (by omega)) ?_ (.inl ⟨udp,zero⟩)
      (fun _ _ => zero),length,fun i outside other _ => bytes i outside other,fun _ => ?_⟩
    · exact sound length (fun i early => kept i (by omega)) header
    · rw [word (l4 + 6) (by omega)]
  · rw [word _ (by omega)] at present value
    rw [stored]
    have long : (put_word mid (l4 + csum_at (byte_of packet 9)) v).length = packet.length := by rw [length_put_word,length]
    have early (i : Nat) (outside : i < 10) : byte_of (put_word mid (l4 + csum_at (byte_of packet 9)) v) i = byte_of packet i := by
      rw [byte_of_put_word (by omega),kept i (by omega)]
    have udp_len : byte_of packet 9 = 17 →
        word_of (put_word mid (l4 + csum_at (byte_of packet 9)) v) (l4 + 4) = word_of packet (l4 + 4) := by
      intro udp
      rw [word_of_put_word_ne (by omega),word _ (by omega)]
    have sum : transport_sum (put_word mid (l4 + csum_at (byte_of packet 9)) v) l4 len + word_of packet
        (l4 + csum_at (byte_of packet 9)) = transport_sum mid l4 len + v := by
      have inside := @range_sum_inside mid l4 len (l4 + csum_at (byte_of packet 9)) v (by omega) (by omega) (by omega)
        (by omega) small
      rw [word _ (by omega)] at inside
      simp only [transport_sum]
      rw [word_of_put_word_ne (by omega),word_of_put_word_ne (by omega),word_of_put_word_ne (by omega),
        word_of_put_word_ne (by omega),byte_of_put_word (by omega)]
      omega
    have positive : transport_sum (put_word mid (l4 + csum_at (byte_of packet 9)) v) l4 len ≠ 0 := by
      unfold transport_sum
      omega
    refine ⟨valid.of_sums long early udp_len ?_ (.inr ?_) ?_,long,?_,?_⟩
    · refine sound long early ?_
      rw [range_sum_outside (by omega)]
      exact header
    · exact verifies_of_alike (by omega) positive
    · intro udp zero
      have six : csum_at (byte_of packet 9) = 6 := by rw [udp]; rfl
      rw [six] at present
      exact absurd zero (present udp)
    · intro i outside other away
      rw [byte_of_put_word (by omega)]
      exact bytes i outside other
    · intro udp
      have six : csum_at (byte_of packet 9) = 6 := by rw [udp]; rfl
      rw [six] at present ⊢
      rw [word_of_put_word (by omega) small]
      exact ⟨fun zero => absurd zero (nonzero udp),fun zero => absurd zero (present udp)⟩
lemma rewrite_ip_spec {off : Nat} (place : off = 12 ∨ off = 16) (new : Ipv4Addr) :
    Valid (rewrite_ip off packet new) l4 len ∧ Keeps packet (rewrite_ip off packet new) l4 (fun i => off ≤ i ∧ i < off + 4) := by
  obtain ⟨low,high,aligned,fits,short,reach,which⟩ := valid.bounds
  have hi := new.hi_lt
  have lo := new.lo_lt
  -- the three words of the IP header
  simp only [rewrite_ip,put_addr_eq]
  generalize first : put_word packet off new.hi = p₁
  generalize second : put_word p₁ (off + 2) new.lo = p₂
  have ten : word_of p₂ 10 = word_of packet 10 := by
    rw [← second,← first,word_of_put_word_ne (by omega),word_of_put_word_ne (by omega)]
  rw [ten]
  obtain ⟨small,sums⟩ := csum_addr_spec (word_of_lt packet 10) (addr_of packet off) new
  generalize csum_addr (word_of packet 10) (addr_of packet off) new = c at small sums ⊢
  generalize third : put_word p₂ 10 c = p₃
  have length₁ : p₁.length = packet.length := by rw [← first,length_put_word]
  have length₂ : p₂.length = packet.length := by rw [← second,length_put_word,length₁]
  have length₃ : p₃.length = packet.length := by rw [← third,length_put_word,length₂]
  have bytes (i : Nat) (outside : ¬ (10 ≤ i ∧ i < 12)) (other : ¬ (off ≤ i ∧ i < off + 4)) : byte_of p₃ i = byte_of packet i := by
    rw [← third,← second,← first,byte_of_put_word (by omega),byte_of_put_word (by omega),byte_of_put_word (by omega)]
  have untouched : word_of p₁ (off + 2) = word_of packet (off + 2) := by rw [← first,word_of_put_word_ne (by omega)]
  have header : range_sum p₃ 0 l4 % 65535 = range_sum packet 0 l4 % 65535 := by
    have one := @range_sum_inside packet 0 l4 off new.hi (by omega) (by omega) (by omega) (by omega) hi
    have two := @range_sum_inside p₁ 0 l4 (off + 2) new.lo (by omega) (by omega) (by omega) (by omega) lo
    have three := @range_sum_inside p₂ 0 l4 10 c (by omega) (by omega) (by omega) (by omega) small
    rw [first] at one
    rw [second,untouched] at two
    rw [third,ten] at three
    change (c + new.hi + new.lo) % 65535 = (word_of packet 10 + word_of packet off + word_of packet (off + 2)) % 65535 at sums
    omega
  have rest : l4_rewrite_offset p₃ = some l4 :=
    (rewrite_offset_congr length₃ (fun i early => bytes i (by omega) (by omega))).trans valid.rewrite_offset
  rw [rest]
  dsimp only
  refine update_valid valid length₃ bytes (fun i inside => by omega) header
    (fun c bound => (csum_addr_spec bound _ _).1) ?_
  obtain ⟨_,sums'⟩ := csum_addr_spec (word_of_lt packet (l4 + csum_at (byte_of packet 9))) (addr_of packet off) new
  -- the two words are in the pseudo-header as well
  have segment : range_sum p₃ l4 len = range_sum packet l4 len := by
    rw [← third,← second,← first,range_sum_outside (by omega),range_sum_outside (by omega),range_sum_outside (by omega)]
  have swapped : transport_sum p₃ l4 len + word_of packet off + word_of packet (off + 2) =
      transport_sum packet l4 len + new.hi + new.lo := by
    have nine : byte_of p₃ 9 = byte_of packet 9 := bytes 9 (by omega) (by omega)
    have stored : word_of p₃ off = new.hi := by
      rw [← third,word_of_put_word_ne (by omega),← second,word_of_put_word_ne (by omega),← first,word_of_put_word (by omega) hi]
    have stored' : word_of p₃ (off + 2) = new.lo := by
      rw [← third,word_of_put_word_ne (by omega),← second,word_of_put_word (by omega) lo]
    have others (j : Nat) (even : j = 12 ∨ j = 14 ∨ j = 16 ∨ j = 18) (apart : j ≠ off ∧ j ≠ off + 2) :
        word_of p₃ j = word_of packet j := by
      rw [word_of,word_of,bytes j (by omega) (by omega),bytes (j + 1) (by omega) (by omega)]
    simp only [transport_sum,segment,nine]
    rcases place with rfl | rfl
    · simp only [Nat.reduceAdd] at stored' ⊢
      rw [stored,stored',others 16 (by omega) (by omega),others 18 (by omega) (by omega)]
      omega
    · simp only [Nat.reduceAdd] at stored' ⊢
      rw [stored,stored',others 12 (by omega) (by omega),others 14 (by omega) (by omega)]
      omega
  change (csum_addr (word_of packet (l4 + csum_at (byte_of packet 9))) (addr_of packet off) new + new.hi + new.lo) % 65535 =
    (word_of packet (l4 + csum_at (byte_of packet 9)) + word_of packet off + word_of packet (off + 2)) % 65535 at sums'
  omega
lemma rewrite_port_spec {off : Nat} (place : off = 0 ∨ off = 2) {port : Nat} (small : port < 65536) :
    Valid (rewrite_port off packet port) l4 len ∧
      Keeps packet (rewrite_port off packet port) l4 (fun i => l4 + off ≤ i ∧ i < l4 + off + 2) := by
  obtain ⟨low,high,aligned,fits,short,reach,which⟩ := valid.bounds
  rw [rewrite_port,valid.rewrite_offset]
  dsimp only
  rw [if_neg (by omega)]
  have nine : byte_of (put_word packet (l4 + off) port) 9 = byte_of packet 9 := byte_of_put_word (by omega)
  rw [← nine]
  refine update_valid valid (length_put_word ..) (fun i _ other => byte_of_put_word (by omega)) (fun i inside => by omega) ?_
    (fun c bound => (csum_incremental_spec bound (word_of_lt _ _) small).1) ?_
  · rw [range_sum_outside (by omega)]
  · obtain ⟨_,sums⟩ := csum_incremental_spec (word_of_lt packet (l4 + csum_at (byte_of packet 9)))
      (word_of_lt packet (l4 + off)) small
    have inside := @range_sum_inside packet l4 len (l4 + off) port (by omega) (by omega) (by omega) (by omega) small
    simp only [transport_sum]
    rw [word_of_put_word_ne (by omega),word_of_put_word_ne (by omega),word_of_put_word_ne (by omega),word_of_put_word_ne (by omega),nine]
    omega
end

/-! ## What is read back -/
lemma csum_off_cases (found : csum_off proto n = some off) : (proto = 6 ∧ off = 16 ∨ proto = 17 ∧ off = 6) ∧ off + 2 ≤ n := by
  rw [csum_off,L4Proto.from_u8] at found
  by_cases icmp : proto = 1
  · rw [if_pos icmp] at found
    cases found
  rw [if_neg icmp] at found
  by_cases tcp : proto = 6
  · rw [if_pos tcp] at found
    dsimp only at found
    split at found
    · cases found
      exact ⟨.inl ⟨tcp,rfl⟩,by omega⟩
    · cases found
  rw [if_neg tcp] at found
  by_cases udp : proto = 17
  · rw [if_pos udp] at found
    dsimp only at found
    split at found
    · cases found
      exact ⟨.inr ⟨udp,rfl⟩,by omega⟩
    · cases found
  · rw [if_neg udp] at found
    cases found
lemma length_update : (update_l4_csum packet l4 proto update).length = packet.length := by
  unfold update_l4_csum put_l4_csum
  split
  · rfl
  · dsimp only
    split
    · exact length_put_word ..
    · rfl
lemma byte_of_update (outside : ∀ off, csum_off proto (packet.length - l4) = some off → i < l4 + off ∨ l4 + off + 2 ≤ i) :
    byte_of (update_l4_csum packet l4 proto update) i = byte_of packet i := by
  unfold update_l4_csum put_l4_csum
  split
  · rfl
  · next off found =>
    dsimp only
    split
    · have apart := outside off found
      exact byte_of_put_word (by omega)
    · rfl
lemma byte_of_update_early (early : i < l4 + 6) : byte_of (update_l4_csum packet l4 proto update) i = byte_of packet i := by
  refine byte_of_update fun off found => ?_
  have := (csum_off_cases found).1
  omega
lemma byte_of_set_self (inside : i < packet.length) (v : Byte) : byte_of (packet.set i v) i = v := by
  simp [byte_of,getD_eq_getElem?_getD,inside]
lemma addr_of_put_addr (inside : i + 4 ≤ packet.length) (ip : Ipv4Addr) : addr_of (put_addr packet i ip) i = ip := by
  have a : byte_of (put_addr packet i ip) i = ip.a := by
    rw [put_addr,byte_of_set_ne (by omega),byte_of_set_ne (by omega),byte_of_set_ne (by omega),byte_of_set_self (by omega)]
  have b : byte_of (put_addr packet i ip) (i + 1) = ip.b := by
    rw [put_addr,byte_of_set_ne (by omega),byte_of_set_ne (by omega),byte_of_set_self (by simp; omega)]
  have c : byte_of (put_addr packet i ip) (i + 2) = ip.c := by
    rw [put_addr,byte_of_set_ne (by omega),byte_of_set_self (by simp; omega)]
  have d : byte_of (put_addr packet i ip) (i + 3) = ip.d := by rw [put_addr,byte_of_set_self (by simp; omega)]
  rw [addr_of,a,b,c,d]
lemma addr_of_congr (same : ∀ j, i ≤ j → j < i + 4 → byte_of packet' j = byte_of packet j) : addr_of packet' i = addr_of packet i := by
  rw [addr_of,addr_of,same i (by omega) (by omega),same (i + 1) (by omega) (by omega),same (i + 2) (by omega) (by omega),
    same (i + 3) (by omega) (by omega)]
lemma addr_of_rewrite_ip (place : off = 12 ∨ off = 16) (long : 20 ≤ packet.length) (new : Ipv4Addr) :
    addr_of (rewrite_ip off packet new) off = new := by
  have stored := @addr_of_put_addr packet off (by omega) new
  have header (c : Nat) : addr_of (put_word (put_addr packet off new) 10 c) off = new :=
    (addr_of_congr (fun j low high => byte_of_put_word (by omega))).trans stored
  rw [rewrite_ip]
  split
  · exact header _
  · next l4 found =>
    refine (addr_of_congr (fun j low high => byte_of_update_early ?_)).trans (header _)
    unfold l4_rewrite_offset at found
    split at found
    · cases found
    · have := (offset_bounds found).1
      omega
lemma word_of_rewrite_port {port : Nat} (place : off = 0 ∨ off = 2) (small : port < 65536)
    (found : l4_rewrite_offset packet = some l4) (long : l4 + 4 ≤ packet.length) :
    word_of (rewrite_port off packet port) (l4 + off) = port := by
  have stored : word_of (put_word packet (l4 + off) port) (l4 + off) = port := word_of_put_word (by omega) small
  rw [rewrite_port,found]
  dsimp only
  rw [if_neg (by omega),word_of,byte_of_update_early (by omega),byte_of_update_early (by omega)]
  exact stored

/-! ## Both fields of an endpoint -/
/-- The packet is valid still and differs in the address at `addr`, the port at `port` and the checksums only. -/
structure Translated (packet packet' : List Byte) (l4 len addr port : Nat) : Prop where
  valid : Valid packet' l4 len
  keeps : Keeps packet packet' l4 (fun i => (addr ≤ i ∧ i < addr + 4) ∨ (l4 + port ≤ i ∧ i < l4 + port + 2))
lemma translated {addr port new_port : Nat} (valid : Valid packet l4 len)
    (place : addr = 12 ∧ port = 0 ∨ addr = 16 ∧ port = 2) (new : Ipv4Addr) (small : new_port < 65536) :
    Translated packet (rewrite_port port (rewrite_ip addr packet new) new_port) l4 len addr port ∧
      addr_of (rewrite_port port (rewrite_ip addr packet new) new_port) addr = new ∧
      word_of (rewrite_port port (rewrite_ip addr packet new) new_port) (l4 + port) = new_port := by
  obtain ⟨low,_,_,fits,_,reach,which⟩ := valid.bounds
  obtain ⟨valid₁,keeps₁⟩ := @rewrite_ip_spec packet l4 len valid addr (by omega) new
  obtain ⟨valid₂,keeps₂⟩ := @rewrite_port_spec _ l4 len valid₁ port (by omega) new_port small
  have nine : byte_of (rewrite_ip addr packet new) 9 = byte_of packet 9 := keeps₁.bytes 9 (by omega) (by omega) (by omega)
  have bytes₂ := keeps₂.bytes
  have zero₂ := keeps₂.zero
  rw [nine] at bytes₂ zero₂
  have length₁ := keeps₁.length
  refine ⟨⟨valid₂,keeps₂.length.trans length₁,?_,?_⟩,?_,?_⟩
  · intro i outside other away
    rw [bytes₂ i outside (fun inside => other (.inr inside)) away]
    exact keeps₁.bytes i outside (fun inside => other (.inl inside)) away
  · exact fun udp => (zero₂ udp).trans (keeps₁.zero udp)
  · rw [addr_of_congr (fun j below above => bytes₂ j (by omega) (by omega) (by omega))]
    exact addr_of_rewrite_ip (by omega) (by omega) new
  · exact word_of_rewrite_port (by omega) small valid₁.rewrite_offset (by omega)
lemma Valid.parse (valid : Valid packet l4 len) :
    parse_tuple_ipv4 packet = some ⟨addr_of packet 12,addr_of packet 16,word_of packet l4,word_of packet (l4 + 2), byte_of packet 9⟩ := by
  have bounds := valid.bounds
  have whole := valid.whole
  have first : ipv4_is_later_fragment packet = false := by
    simp only [ipv4_is_later_fragment,decide_eq_false_iff_not]
    omega
  rw [parse_tuple_ipv4,valid.offset]
  dsimp only
  rw [first,if_neg (by omega),if_neg (by decide)]
  rcases valid.kind with tcp | udp
  · simp only [IPV4_OFF_PROTO,tcp]
    rfl
  · simp only [IPV4_OFF_PROTO,udp]
    rfl
end Valid
end Narf.Net.Netfilter
