import Narf.Net.ChecksumSound
import Narf.Net.Gro

namespace Narf.Net.Gro
open Lib.OnesComplement List

/-! What a merged frame is: one segment with right checksums and length that has the first segment's
    header and all the payloads, one after the other. -/

/-! ## Eligible frames -/
def header_len (frame : List Byte) : Nat := (byte_of frame 46).toNat / 16 * 4
def payload_of (frame : List Byte) : List Byte := frame.drop (34 + header_len frame)
def key_of (frame : List Byte) : FlowKey := ⟨bytes_of frame 26 4,bytes_of frame 30 4,word_of frame 34,word_of frame 36⟩
/-- IPv4 without options or fragmentation, the total length that of the frame, both checksums right. -/
structure Eligible (frame : List Byte) : Prop where
  version : byte_of frame 14 = 0x45
  proto : byte_of frame 23 = 6
  whole : word_of frame 20 % 0x4000 = 0
  total : 14 + word_of frame 16 = frame.length
  header : ip_checksum (bytes_of frame 14 20) = 0
  data_off : 20 ≤ header_len frame ∧ header_len frame ≤ 60
  long : 34 + header_len frame ≤ frame.length
  tcp : ipv4_pseudo_checksum (bytes_of frame 26 4) (bytes_of frame 30 4) (frame.drop 34) = 0

def parsed_of (frame : List Byte) : Parsed :=
  ⟨key_of frame,34,header_len frame,seq_of frame 38,byte_of frame 47,(payload_of frame).length,word_of frame 18⟩

section Parse
variable {frame : List Byte} {p : Parsed}
lemma parse_eligible (parsed : parse_ipv4_tcp frame = some p) : Eligible frame ∧ p = parsed_of frame := by
  simp only [parse_ipv4_tcp,ETH_HDR_LEN,IPV4_HDR_LEN,Nat.reduceAdd,Option.ite_none_left_eq_some] at parsed
  obtain ⟨-,kind,whole,total,header,-,off,tcp,parsed⟩ := parsed
  simp only [not_or,Decidable.not_not] at kind whole total header off tcp
  refine ⟨⟨kind.1,kind.2,whole,total,header,off.1,by have := off.2; unfold header_len; omega,tcp⟩,?_⟩
  cases parsed
  simp only [parsed_of,key_of,header_len,payload_of,length_drop,Parsed.mk.injEq,true_and,and_true]
  omega
lemma Eligible.flow (eligible : Eligible frame) : flow_key_of frame = some (key_of frame) := by
  have off := eligible.data_off
  have long := eligible.long
  simp only [flow_key_of,ETH_HDR_LEN,IPV4_HDR_LEN,Nat.reduceAdd,eligible.version,eligible.proto]
  rw [if_neg (by simp; omega)]
  have tcp : 14 + BitVec.toNat (69 : Byte) % 16 * 4 = 34 := rfl
  rw [tcp,if_neg (by omega)]
  rfl
end Parse

/-! ## What merged segments have in common -/
/-- The flow, and the header fields that all segments of a merged frame share. -/
structure Signature where
  key : FlowKey
  header_len : Nat
  ack : List Byte
  window : List Byte
  options : List Byte
  flags : Byte
  ttl : Byte
  tos : Byte
  dont_fragment : Nat
/-- The flags are those other than PSH. -/
def signature (frame : List Byte) : Signature where
  key := key_of frame
  header_len := header_len frame
  ack := bytes_of frame 42 4
  window := bytes_of frame 48 2
  options := bytes_of frame 54 (header_len frame - 20)
  flags := byte_of frame 47 &&& ~~~FLAG_PSH
  ttl := byte_of frame 22
  tos := byte_of frame 15
  dont_fragment := df frame
def Continues (f g : List Byte) : Prop :=
  signature g = signature f ∧ seq_of g 38 = seq_of f 38 + BitVec.ofNat 32 (payload_of f).length
structure Merged (parts : List (List Byte)) (out : List Byte) : Prop where
  several : 2 ≤ parts.length
  eligible : ∀ f ∈ parts, Eligible f
  chain : parts.IsChain Continues
  whole : Eligible out
  first : ∀ f ∈ parts.head?, signature out = signature f ∧ seq_of out 38 = seq_of f 38
  payload : payload_of out = parts.flatMap payload_of

section Bytes
variable {a b : List Byte}
lemma bytes_of_congr {start len : Nat} (left : start + len ≤ a.length) (right : start + len ≤ b.length)
    (same : ∀ i, start ≤ i → i < start + len → byte_of a i = byte_of b i) : bytes_of a start len = bytes_of b start len := by
  apply ext_getElem?
  intro i
  by_cases small : i < len
  · have here := same (start + i) (by omega) (by omega)
    simp only [byte_of,getD_eq_getElem?_getD] at here
    simp only [bytes_of]
    rw [getElem?_take_of_lt small,getElem?_take_of_lt small,getElem?_drop,getElem?_drop]
    rw [getElem?_eq_getElem (by omega),getElem?_eq_getElem (by omega)] at here ⊢
    simpa using here
  · rw [getElem?_eq_none (by simp [bytes_of]; omega),getElem?_eq_none (by simp [bytes_of]; omega)]
lemma word_of_congr {i : Nat} (first : byte_of a i = byte_of b i) (second : byte_of a (i + 1) = byte_of b (i + 1)) :
    word_of a i = word_of b i := by
  rw [word_of,word_of,first,second]
/-- The header bytes that merging leaves alone: neither the total length, nor a checksum, nor the flags. -/
abbrev Fixed (i : Nat) : Prop := (i < 16 ∨ 17 < i) ∧ (i < 24 ∨ 25 < i) ∧ i ≠ 47 ∧ (i < 50 ∨ 51 < i)
/-- The signature and the sequence number depend on the fixed bytes of the header, and on the flags up to PSH. -/
lemma signature_congr (left : 34 + header_len b ≤ a.length) (right : 34 + header_len b ≤ b.length) (long : 20 ≤ header_len b)
    (same : ∀ i < 34 + header_len b, Fixed i → byte_of a i = byte_of b i)
    (flags : byte_of a 47 &&& ~~~FLAG_PSH = byte_of b 47 &&& ~~~FLAG_PSH) :
    signature a = signature b ∧ seq_of a 38 = seq_of b 38 ∧ header_len a = header_len b := by
  have at_ (i : Nat) (low : i < 54) (fixed : Fixed i) : byte_of a i = byte_of b i := same i (by omega) fixed
  have word (i : Nat) (low : i + 1 < 54) (fixed : Fixed i) (fixed' : Fixed (i + 1)) : word_of a i = word_of b i :=
    word_of_congr (at_ i (by omega) fixed) (at_ (i + 1) low fixed')
  have part (start len : Nat) (low : start + len ≤ 34 + header_len b)
      (fixed : ∀ i, start ≤ i → i < start + len → Fixed i) : bytes_of a start len = bytes_of b start len :=
    bytes_of_congr (by omega) (by omega) (fun i below above => same i (by omega) (fixed i below above))
  have lens : header_len a = header_len b := by rw [header_len,header_len,at_ 46 (by omega) (by omega)]
  have keys : key_of a = key_of b := by
    rw [key_of,key_of,part 26 4 (by omega) (by omega),part 30 4 (by omega) (by omega),word 34 (by omega) (by omega) (by omega),
      word 36 (by omega) (by omega) (by omega)]
  refine ⟨?_,?_,lens⟩
  · simp only [signature,lens,keys,flags,Signature.mk.injEq,true_and]
    refine ⟨part 42 4 (by omega) (by omega),part 48 2 (by omega) (by omega),part 54 _ (by omega) (by omega),
      at_ 22 (by omega) (by omega),at_ 15 (by omega) (by omega),?_⟩
    rw [df,df,word _ (by decide) (by decide) (by decide)]
  · rw [seq_of,seq_of,word 38 (by omega) (by omega) (by omega),word 40 (by omega) (by omega) (by omega)]
end Bytes

/-! ## Storing checksums -/
section Store
variable {frame : List Byte}
lemma range_sum_eq (start len : Nat) : word_sum (bytes_of frame start len) = range_sum frame start len := rfl
lemma set_ipv4_checksum_spec (long : 34 ≤ frame.length) : ip_checksum (bytes_of (set_ipv4_checksum frame 14) 14 20) = 0 := by
  unfold set_ipv4_checksum
  generalize cleared : put_word frame (14 + 10) 0 = g
  have length : g.length = frame.length := by rw [← cleared,length_put_word]
  have short : (bytes_of g 14 20).length < 2 ^ 32 := by
    rw [bytes_of,length_take]
    omega
  obtain ⟨alike,small⟩ := ones_complement_sum_spec short
  have zero : word_of g (14 + 10) = 0 := by
    rw [← cleared]
    exact word_of_put_word (by omega) (by omega)
  have stored := @range_sum_inside g 14 20 (14 + 10) (ip_checksum (bytes_of g 14 20)) (by omega) (by omega) (by omega) (by omega)
    (by rw [ip_checksum,complement]; omega)
  have verifies := alike.verifies_complement small
  rw [ip_checksum_eq_zero (by rw [bytes_of,length_take]; omega),range_sum_eq]
  rw [zero,add_zero] at stored
  rw [IPV4_HDR_LEN,stored]
  exact verifies
lemma set_tcp_checksum_spec (long : 54 ≤ frame.length) (short : frame.length < 2 ^ 32) (src dst : List Byte) :
    ipv4_pseudo_checksum src dst ((put_word (put_word frame 50 0) 50
      (ipv4_pseudo_checksum src dst ((put_word frame 50 0).drop 34))).drop 34) = 0 := by
  generalize cleared : put_word frame 50 0 = g
  have length : g.length = frame.length := by rw [← cleared,length_put_word]
  have zero : word_of g 50 = 0 := by
    rw [← cleared]
    exact word_of_put_word (by omega) (by omega)
  -- the segment is the rest of the frame
  have rest (f : List Byte) : f.drop 34 = (f.drop 34).take (f.length - 34) := by
    rw [take_of_length_le (by rw [length_drop])]
  have size : (g.drop 34).length < 2 ^ 32 := by
    rw [length_drop]
    omega
  obtain ⟨alike,small⟩ := ones_complement_sum_spec size
  obtain ⟨header,fits⟩ := fold_pseudo_spec (pseudo_sum src dst 6 (g.drop 34).length)
  obtain ⟨sum,bounded⟩ := ones_complement_add_spec fits small
  have verifies := (sum.trans (header.add alike)).verifies_complement bounded
  have stored := @range_sum_inside g 34 (g.length - 34) 50 (ipv4_pseudo_checksum src dst (g.drop 34)) (by omega) (by omega)
    (by omega) (by omega) (by rw [ipv4_pseudo_checksum,ipv4_pseudo_checksum_proto,complement]; omega)
  rw [range_sum,range_sum,zero,add_zero,← rest] at stored
  rw [ipv4_pseudo_checksum,pseudo_checksum_eq_zero (by rw [length_drop,length_put_word]; omega),length_drop,
    length_put_word,rest (put_word g 50 _),length_put_word,stored]
  have same : pseudo_sum src dst 6 (g.length - 34) + (word_sum (g.drop 34) + ipv4_pseudo_checksum src dst (g.drop 34)) =
      pseudo_sum src dst 6 (g.drop 34).length + word_sum (g.drop 34) + (65535 -
        ones_complement_add (fold_pseudo (pseudo_sum src dst 6 (g.drop 34).length)) (ones_complement_sum (g.drop 34))) := by
    rw [length_drop,← add_assoc]
    congr 1
    rw [ipv4_pseudo_checksum,ipv4_pseudo_checksum_proto,complement,length_drop]
  rw [same]
  exact verifies
end Store

/-! ## A flow in progress -/
/-- The entry holds the segments `f :: rest`. -/
structure Holds (h : Held) (f : List Byte) (rest : List (List Byte)) : Prop where
  eligible : ∀ g ∈ f :: rest, Eligible g ∧ payload_of g ≠ []
  chain : (f :: rest).IsChain Continues
  key : h.key = key_of f
  off : h.tcp_off = 34
  header : h.tcp_header_len = header_len f
  long : 34 + header_len f ≤ h.frame.length
  bytes : ∀ i < 34 + header_len f, i ≠ 47 → byte_of h.frame i = byte_of f i
  flags : byte_of h.frame 47 &&& ~~~FLAG_PSH = byte_of f 47 &&& ~~~FLAG_PSH
  payload : h.frame.drop (34 + header_len f) = (f :: rest).flatMap payload_of
  single : rest = [] → h.frame = f
  segs : h.segs = rest.length + 1
  next : ∀ l ∈ (f :: rest).getLast?, h.next_seq = seq_of l 38 + BitVec.ofNat 32 (payload_of l).length
  small : rest ≠ [] → ((f :: rest).flatMap payload_of).length ≤ MAX_GRO_BYTES

section Flow
variable {h : Held} {f : List Byte} {rest : List (List Byte)}
lemma Holds.length_eq (holds : Holds h f rest) : h.frame.length = 34 + header_len f + ((f :: rest).flatMap payload_of).length := by
  have long := holds.long
  have lengths := congrArg List.length holds.payload
  rw [length_drop] at lengths
  omega
lemma Holds.signature_eq (holds : Holds h f rest) : signature h.frame = signature f := by
  have first := (holds.eligible f mem_cons_self).1
  exact (signature_congr holds.long first.long first.data_off.1 (fun i low fixed => holds.bytes i low fixed.2.2.1) holds.flags).1
lemma Holds.signature_of (holds : Holds h f rest) {l : List Byte} (mem : l ∈ f :: rest) : signature l = signature f := by
  have same : (f :: rest).IsChain (fun a b => signature a = signature b) := holds.chain.imp fun _ _ next => next.1.symm
  have all := ((isChain_map signature).mpr same).pairwise
  rcases mem_cons.mp mem with rfl | later
  · rfl
  · exact (rel_of_pairwise_cons all (mem_map_of_mem later)).symm
lemma finalize_single (holds : Holds h f []) : finalize h = (h.iface,f) := by
  have one : h.segs = 1 := holds.segs
  rw [finalize,if_pos one,holds.single rfl]
lemma finalize_merged (holds : Holds h f rest) (several : rest ≠ []) : Merged (f :: rest) (finalize h).2 := by
  have first := (holds.eligible f mem_cons_self).1
  have off := first.data_off
  have length := holds.length_eq
  have small := holds.small several
  have count : 0 < rest.length := length_pos_iff.mpr several
  have segs : ¬ h.segs = 1 := by
    rw [holds.segs]
    omega
  unfold MAX_GRO_BYTES at small
  have fits : (h.frame.length - 14) % 65536 = h.frame.length - 14 := Nat.mod_eq_of_lt (by omega)
  rw [finalize,if_neg segs,holds.off]
  dsimp only
  simp only [ETH_HDR_LEN,Nat.reduceAdd,fits]
  -- the total length, the header checksum, the TCP checksum
  generalize sized : put_word h.frame 16 (h.frame.length - 14) = f₁
  generalize cleared : put_word f₁ 24 0 = f₂
  generalize summed : set_ipv4_checksum f₂ 14 = f₃
  have length₁ : f₁.length = h.frame.length := by rw [← sized,length_put_word]
  have length₂ : f₂.length = h.frame.length := by rw [← cleared,length_put_word,length₁]
  have length₃ : f₃.length = h.frame.length := by
    rw [← summed,set_ipv4_checksum]
    rw [length_put_word,length_put_word,length₂]
  have bytes₃ (i : Nat) (total : i < 16 ∨ 17 < i) (csum : i < 24 ∨ 25 < i) : byte_of f₃ i = byte_of h.frame i := by
    rw [← summed,set_ipv4_checksum]
    rw [byte_of_put_word (by omega),byte_of_put_word (by omega),← cleared,byte_of_put_word (by omega),← sized,byte_of_put_word (by omega)]
  generalize last : ipv4_pseudo_checksum (bytes_of f₃ 26 4) (bytes_of f₃ 30 4) ((put_word f₃ 50 0).drop 34) = cs
  generalize result : put_word (put_word f₃ 50 0) 50 cs = out
  have length_out : out.length = h.frame.length := by rw [← result,length_put_word,length_put_word,length₃]
  have bytes_out (i : Nat) (tcp : i < 50 ∨ 51 < i) : byte_of out i = byte_of f₃ i := by
    rw [← result,byte_of_put_word (by omega),byte_of_put_word (by omega)]
  have same (i : Nat) (low : i < 34 + header_len f) (fixed : Fixed i) : byte_of out i = byte_of f i := by
    rw [bytes_out i fixed.2.2.2,bytes₃ i fixed.1 fixed.2.1,holds.bytes i low fixed.2.2.1]
  have flags : byte_of out 47 &&& ~~~FLAG_PSH = byte_of f 47 &&& ~~~FLAG_PSH := by
    rw [bytes_out 47 (by omega),bytes₃ 47 (by omega) (by omega)]
    exact holds.flags
  obtain ⟨signed,numbered,lens⟩ := signature_congr (by omega) first.long off.1 same flags
  refine ⟨by rw [length_cons]; omega,fun g mem => (holds.eligible g mem).1,holds.chain,?_,?_,?_⟩
  · refine ⟨?_,?_,?_,?_,?_,?_,?_,?_⟩
    · rw [same 14 (by omega) (by decide)]
      exact first.version
    · rw [same 23 (by omega) (by decide)]
      exact first.proto
    · rw [word_of_congr (same 20 (by omega) (by decide)) (same 21 (by omega) (by decide))]
      exact first.whole
    · have stored : word_of out 16 = h.frame.length - 14 := by
        rw [word_of_congr (bytes_out 16 (by omega)) (bytes_out 17 (by omega)),← summed,set_ipv4_checksum]
        rw [word_of_put_word_ne (by omega),word_of_put_word_ne (by omega),← cleared,word_of_put_word_ne (by omega),← sized,
          word_of_put_word (by omega) (by omega)]
      omega
    · rw [bytes_of_congr (by omega) (by omega) (fun i _ high => bytes_out i (by omega)),← summed]
      exact set_ipv4_checksum_spec (by omega)
    · rw [lens]
      exact off
    · rw [lens,length_out]
      exact holds.long
    · rw [bytes_of_congr (by omega) (by omega) (fun i _ high => bytes_out i (by omega)),
        bytes_of_congr (by omega) (by omega) (fun i _ high => bytes_out i (by omega)),← result,← last]
      exact set_tcp_checksum_spec (by omega) (by omega) _ _
  · intro g head
    cases head
    exact ⟨signed,numbered⟩
  · rw [payload_of,lens,← holds.payload,← result,drop_put_word (by omega),drop_put_word (by omega),← summed,set_ipv4_checksum]
    rw [drop_put_word (by omega),drop_put_word (by omega),← cleared,drop_put_word (by omega),← sized,drop_put_word (by omega)]
variable {frame : List Byte}
lemma Holds.fresh (eligible : Eligible frame) (full : payload_of frame ≠ []) (iface : String) :
    Holds ⟨iface,key_of frame,frame,34,header_len frame,seq_of frame 38 + BitVec.ofNat 32 (payload_of frame).length,1,
      (payload_of frame).length,word_of frame 18,none⟩ frame [] where
  eligible g mem := by
    cases mem_singleton.mp mem
    exact ⟨eligible,full⟩
  chain := .singleton _
  key := rfl
  off := rfl
  header := rfl
  long := eligible.long
  bytes _ _ _ := rfl
  flags := rfl
  payload := by simp [payload_of]
  single _ := rfl
  segs := rfl
  next l last := by
    cases last
    rfl
  small several := absurd rfl several
/-- What `can_merge` has compared. -/
structure Mergeable (h : Held) (frame : List Byte) : Prop where
  seq : seq_of frame 38 = h.next_seq
  header : header_len frame = h.tcp_header_len
  flags : byte_of frame 47 &&& ~~~FLAG_PSH = byte_of h.frame 47 &&& ~~~FLAG_PSH
  ack : bytes_of frame 42 4 = bytes_of h.frame 42 4
  window : bytes_of frame 48 2 = bytes_of h.frame 48 2
  options : bytes_of frame 54 (header_len frame - 20) = bytes_of h.frame 54 (header_len frame - 20)
  ttl : byte_of frame 22 = byte_of h.frame 22
  tos : byte_of frame 15 = byte_of h.frame 15
  dont_fragment : df frame = df h.frame
  size : h.frame.length - 34 - h.tcp_header_len + (payload_of frame).length ≤ MAX_GRO_BYTES

lemma and_not_eq_of_xor {a b m : Byte} (same : (a ^^^ b) &&& ~~~m = 0) : b &&& ~~~m = a &&& ~~~m := by
  ext i bound
  have bit := congrArg (fun x : Byte => x[i]) same
  simp only [BitVec.getElem_and,BitVec.getElem_xor,BitVec.getElem_not,BitVec.ofNat_eq_ofNat,BitVec.getElem_zero] at bit ⊢
  revert bit
  cases a[i] <;> cases b[i] <;> cases m[i] <;> decide
lemma can_merge_spec (off : h.tcp_off = 34) (merges : can_merge h frame (parsed_of frame)) : Mergeable h frame := by
  simp only [can_merge,off,ETH_HDR_LEN,Nat.reduceAdd,Bool.if_false_left,Bool.and_eq_true,Bool.not_eq_eq_eq_not,Bool.not_true,
    decide_eq_false_iff_not,decide_eq_true_eq] at merges
  obtain ⟨tcp,-,ip,-,size⟩ := merges
  simp only [not_or,Decidable.not_not] at tcp ip
  obtain ⟨seq,header,flags,ack,window,options⟩ := tcp
  rw [← header] at options
  exact ⟨seq,header,and_not_eq_of_xor flags,ack.symm,window.symm,options.symm,ip.1.symm,ip.2.1.symm,ip.2.2.symm,size⟩
lemma length_le_payload {parts : List (List Byte)} (full : ∀ g ∈ parts, payload_of g ≠ []) :
    parts.length ≤ (parts.flatMap payload_of).length := by
  induction parts with
  | nil => exact Nat.zero_le _
  | cons g parts ih =>
    have one := length_pos_iff.mpr (full g mem_cons_self)
    have rest := ih fun g' mem => full g' (mem_cons_of_mem g mem)
    rw [flatMap_cons,length_append,length_cons]
    omega
/-- PSH is the only flag a merge may set. -/
lemma or_and_not (a b m : Byte) : (a ||| (b &&& m)) &&& ~~~m = a &&& ~~~m := by
  ext i bound
  simp only [BitVec.getElem_and,BitVec.getElem_or,BitVec.getElem_not]
  cases a[i] <;> cases b[i] <;> cases m[i] <;> rfl
lemma merged_byte {p : Parsed} {i : Nat} (inside : i < h.frame.length) (other : i ≠ h.tcp_off + 13) :
    byte_of (merge h frame p).frame i = byte_of h.frame i := by
  simp only [merge,byte_of]
  rw [getD_append _ _ _ _ (by rw [length_set]; exact inside),getD_eq_getElem?_getD,getElem?_set_ne (Ne.symm other),getD_eq_getElem?_getD]
lemma Holds.merge (holds : Holds h f rest) (eligible : Eligible frame) (full : payload_of frame ≠ [])
    (same : h.key = key_of frame) (merges : can_merge h frame (parsed_of frame)) :
    Holds (merge h frame (parsed_of frame)) f (rest ++ [frame]) := by
  have ok := can_merge_spec holds.off merges
  have first := (holds.eligible f mem_cons_self).1
  have off := first.data_off
  have length := holds.length_eq
  have lens : header_len frame = header_len f := ok.header.trans holds.header
  have long := holds.long
  have signed : signature frame = signature f := by
    rw [← holds.signature_eq]
    have keys : key_of h.frame = key_of frame := by
      rw [← same,holds.key]
      exact congrArg Signature.key holds.signature_eq
    have lens' : header_len h.frame = header_len frame := by
      rw [lens]
      exact congrArg Signature.header_len holds.signature_eq
    simp [signature,keys,lens',ok.flags,ok.ack,ok.window,ok.options,ok.ttl,ok.tos,ok.dont_fragment]
  have total : ((f :: (rest ++ [frame])).flatMap payload_of).length ≤ MAX_GRO_BYTES := by
    have size := ok.size
    rw [holds.header] at size
    rw [← cons_append,flatMap_append,length_append,flatMap_singleton]
    omega
  have members : ∀ g ∈ f :: (rest ++ [frame]), Eligible g ∧ payload_of g ≠ [] := by
    intro g mem
    rw [← cons_append,mem_append,mem_singleton] at mem
    rcases mem with old | rfl
    · exact holds.eligible g old
    · exact ⟨eligible,full⟩
  constructor
  case eligible => exact members
  case chain =>
    rw [← cons_append,isChain_append]
    refine ⟨holds.chain,.singleton _,?_⟩
    intro l last g head
    cases head
    refine ⟨signed.trans (holds.signature_of (mem_of_getLast? last)).symm,?_⟩
    rw [ok.seq,holds.next l last]
  case key => exact holds.key
  case off => exact holds.off
  case header => exact holds.header
  case long =>
    simp only [Gro.merge,length_append,length_set]
    omega
  case bytes =>
    intro i low other
    rw [← holds.bytes i low other]
    exact merged_byte (by omega) (by rw [holds.off]; exact other)
  case flags =>
    rw [← holds.flags,← or_and_not (byte_of h.frame 47) (byte_of frame 47) FLAG_PSH]
    simp only [Gro.merge,holds.off,parsed_of,Nat.reduceAdd]
    congr 1
    rw [byte_of,getD_append _ _ _ _ (by rw [length_set]; omega),getD_eq_getElem?_getD,getElem?_set_self (by omega),Option.getD_some]
  case payload =>
    simp only [Gro.merge,holds.off,parsed_of,Nat.reduceAdd]
    rw [drop_append_of_le_length (by rw [length_set]; omega),drop_set_of_lt (by omega),holds.payload,
      ← cons_append,flatMap_append,flatMap_singleton,payload_of]
  case single => exact fun none => absurd none (by simp)
  case segs =>
    have count := length_le_payload fun g mem => (members g mem).2
    unfold MAX_GRO_BYTES at total
    rw [length_cons,length_append,length_singleton] at count
    simp only [Gro.merge,holds.segs,length_append,length_singleton]
    omega
  case next =>
    intro l last
    rw [← cons_append,List.getLast?_append,List.getLast?_singleton,Option.some_or] at last
    cases last
    simp [Gro.merge,parsed_of,ok.seq]
  case small => exact fun _ => total
end Flow
end Narf.Net.Gro
