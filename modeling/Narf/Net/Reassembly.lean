import Narf.Net.SeqSpace

/-! Reassembly gives back the stream. Positions count bytes from the start of the peer's
stream; a sequence number is a position taken modulo 2^32 from the initial one, and
comparisons of sequence numbers are comparisons of positions less than 2^31 apart. -/

namespace Narf.Net
open List Option
open BitVec hiding append_assoc
open Bool hiding false_or
open RecvBuf (selects splice stitch trim)

/-! ### Parts of the stream -/
/-- The `len` bytes of the stream from `pos` on. -/
def part (stream : Nat → Byte) (pos len : Nat) : List Byte := (List.range' pos len).map stream

section Parts
variable (stream : Nat → Byte) (pos len n : Nat)
@[simp] lemma length_part : (part stream pos len).length = len := by simp [part]
lemma part_append : part stream pos len ++ part stream (pos + len) n = part stream pos (len + n) := by
  simp [part,← map_append,List.range'_append_1]
lemma take_part (short : n ≤ len) : (part stream pos len).take n = part stream pos n := by
  obtain ⟨more,rfl⟩ := Nat.exists_eq_add_of_le short
  rw [← part_append]
  exact take_left' (length_part ..)
lemma drop_part : (part stream pos len).drop n = part stream (pos + n) (len - n) := by
  rw [part,← map_drop,drop_range']
  simp [part]
lemma part_eq_nil_iff : part stream pos len = [] ↔ len = 0 := by simp [part]

end Parts

/-! ### Segments that are held -/
/-- The segment is the `n` bytes of the stream from `a` on. -/
structure Covers (stream : Nat → Byte) (isn : SeqNum) (seg : OoSegment) (a n : Nat) : Prop where
  seq : seg.seq = number isn a
  data : seg.data = part stream a n
  nonempty : 0 < n

variable {seg : OoSegment}
lemma Covers.end_seq {stream : Nat → Byte} {isn : SeqNum} {a n : Nat}
    (covers : Covers stream isn seg a n) : seg.end_seq = number isn (a + n) := by
  rw [OoSegment.end_seq,covers.seq,covers.data,length_part,number_add]
/-- A segment of the list when `next` bytes have been received: it waits ahead of them and
    inside the window, or it was overtaken and ends exactly where they do. -/
inductive Held (stream : Nat → Byte) (isn : SeqNum) (edge next : Nat) (seg : OoSegment) : Prop where
  | waits (a n : Nat) (covers : Covers stream isn seg a n) (ahead : next < a) (near : a + n ≤ next + 2 ^ 31)
      (inside : a + n ≤ edge)
  | overtaken (a n : Nat) (covers : Covers stream isn seg a n) (ends : a + n = next) (short : n < 2 ^ 31)

variable {stream : Nat → Byte} {isn : SeqNum} {edge next : Nat}
lemma Held.of_edge_le {edge' : Nat} (held : Held stream isn edge next seg) (later : edge ≤ edge') : Held stream isn edge' next seg := by
  cases held with
  | waits a n covers ahead near inside => exact .waits a n covers ahead near (le_trans inside later)
  | overtaken a n covers ends short => exact .overtaken a n covers ends short
lemma Held.lacks_next (held : Held stream isn edge next seg) : seg.data.length ≤ (number isn next - seg.seq).toNat := by
  cases held with
  | waits a n covers ahead near inside =>
    rw [covers.data,covers.seq,length_part]
    simp only [number,toNat_sub,toNat_add,toNat_ofNat]
    omega
  | overtaken a n covers ends short =>
    rw [covers.data,covers.seq,length_part,toNat_number_sub (by omega) (by omega)]
    omega
/-- The segment has the byte at a position, by its sequence number. -/
def Has (isn : SeqNum) (seg : OoSegment) (pos : Nat) : Prop := (number isn pos - seg.seq).toNat < seg.data.length
/-- The out-of-order list has the byte at a position. -/
def RecvBuf.HasAt (isn : SeqNum) (buf : RecvBuf) (pos : Nat) : Prop := ∃ seg ∈ buf.out_of_order, Has isn seg pos
lemma Covers.has_iff {a n pos : Nat} (covers : Covers stream isn seg a n) (short : n < 2 ^ 32)
    (low : a ≤ pos + 2 ^ 32 - n) (high : pos < a + 2 ^ 32) : Has isn seg pos ↔ a ≤ pos ∧ pos < a + n := by
  rw [Has,covers.seq,covers.data,length_part]
  by_cases after : a ≤ pos
  · rw [toNat_number_sub after (by omega)]
    omega
  · simp only [number,toNat_sub,toNat_add,toNat_ofNat]
    omega
/-- Ahead of the received bytes only a waiting segment has anything. -/
lemma Held.has {pos : Nat} (held : Held stream isn edge next seg) (low : next ≤ pos) (high : pos < next + 2 ^ 31) (has : Has isn seg pos) :
    ∃ a n, Covers stream isn seg a n ∧ next < a ∧ a + n ≤ next + 2 ^ 31 ∧ a + n ≤ edge ∧ a ≤ pos ∧ pos < a + n := by
  cases held with
  | waits a n covers ahead near inside =>
    rw [covers.has_iff (by omega) (by omega) (by omega)] at has
    exact ⟨a,n,covers,ahead,near,inside,has.1,has.2⟩
  | overtaken a n covers ends short =>
    rw [covers.has_iff (by omega) (by omega) (by omega)] at has
    omega

/-! ### Draining -/
section Drain
variable {start : Nat} {seg : OoSegment}

section
variable (held : Held stream isn edge start seg) (grown : start < next) (near : next ≤ start + 2 ^ 31)
include held grown near

/-- A segment no test selects is where the list may keep it. -/
lemma Held.of_unselected (unselected : selects (number isn next) seg = false) : Held stream isn edge next seg := by
  simp only [selects,or_eq_false_iff,beq_eq_false_iff_ne] at unselected
  obtain ⟨⟨differs,notBefore⟩,notAcross⟩ := unselected
  cases held with
  | waits a n covers ahead close inside =>
    rw [covers.seq,Ne,number_inj (by omega) (by omega)] at differs
    rw [covers.end_seq,← not_eq_true,seq_lt_number (by omega) (by omega)] at notBefore
    rw [covers.seq,covers.end_seq,← not_eq_true,and_eq_true,seq_lt_number (by omega) (by omega),
      seq_gt_number (by omega) (by omega)] at notAcross
    by_cases later : next < a
    · exact .waits a n covers later (by omega) inside
    · exact .overtaken a n covers (by omega) (by omega)
  | overtaken a n covers ends short =>
    rw [covers.end_seq,← not_eq_true,seq_lt_number (by omega) (by omega)] at notBefore
    omega
lemma round_spec {taken in_order : List Byte} (inside : next ≤ edge) (selected : selects (number isn next) seg)
    (delivered : taken ++ in_order = part stream 0 next) :
    ∃ spliced middle in_order' next', splice in_order (number isn next) seg = some (spliced,middle) ∧
      stitch spliced middle seg = (in_order',number isn next') ∧ next ≤ next' ∧ next' ≤ start + 2 ^ 31 ∧
      next' ≤ edge ∧ taken ++ in_order' = part stream 0 next' ∧ ∀ pos, next' ≤ pos → pos < start + 2 ^ 31 → ¬ Has isn seg pos := by
  have used {next' : Nat} {a n : Nat} (more : next ≤ next') (covers : Covers stream isn seg a n) (short : n < 2 ^ 31)
      (close : start ≤ a + n) (ends : a + n ≤ next') (pos : Nat) (low : next' ≤ pos) (high : pos < start + 2 ^ 31) :
      ¬ Has isn seg pos := by
    rw [covers.has_iff (by omega) (by omega) (by omega)]
    omega
  cases held with
  | overtaken a n covers ends short =>
    have differs : seg.seq ≠ number isn next := by
      rw [covers.seq,Ne,number_inj (by omega) (by omega)]
      omega
    have before : seq_lt seg.end_seq (number isn next) := by
      rw [covers.end_seq,seq_lt_number (by omega) (by omega)]
      omega
    refine ⟨in_order,number isn next,in_order,next,?_,?_,le_rfl,near,inside,delivered,used le_rfl covers short (by omega) (by omega)⟩
    · rw [splice,if_neg differs,if_pos before]
    · rw [stitch,if_neg differs]
  | waits a n covers ahead close fits =>
    by_cases same : a = next
    · subst same
      refine ⟨in_order,number isn a,in_order ++ part stream a n,a + n,?_,?_,by omega,close,fits,?_,
        used (by omega) covers (by omega) (by omega) le_rfl⟩
      · rw [splice,if_pos covers.seq]
      · rw [stitch,if_pos covers.seq,covers.data,length_part,number_add]
      · rw [← append_assoc,delivered]
        simpa using part_append stream 0 a n
    have differs : seg.seq ≠ number isn next := by
      rw [covers.seq,Ne,number_inj (by omega) (by omega)]
      exact same
    by_cases before : a + n < next
    · have passed : seq_lt seg.end_seq (number isn next) := by
        rw [covers.end_seq,seq_lt_number (by omega) (by omega)]
        exact before
      refine ⟨in_order,number isn next,in_order,next,?_,?_,le_rfl,near,inside,delivered,used le_rfl covers (by omega) (by omega) (by omega)⟩
      · rw [splice,if_neg differs,if_pos passed]
      · rw [stitch,if_neg differs]
    · have notPassed : ¬ seq_lt seg.end_seq (number isn next) := by
        rw [covers.end_seq,seq_lt_number (by omega) (by omega)]
        exact before
      -- only the third test is left, so the segment reaches across `next`
      simp only [selects,or_eq_true,beq_iff_eq,differs,notPassed,false_eq_true,false_or,and_eq_true] at selected
      obtain ⟨begun,across⟩ := selected
      rw [covers.seq,seq_lt_number (by omega) (by omega)] at begun
      have skip : (number isn next - seg.seq).toNat = next - a := by
        rw [covers.seq,toNat_number_sub (by omega) (by omega)]
      have tail : slice_from seg.data (next - a) = some (part stream next (a + n - next)) := by
        have past : a + (next - a) = next := by omega
        have rest : n - (next - a) = a + n - next := by omega
        rw [slice_from,covers.data,length_part,if_pos (by omega),drop_part,past,rest]
      refine ⟨in_order ++ part stream next (a + n - next),number isn (a + n),
        in_order ++ part stream next (a + n - next),a + n,?_,?_,by omega,close,fits,?_,
        used (by omega) covers (by omega) (by omega) le_rfl⟩
      · rw [splice,if_neg differs,if_neg notPassed,skip,tail]
        simp only [bind_eq_bind,bind_some,length_part,number_add]
        congr 3
        omega
      · rw [stitch,if_neg]
        rw [covers.seq,number_inj (by omega) (by omega)]
        omega
      · rw [← append_assoc,delivered]
        have joined := part_append stream 0 next (a + n - next)
        rw [zero_add] at joined
        rw [joined]
        congr 1
        omega
end
/-- Draining goes on until nothing the list holds reaches past the received bytes. Before it
    the list was in order for `start` received bytes, fewer than now. -/
lemma drain_spec {buf : RecvBuf} {taken : List Byte}
    (held : ∀ seg ∈ buf.out_of_order, Held stream isn edge start seg) (grown : start < next)
    (near : next ≤ start + 2 ^ 31) (inside : next ≤ edge) (delivered : taken ++ buf.in_order = part stream 0 next) :
    ∃ buf' next', buf.drain_ooo_into_in_order (number isn next) = some (buf',number isn next') ∧
      buf'.limit = buf.limit ∧ next ≤ next' ∧ next' ≤ edge ∧ taken ++ buf'.in_order = part stream 0 next' ∧
      (∀ seg ∈ buf'.out_of_order, Held stream isn edge next' seg) ∧
      ∀ pos, next' ≤ pos → pos < start + 2 ^ 31 → buf.HasAt isn pos → buf'.HasAt isn pos := by
  -- induction on the length of the list, which every round shortens
  induction size : buf.out_of_order.length using Nat.strong_induction_on generalizing buf next with
  | _ count ih =>
    rw [RecvBuf.drain_ooo_into_in_order]
    split
    · next nothing =>
      refine ⟨buf,next,rfl,rfl,le_rfl,inside,delivered,fun seg mem => ?_,fun _ _ _ has => has⟩
      exact (held seg mem).of_unselected grown near (RecvBuf.extract_first_none nothing seg mem)
    · next seg rest found =>
      obtain ⟨selected,perm⟩ := RecvBuf.extract_first_spec found
      obtain ⟨spliced,middle,in_order',next',splices,stitches,more,close,fits,delivered',used⟩ :=
        round_spec (held seg (perm.mem_iff.mpr mem_cons_self)) grown near inside selected delivered
      rw [splices]
      simp only [stitches]
      have shorter : rest.length < count := by
        have lengths := perm.length_eq
        simp only [length_cons] at lengths
        omega
      obtain ⟨buf',final,drained,limit,later,bounded,whole,held',keeps⟩ := @ih rest.length shorter next'
        { buf with in_order := in_order', out_of_order := rest }
        (fun other mem => held other (perm.mem_iff.mpr (mem_cons_of_mem _ mem))) (by omega) close fits
        delivered' rfl
      refine ⟨buf',final,drained,limit,le_trans more later,bounded,whole,held',?_⟩
      rintro pos low high ⟨other,mem,has⟩
      rcases mem_cons.mp (perm.mem_iff.mp mem) with rfl | remains
      · exact absurd has (used pos (by omega) high)
      · exact keeps pos low high ⟨other,remains,has⟩
end Drain

/-! ### Inserting -/
/-- The run under construction is a part of the stream ahead of `next`. -/
structure Runs (stream : Nat → Byte) (isn : SeqNum) (edge next : Nat) (m : Merging) (b k : Nat) : Prop where
  seq : m.seq = number isn b
  stop : m.stop = number isn (b + k)
  data : m.data = part stream b k
  nonempty : 0 < k
  ahead : next < b
  near : b + k ≤ next + 2 ^ 31
  inside : b + k ≤ edge

section Insert
variable {m : Merging} {b k a n : Nat} {seg : OoSegment}

section
variable (runs : Runs stream isn edge next m b k) (covers : Covers stream isn seg a n) (ahead : next < a) (near : a + n ≤ next + 2 ^ 31)
include runs covers ahead near
lemma touches_iff : segment_overlap_or_adjacent m.seq m.stop seg.seq seg.end_seq ↔ b ≤ a + n ∧ a ≤ b + k := by
  have before := runs.ahead
  have close := runs.near
  rw [segment_overlap_or_adjacent,runs.seq,runs.stop,covers.seq,covers.end_seq]
  simp only [or_eq_true,and_eq_true,beq_iff_eq]
  rw [seq_lt_number (by omega) (by omega),seq_lt_number (by omega) (by omega),number_inj (by omega) (by omega),
    number_inj (by omega) (by omega)]
  omega
lemma prepend_spec (touch : b ≤ a + n) : ∃ m', m.prepend seg = some m' ∧ m'.survivors = m.survivors ∧
      Runs stream isn edge next m' (min a b) (b + k - min a b) := by
  have before := runs.ahead
  have close := runs.near
  have inside := runs.inside
  unfold Merging.prepend
  by_cases earlier : a < b
  · have test : seq_lt seg.seq m.seq := by
      rw [covers.seq,runs.seq,seq_lt_number (by omega) (by omega)]
      exact earlier
    have length : min (m.seq - seg.seq).toNat seg.data.length = b - a := by
      rw [runs.seq,covers.seq,toNat_number_sub (by omega) (by omega),covers.data,length_part]
      omega
    have front : slice_to seg.data (b - a) = some (part stream a (b - a)) := by
      rw [slice_to,covers.data,length_part,if_pos (by omega),take_part _ _ _ _ (by omega)]
    have least : min a b = a := by omega
    have joined : part stream a (b - a) ++ part stream b k = part stream a (b + k - a) := by
      have parts := part_append stream a (b - a) k
      have middle : a + (b - a) = b := by omega
      have total : b - a + k = b + k - a := by omega
      rwa [middle,total] at parts
    rw [if_pos test]
    simp only [length,front,least]
    refine ⟨_,rfl,rfl,covers.seq,?_,?_,by omega,ahead,by omega,by omega⟩
    · have total : a + (b + k - a) = b + k := by omega
      rw [total]
      exact runs.stop
    · simpa [runs.data] using joined
  · have test : ¬ seq_lt seg.seq m.seq := by
      rw [covers.seq,runs.seq,seq_lt_number (by omega) (by omega)]
      exact earlier
    have least : min a b = b := by omega
    rw [if_neg test,least,Nat.add_sub_cancel_left]
    exact ⟨m,rfl,rfl,runs⟩
lemma append_spec (inside : a + n ≤ edge) (reach : a ≤ b + k) :
    ∃ m' k', m.append seg = some m' ∧ m'.survivors = m.survivors ∧ Runs stream isn edge next m' b k' ∧ k ≤ k' ∧ a + n ≤ b + k' := by
  have before := runs.ahead
  have close := runs.near
  unfold Merging.append
  by_cases later : b + k < a + n
  · have test : seq_gt seg.end_seq m.stop := by
      rw [covers.end_seq,runs.stop,seq_gt_number (by omega) (by omega)]
      exact later
    have start : (m.stop - seg.seq).toNat = b + k - a := by
      rw [runs.stop,covers.seq,toNat_number_sub (by omega) (by omega)]
    have short : b + k - a < seg.data.length := by
      rw [covers.data,length_part]
      omega
    have tail : slice_from seg.data (b + k - a) = some (part stream (b + k) (a + n - (b + k))) := by
      have past : a + (b + k - a) = b + k := by omega
      have rest : n - (b + k - a) = a + n - (b + k) := by omega
      rw [slice_from,if_pos (le_of_lt short),covers.data,drop_part,past,rest]
    rw [if_pos test]
    simp only [start,if_pos short,tail]
    refine ⟨_,a + n - b,rfl,rfl,⟨runs.seq,?_,?_,by omega,before,by omega,by omega⟩,by omega,by omega⟩
    · have total : b + (a + n - b) = a + n := by omega
      rw [total]
      exact covers.end_seq
    · have parts := part_append stream b k (a + n - (b + k))
      have total : k + (a + n - (b + k)) = a + n - b := by omega
      rw [total] at parts
      simpa [runs.data] using parts
  · have test : ¬ seq_gt seg.end_seq m.stop := by
      rw [covers.end_seq,runs.stop,seq_gt_number (by omega) (by omega)]
      exact later
    rw [if_neg test]
    exact ⟨m,k,rfl,rfl,runs,le_rfl,by omega⟩
end
/-- The positions of the run under construction and of the segments it leaves alone. -/
def Merging.Spans (isn : SeqNum) (m : Merging) (b k pos : Nat) : Prop :=
  (b ≤ pos ∧ pos < b + k) ∨ ∃ other ∈ m.survivors, Has isn other pos
lemma absorb_spec (runs : Runs stream isn edge next m b k) (held : Held stream isn edge next seg)
    (kept : ∀ other ∈ m.survivors, Held stream isn edge next other) :
    ∃ m' b' k', m.absorb seg = some m' ∧ Runs stream isn edge next m' b' k' ∧ (∀ other ∈ m'.survivors, Held stream isn edge next other) ∧
      ∀ pos, next < pos → pos < next + 2 ^ 31 → m.Spans isn b k pos ∨ Has isn seg pos → m'.Spans isn b' k' pos := by
  have first := runs.nonempty
  have before := runs.ahead
  have close := runs.near
  have surviving : ∀ other ∈ m.survivors ++ [seg], Held stream isn edge next other := by
    intro other mem
    rcases mem_append.mp mem with old | new
    · exact kept other old
    · rw [mem_singleton.mp new]
      exact held
  unfold Merging.absorb
  by_cases touch : segment_overlap_or_adjacent m.seq m.stop seg.seq seg.end_seq
  · rw [if_pos touch]
    cases held with
    | waits a n covers ahead near inside =>
      obtain ⟨below,above⟩ := (touches_iff runs covers ahead near).mp touch
      obtain ⟨m₁,prepended,same₁,runs₁⟩ := prepend_spec runs covers ahead near below
      obtain ⟨m₂,k',appended,same₂,runs₂,longer,reaches⟩ := append_spec runs₁ covers ahead near inside (by omega)
      rw [prepended]
      refine ⟨m₂,_,k',appended,runs₂,?_,?_⟩
      · rw [same₂,same₁]
        exact kept
      · intro pos low high spans
        have size : n < 2 ^ 32 := by omega
        rw [covers.has_iff size (by omega) (by omega)] at spans
        rw [Merging.Spans,same₂,same₁]
        rcases spans with (here | elsewhere) | there
        · exact Or.inl (by omega)
        · exact Or.inr elsewhere
        · exact Or.inl (by omega)
    | overtaken a n covers ends short =>
      -- the run starts past `next` and stays within 2^31 of it: too far from here to touch
      have positive := covers.nonempty
      rw [segment_overlap_or_adjacent,runs.seq,runs.stop,covers.seq,covers.end_seq] at touch
      simp only [or_eq_true,and_eq_true,beq_iff_eq] at touch
      rw [seq_lt_number (by omega) (by omega),number_inj (by omega) (by omega),number_inj (by omega) (by omega)] at touch
      omega
  · rw [if_neg touch]
    refine ⟨_,b,k,rfl,⟨runs.seq,runs.stop,runs.data,runs.nonempty,runs.ahead,runs.near,runs.inside⟩,surviving,?_⟩
    rintro pos _ _ ((here | ⟨other,mem,has⟩) | has)
    · exact Or.inl here
    · exact Or.inr ⟨other,mem_append_left _ mem,has⟩
    · exact Or.inr ⟨seg,by simp,has⟩
lemma absorb_all_spec {segs : List OoSegment} (runs : Runs stream isn edge next m b k)
    (held : ∀ seg ∈ segs, Held stream isn edge next seg) (kept : ∀ other ∈ m.survivors, Held stream isn edge next other) :
    ∃ m' b' k', segs.foldlM Merging.absorb m = some m' ∧ Runs stream isn edge next m' b' k' ∧
      (∀ other ∈ m'.survivors, Held stream isn edge next other) ∧
      ∀ pos, next < pos → pos < next + 2 ^ 31 → m.Spans isn b k pos ∨ (∃ seg ∈ segs, Has isn seg pos) → m'.Spans isn b' k' pos := by
  induction segs generalizing m b k with
  | nil =>
    refine ⟨m,b,k,rfl,runs,kept,?_⟩
    rintro pos _ _ (spans | ⟨seg,mem,_⟩)
    · exact spans
    · exact absurd mem not_mem_nil
  | cons first rest ih =>
    obtain ⟨m₁,b₁,k₁,absorbed,runs₁,kept₁,spans₁⟩ := absorb_spec runs (held first mem_cons_self) kept
    obtain ⟨m₂,b₂,k₂,done,runs₂,kept₂,spans₂⟩ := ih runs₁ (fun seg mem => held seg (mem_cons_of_mem _ mem)) kept₁
    refine ⟨m₂,b₂,k₂,?_,runs₂,kept₂,?_⟩
    · rw [foldlM_cons,absorbed]
      exact done
    · rintro pos low high (spans | ⟨seg,mem,has⟩)
      · exact spans₂ pos low high (Or.inl (spans₁ pos low high (Or.inl spans)))
      · rcases mem_cons.mp mem with rfl | later
        · exact spans₂ pos low high (Or.inl (spans₁ pos low high (Or.inr has)))
        · exact spans₂ pos low high (Or.inr ⟨seg,later,has⟩)
lemma insert_spec {buf : RecvBuf} (held : ∀ seg ∈ buf.out_of_order, Held stream isn edge next seg)
    (covers : Covers stream isn seg a n) (ahead : next < a) (near : a + n ≤ next + 2 ^ 31) (inside : a + n ≤ edge) :
    ∃ buf', buf.insert_ooo seg = some buf' ∧ buf'.in_order = buf.in_order ∧ buf'.limit = buf.limit ∧
      (∀ seg ∈ buf'.out_of_order, Held stream isn edge next seg) ∧
      ∀ pos, next < pos → pos < next + 2 ^ 31 → (a ≤ pos ∧ pos < a + n) ∨ buf.HasAt isn pos → buf'.HasAt isn pos := by
  have runs : Runs stream isn edge next ⟨seg.seq,seg.end_seq,seg.data,[]⟩ a n :=
    ⟨covers.seq,covers.end_seq,covers.data,covers.nonempty,ahead,near,inside⟩
  obtain ⟨m,b,k,done,runs',kept,spans⟩ := absorb_all_spec runs held nofun
  have nonempty : ¬ seg.data = [] := by
    rw [covers.data,part_eq_nil_iff]
    exact Nat.ne_of_gt covers.nonempty
  rw [RecvBuf.insert_ooo,if_neg nonempty,done]
  have merged : Covers stream isn ⟨m.seq,m.data⟩ b k := ⟨runs'.seq,runs'.data,runs'.nonempty⟩
  refine ⟨_,rfl,rfl,rfl,fun other mem => ?_,fun pos low high had => ?_⟩
  · rcases mem_append.mp (mem_mergeSort.mp mem) with old | new
    · exact kept other old
    · rw [mem_singleton.mp new]
      exact .waits b k merged runs'.ahead runs'.near runs'.inside
  · have begins := runs'.ahead
    have ends := runs'.near
    have spanned : m.Spans isn b k pos := by
      refine spans pos low high ?_
      rcases had with here | there
      · exact Or.inl (Or.inl here)
      · exact Or.inr there
    rcases spanned with here | ⟨other,mem,has⟩
    · refine ⟨_,mem_mergeSort.mpr (mem_append_right _ mem_cons_self),?_⟩
      exact (merged.has_iff (by omega) (by omega) (by omega)).mpr here
    · exact ⟨other,mem_mergeSort.mpr (mem_append_left _ mem),has⟩
end Insert

/-! ### Accepting and reading -/
/-- A connection: the buffer, the caller's `rcv_nxt` and the bytes read so far. -/
structure Conn where
  buf : RecvBuf
  rcv_nxt : SeqNum
  taken : List Byte
inductive Event where
  /-- The `len` bytes of the stream from `pos` on arrive. -/
  | segment (pos len : Nat)
  /-- The user reads into a buffer of `n` bytes. -/
  | read (n : Nat)

namespace Conn
def start (isn : SeqNum) (limit : Nat) : Conn := ⟨RecvBuf.new limit,isn,[]⟩
/-- `none` is a slice index out of range. -/
def step (stream : Nat → Byte) (isn : SeqNum) (c : Conn) : Event → Option Conn
  | .segment pos len => do
    let (buf,rcv_nxt) ← c.buf.accept (number isn pos) (part stream pos len) c.rcv_nxt
    some { c with buf, rcv_nxt }
  | .read n =>
    let (bytes,buf) := c.buf.read n
    some { c with buf, taken := c.taken ++ bytes }
def received (c : Conn) : Nat := c.taken.length + c.buf.in_order.length
/-- Every byte of an arriving segment is fewer than 2^31 bytes from `rcv_nxt`. -/
def Near (c : Conn) : Event → Prop
  | .segment pos len => c.received < pos + 2 ^ 31 ∧ pos + len ≤ c.received + 2 ^ 31
  | .read _ => True
def Reaches (stream : Nat → Byte) (isn : SeqNum) : Conn → Conn → Prop :=
  Relation.ReflTransGen (fun c c' => ∃ event, c.Near event ∧ c.step stream isn event = some c')
/-- The connection has delivered the first `next` bytes of the stream. -/
structure Intact (stream : Nat → Byte) (isn : SeqNum) (limit next : Nat) (c : Conn) : Prop where
  delivered : c.taken ++ c.buf.in_order = part stream 0 next
  expects : c.rcv_nxt = number isn next
  bounded : c.buf.limit = limit
  fits : c.buf.in_order.length ≤ limit
  held : ∀ seg ∈ c.buf.out_of_order, Held stream isn (c.taken.length + limit) next seg

variable {limit : Nat} {c : Conn}
lemma intact_start (stream : Nat → Byte) (isn : SeqNum) (limit : Nat) : (start isn limit).Intact stream isn limit 0 where
  delivered := rfl
  expects := by simp [start,number]
  bounded := rfl
  fits := Nat.zero_le _
  held _ mem := absurd mem not_mem_nil
/-- What the list has once a segment at `a` of `n` bytes was accepted: what it had from `next'` on,
    and a segment ahead of `next` as far as the window reaches. -/
structure Keeps (isn : SeqNum) (next a n : Nat) (buf buf' : RecvBuf) (next' : Nat) : Prop where
  more : next ≤ next'
  old : ∀ pos, next < pos → next' ≤ pos → pos < next + 2 ^ 31 → buf.HasAt isn pos → buf'.HasAt isn pos
  moves : a = next → 0 < buf.window.toNat → next < next'
  waits : next < a → next' = next ∧ ∀ pos, a ≤ pos → pos < a + n → pos < next + buf.window.toNat → buf'.HasAt isn pos

variable {pos len : Nat}
lemma trim_partly (before : pos < next) (partly : next < pos + len) (near : next < pos + 2 ^ 31) :
    trim (number isn pos) (part stream pos len) (number isn next) = some (some (number isn next,part stream next (pos + len - next))) := by
  have skip : (number isn next - number isn pos).toNat = next - pos := toNat_number_sub (by omega) (by omega)
  have signed : (number isn next - number isn pos).toInt = (next : Int) - pos := toInt_number_sub (by omega) (by omega)
  have past : pos + (next - pos) = next := by omega
  have left : len - (next - pos) = pos + len - next := by omega
  have rest : slice_from (part stream pos len) (next - pos) = some (part stream next (pos + len - next)) := by
    rw [slice_from,length_part,if_pos (by omega),drop_part,past,left]
  have there : number isn pos + (number isn next - number isn pos) = number isn next := by
    rw [add_comm,sub_add_cancel]
  unfold trim
  simp only [signed,skip,length_part]
  rw [if_pos ⟨by omega,by omega⟩,rest,there]
  rfl
/-- Trimming leaves nothing, or a part of the stream at or after `next`. -/
lemma trim_spec (positive : 0 < len) (behind : next < pos + 2 ^ 31) (ahead : pos + len ≤ next + 2 ^ 31) :
    trim (number isn pos) (part stream pos len) (number isn next) = some none ∨
      ∃ a n, trim (number isn pos) (part stream pos len) (number isn next) =
        some (some (number isn a,part stream a n)) ∧ 0 < n ∧ next ≤ a ∧ a + n ≤ next + 2 ^ 31 := by
  by_cases partly : pos < next ∧ next < pos + len
  · exact .inr ⟨next,pos + len - next,trim_partly partly.1 partly.2 behind,by omega,le_rfl,by omega⟩
  unfold trim
  have signed : (number isn next - number isn pos).toInt = (next : Int) - pos := toInt_number_sub (by omega) (by omega)
  simp only [signed,length_part]
  by_cases before : pos < next
  · have skip : (number isn next - number isn pos).toNat = next - pos := toNat_number_sub (by omega) (by omega)
    have size : (BitVec.ofNat 32 len).toInt = len := by
      rw [toInt_eq_toNat_cond,toNat_ofNat]
      split <;> omega
    rw [skip,if_neg (by omega),size,if_pos (by omega)]
    exact .inl rfl
  · rw [if_neg (by omega)]
    split
    · exact .inl rfl
    · exact .inr ⟨pos,len,rfl,positive,by omega,ahead⟩
section
variable (intact : c.Intact stream isn limit next)
include intact
lemma Intact.received_eq : c.received = next := by
  have lengths := congrArg List.length intact.delivered
  rwa [length_append,length_part] at lengths
lemma intact_read (n : Nat) : ∃ c', c.step stream isn (.read n) = some c' ∧ c'.Intact stream isn limit next := by
  refine ⟨_,rfl,?_,intact.expects,intact.bounded,?_,fun seg mem => ?_⟩
  · rw [← intact.delivered]
    simp
  · have fits := intact.fits
    simp only [length_drop]
    omega
  · refine (intact.held seg mem).of_edge_le ?_
    simp
/-- A segment that starts at `a`, at or after `next`. -/
lemma intact_trimmed {a n : Nat} (positive : 0 < n) (ahead : next ≤ a) (near : a + n ≤ next + 2 ^ 31) :
    ∃ buf' next', c.buf.accept_trimmed (number isn a) (part stream a n) (number isn next) = some (buf',number isn next') ∧
      ({ c with buf := buf', rcv_nxt := number isn next' } : Conn).Intact stream isn limit next' ∧
      Keeps isn next a n c.buf buf' next' := by
  have received := intact.received_eq
  have bounded := intact.bounded
  have fits := intact.fits
  unfold Conn.received at received
  have offset : (number isn a - number isn next).toNat = a - next := toNat_number_sub ahead (by omega)
  have window : c.buf.window.toNat ≤ limit - c.buf.in_order.length := by
    rw [RecvBuf.window,toNat_ofNat,bounded]
    exact Nat.mod_le _ _
  have unchanged : ({ c with buf := c.buf, rcv_nxt := number isn next } : Conn).Intact stream isn limit next :=
    ⟨intact.delivered,rfl,intact.bounded,intact.fits,intact.held⟩
  unfold RecvBuf.accept_trimmed
  simp only [offset,length_part]
  split
  · refine ⟨c.buf,next,rfl,unchanged,le_rfl,fun _ _ _ _ has => has,by omega,fun _ => ⟨rfl,?_⟩⟩
    intro pos low _ short
    omega
  next room =>
  have taken : slice_to (part stream a n) (min n (c.buf.window.toNat - (a - next))) =
      some (part stream a (min n (c.buf.window.toNat - (a - next)))) := by
    rw [slice_to,length_part,if_pos (min_le_left _ _),take_part _ _ _ _ (min_le_left _ _)]
  rw [taken]
  simp only [bind_eq_bind,bind_some,length_part]
  generalize size : min n (c.buf.window.toNat - (a - next)) = k
  have positive' : 0 < k := by omega
  by_cases same : a = next
  · subst same
    rw [if_pos rfl,number_add]
    have delivered : c.taken ++ (c.buf.in_order ++ part stream a k) = part stream 0 (a + k) := by
      rw [← append_assoc,intact.delivered]
      simpa using part_append stream 0 a k
    obtain ⟨buf',next',drained,limit_eq,more,inside,delivered',held,keeps⟩ :=
      @drain_spec stream isn (c.taken.length + limit) (a + k) a
        { c.buf with in_order := c.buf.in_order ++ part stream a k } c.taken intact.held (by omega) (by omega) (by omega)
        delivered
    refine ⟨buf',next',drained,⟨delivered',rfl,limit_eq.trans bounded,?_,held⟩,by omega,
      fun pos _ low high has => keeps pos low high has,fun _ _ => by omega,fun later => absurd later (lt_irrefl _)⟩
    have lengths := congrArg List.length delivered'
    rw [length_append,length_part] at lengths
    change buf'.in_order.length ≤ limit
    omega
  · have differs : ¬ number isn a = number isn next := by
      rw [number_inj (by omega) (by omega)]
      exact same
    rw [if_neg differs]
    have covers : Covers stream isn ⟨number isn a,part stream a k⟩ a k := ⟨rfl,rfl,positive'⟩
    obtain ⟨buf',inserted,queue,limit_eq,held,keeps⟩ := insert_spec intact.held covers (by omega) (by omega) (by omega)
    rw [inserted]
    refine ⟨buf',next,rfl,⟨?_,rfl,limit_eq.trans bounded,?_,held⟩,le_rfl,
      fun pos low _ high has => keeps pos low high (.inr has),fun equal => absurd equal same,fun _ => ⟨rfl,?_⟩⟩
    · exact (congrArg (c.taken ++ ·) queue).trans intact.delivered
    · change buf'.in_order.length ≤ limit
      rw [queue]
      exact fits
    · intro pos low high short
      exact keeps pos (by omega) (by omega) (.inl ⟨low,by omega⟩)
lemma intact_segment (near : c.Near (.segment pos len)) :
    ∃ c' next', c.step stream isn (.segment pos len) = some c' ∧ c'.Intact stream isn limit next' := by
  obtain ⟨behind,ahead⟩ := near
  rw [intact.received_eq] at behind ahead
  have same : ({ c with rcv_nxt := number isn next } : Conn).Intact stream isn limit next :=
    ⟨intact.delivered,rfl,intact.bounded,intact.fits,intact.held⟩
  simp only [step,intact.expects]
  by_cases empty : len = 0
  · subst empty
    exact ⟨_,next,rfl,same⟩
  have nonempty : ¬ part stream pos len = [] := by rwa [part_eq_nil_iff]
  rw [RecvBuf.accept,if_neg nonempty]
  rcases @trim_spec stream isn next pos len (by omega) behind ahead with old | ⟨a,n,fresh,positive,after,close⟩
  · rw [old]
    exact ⟨_,next,rfl,same⟩
  · obtain ⟨buf',next',done,intact',_⟩ := intact_trimmed intact positive after close
    rw [fresh]
    simp only [done]
    exact ⟨_,next',rfl,intact'⟩
lemma intact_step {event : Event} (near : c.Near event) :
    ∃ c' next', c.step stream isn event = some c' ∧ c'.Intact stream isn limit next' := by
  cases event with
  | segment pos len => exact intact_segment intact near
  | read n =>
    obtain ⟨c',done,intact'⟩ := intact_read intact n
    exact ⟨c',next,done,intact'⟩
end
lemma intact_reaches {c' : Conn} (run : Reaches stream isn c c') (intact : c.Intact stream isn limit next) :
    ∃ next', c'.Intact stream isn limit next' := by
  induction run with
  | refl => exact ⟨next,intact⟩
  | tail _ last before =>
    obtain ⟨next₁,intact₁⟩ := before
    obtain ⟨event,near,stepped⟩ := last
    obtain ⟨c₂,next₂,done,intact₂⟩ := intact_step intact₁ near
    rw [stepped] at done
    cases done
    exact ⟨next₂,intact₂⟩
/-- Whatever arrives in whatever order, what is read and queued is the start of the stream,
    and no byte the list holds is the one waited for. No slice is out of range. -/
theorem stream_integrity (stream : Nat → Byte) (isn : SeqNum) (limit : Nat) (c : Conn) (run : Reaches stream isn (start isn limit) c) :
    (∃ next, c.taken ++ c.buf.in_order = part stream 0 next ∧ c.rcv_nxt = isn + BitVec.ofNat 32 next) ∧ c.buf.in_order.length ≤ limit ∧
      (∀ seg ∈ c.buf.out_of_order, seg.data.length ≤ (c.rcv_nxt - seg.seq).toNat) ∧
      ∀ event, c.Near event → (c.step stream isn event).isSome = true := by
  obtain ⟨next,intact⟩ := intact_reaches run (intact_start stream isn limit)
  refine ⟨⟨next,intact.delivered,intact.expects⟩,intact.fits,fun seg member => ?_,fun event near => ?_⟩
  · rw [intact.expects]
    exact (intact.held seg member).lacks_next
  · obtain ⟨c',next',done,_⟩ := intact_step intact near
    rw [done]
    rfl
/-- Two segments out of order whose sequence numbers wrap. -/
theorem stream_integrity_wrapping :
    ∃ c c' next, (start (BitVec.allOnes 32) 8).step (BitVec.ofNat 8) (BitVec.allOnes 32) (.segment 3 2) = some c ∧
      c.step (BitVec.ofNat 8) (BitVec.allOnes 32) (.segment 0 3) = some c' ∧
      c'.taken ++ c'.buf.in_order = part (BitVec.ofNat 8) 0 next ∧ c'.rcv_nxt = BitVec.allOnes 32 + BitVec.ofNat 32 next := by
  have near : (start (allOnes 32) 8).Near (.segment 3 2) := ⟨by decide,by decide⟩
  have waits : ((start (BitVec.allOnes 32) 8).step (BitVec.ofNat 8) (BitVec.allOnes 32) (.segment 3 2)).map received = some 0 := by
    decide +kernel
  obtain ⟨c,stepped,early⟩ := map_eq_some_iff.mp waits
  have near' : c.Near (.segment 0 3) := by rw [Near,early]; decide
  obtain ⟨_,_,_,goes_on⟩ := stream_integrity _ _ 8 c (.single ⟨_,near,stepped⟩)
  obtain ⟨c',stepped'⟩ := isSome_iff_exists.mp (goes_on _ near')
  obtain ⟨next,all⟩ := (stream_integrity _ _ 8 c' (.tail (.single ⟨_,near,stepped⟩) ⟨_,near',stepped'⟩)).1
  exact ⟨c,c',next,stepped,stepped',all⟩
end Conn
end Narf.Net
