import Narf.Net.Bytes

/-! The receive side of a TCP socket: the in-order queue and the out-of-order segments that
wait to be stitched to it. Sequence numbers are 32 bits wide and wrap. A slice out of range
panics in the source; here it is `none`. -/

namespace Narf.Net

abbrev SeqNum := BitVec 32
def seq_lt (a b : SeqNum) : Bool := decide ((a - b).toInt < 0)
def seq_gt (a b : SeqNum) : Bool := decide (0 < (a - b).toInt)
def segment_overlap_or_adjacent (la ra lb rb : SeqNum) : Bool :=
  let overlap := seq_lt la rb && seq_lt lb ra
  let adjacent := la == rb || lb == ra
  overlap || adjacent
/-- `&data[from..]`. -/
def slice_from (data : List Byte) (start : Nat) : Option (List Byte) :=
  if start ≤ data.length then some (data.drop start) else none
/-- `&data[..to]`. -/
def slice_to (data : List Byte) (stop : Nat) : Option (List Byte) :=
  if stop ≤ data.length then some (data.take stop) else none
structure OoSegment where
  seq : SeqNum
  data : List Byte
  deriving DecidableEq
def OoSegment.end_seq (seg : OoSegment) : SeqNum := seg.seq + BitVec.ofNat 32 seg.data.length
structure RecvBuf where
  in_order : List Byte
  out_of_order : List OoSegment
  limit : Nat
  deriving DecidableEq
/-- The run under construction in `insert_ooo`, and the segments it leaves alone so far. -/
structure Merging where
  seq : SeqNum
  stop : SeqNum
  data : List Byte
  survivors : List OoSegment

namespace Merging
def prepend (m : Merging) (existing : OoSegment) : Option Merging :=
  if seq_lt existing.seq m.seq then do
    let prepend_len := min (m.seq - existing.seq).toNat existing.data.length
    let front ← slice_to existing.data prepend_len
    some { m with data := front ++ m.data, seq := existing.seq }
  else some m
def append (m : Merging) (existing : OoSegment) : Option Merging :=
  if seq_gt existing.end_seq m.stop then
    let tail_start := (m.stop - existing.seq).toNat
    if tail_start < existing.data.length then do
      let tail ← slice_from existing.data tail_start
      some { m with data := m.data ++ tail, stop := existing.end_seq }
    else some { m with stop := existing.end_seq }
  else some m
/-- One existing segment: merged when it touches the run, kept otherwise. -/
def absorb (m : Merging) (existing : OoSegment) : Option Merging :=
  if segment_overlap_or_adjacent m.seq m.stop existing.seq existing.end_seq then do
    let m ← m.prepend existing
    m.append existing
  else some { m with survivors := m.survivors ++ [existing] }
end Merging

namespace RecvBuf
def new (limit : Nat) : RecvBuf := ⟨[],[],limit⟩
variable (buf : RecvBuf)
def window : BitVec 32 := BitVec.ofNat 32 (buf.limit - buf.in_order.length)
def read (n : Nat) : List Byte × RecvBuf :=
  let n := min n buf.in_order.length
  (buf.in_order.take n,{ buf with in_order := buf.in_order.drop n })
def insert_ooo (seg : OoSegment) : Option RecvBuf :=
  if seg.data = [] then some buf
  else do
    let m ← buf.out_of_order.foldlM Merging.absorb ⟨seg.seq,seg.end_seq,seg.data,[]⟩
    let survivors := m.survivors ++ [⟨m.seq,m.data⟩]
    some { buf with out_of_order := survivors.mergeSort (fun a b => decide (a.seq.toNat ≤ b.seq.toNat)) }
/-- The inner loop stops at the first segment that one of its three tests selects. -/
def selects (rcv_nxt : SeqNum) (seg : OoSegment) : Bool :=
  seg.seq == rcv_nxt || seq_lt seg.end_seq rcv_nxt || (seq_lt seg.seq rcv_nxt && seq_gt seg.end_seq rcv_nxt)
/-- What the inner loop does before it stops: only the third test moves bytes. -/
def splice (in_order : List Byte) (rcv_nxt : SeqNum) (seg : OoSegment) : Option (List Byte × SeqNum) :=
  if seg.seq = rcv_nxt then some (in_order,rcv_nxt)
  else if seq_lt seg.end_seq rcv_nxt then some (in_order,rcv_nxt)
  else do
    let tail ← slice_from seg.data (rcv_nxt - seg.seq).toNat
    some (in_order ++ tail,rcv_nxt + BitVec.ofNat 32 tail.length)
/-- After the removal: a segment that starts at `rcv_nxt` is appended whole. -/
def stitch (in_order : List Byte) (rcv_nxt : SeqNum) (seg : OoSegment) : List Byte × SeqNum :=
  if seg.seq = rcv_nxt then (in_order ++ seg.data,rcv_nxt + BitVec.ofNat 32 seg.data.length) else (in_order,rcv_nxt)
/-- The first segment `test` selects, and the list without it. -/
def extract_first (test : OoSegment → Bool) : List OoSegment → Option (OoSegment × List OoSegment)
  | [] => none
  | seg :: rest => if test seg then some (seg,rest) else (extract_first test rest).map (fun out => (out.1,seg :: out.2))

variable {test : OoSegment → Bool}
lemma extract_first_spec {segs rest : List OoSegment} {seg : OoSegment}
    (found : extract_first test segs = some (seg,rest)) : test seg ∧ segs.Perm (seg :: rest) := by
  induction segs generalizing rest with
  | nil => cases found
  | cons first others ih =>
    unfold extract_first at found
    split at found
    · next chosen =>
      cases found
      exact ⟨chosen,.refl _⟩
    · obtain ⟨⟨chosen,left⟩,inner,same⟩ := Option.map_eq_some_iff.mp found
      cases same
      obtain ⟨holds,perm⟩ := ih inner
      exact ⟨holds,(perm.cons first).trans (.swap ..)⟩
lemma extract_first_none {segs : List OoSegment} (nothing : extract_first test segs = none) : ∀ seg ∈ segs, test seg = false := by
  induction segs with
  | nil => exact fun _ mem => absurd mem List.not_mem_nil
  | cons first others ih =>
    unfold extract_first at nothing
    split at nothing
    · cases nothing
    · next failed =>
      intro seg mem
      rcases List.mem_cons.mp mem with rfl | later
      · simpa using failed
      · exact ih (Option.map_eq_none_iff.mp nothing) seg later
/-- Every round takes one segment off the list. -/
def drain_ooo_into_in_order (buf : RecvBuf) (rcv_nxt : SeqNum) : Option (RecvBuf × SeqNum) :=
  match _found : extract_first (selects rcv_nxt) buf.out_of_order with
  | none => some (buf,rcv_nxt)
  | some (seg,rest) =>
    match splice buf.in_order rcv_nxt seg with
    | none => none
    | some (in_order,rcv_nxt) =>
      let (in_order,rcv_nxt) := stitch in_order rcv_nxt seg
      drain_ooo_into_in_order { buf with in_order, out_of_order := rest } rcv_nxt
termination_by buf.out_of_order.length
decreasing_by
  have shorter := (extract_first_spec (by assumption)).2.length_eq
  simp only [List.length_cons] at shorter
  omega

/-- The bytes of a segment from `rcv_nxt` on, or `none` when all were delivered before. -/
def trim (seq : SeqNum) (data : List Byte) (rcv_nxt : SeqNum) : Option (Option (SeqNum × List Byte)) :=
  let skip := rcv_nxt - seq
  if 0 < skip.toInt ∧ skip.toNat < data.length then do
    let rest ← slice_from data skip.toNat
    some (some (seq + skip,rest))
  else if (BitVec.ofNat 32 data.length).toInt ≤ skip.toInt then some none
  else some (some (seq,data))
/-- A segment that starts at or after `rcv_nxt`, clamped to the window. -/
def accept_trimmed (seq : SeqNum) (data : List Byte) (rcv_nxt : SeqNum) : Option (RecvBuf × SeqNum) :=
  let offset := (seq - rcv_nxt).toNat
  let window := buf.window.toNat
  if window ≤ offset then some (buf,rcv_nxt)
  else do
    let data ← slice_to data (min data.length (window - offset))
    if seq = rcv_nxt then
      drain_ooo_into_in_order { buf with in_order := buf.in_order ++ data } (rcv_nxt + BitVec.ofNat 32 data.length)
    else
      let buf ← buf.insert_ooo ⟨seq,data⟩
      some (buf,rcv_nxt)
def accept (seq : SeqNum) (data : List Byte) (rcv_nxt : SeqNum) : Option (RecvBuf × SeqNum) :=
  if data = [] then some (buf,rcv_nxt)
  else
    match trim seq data rcv_nxt with
    | none => none
    | some none => some (buf,rcv_nxt)
    | some (some (seq,data)) => buf.accept_trimmed seq data rcv_nxt
end RecvBuf
end Narf.Net
