import Narf.Net.RecvBuf

/-! The receiver's selective acknowledgements: up to four blocks, the latest first, kept beside
the reassembly queue from the headers of the segments that arrive. -/

namespace Narf.Net
def MAX_SACK_BLOCKS : Nat := 4
/-- The sequence numbers from `left` up to, not including, `right`. -/
structure SackBlock where
  left : SeqNum
  right : SeqNum
  deriving DecidableEq
def SackBlock.contains (b : SackBlock) (seq : SeqNum) : Bool :=
  let in_left := decide (0 ≤ (seq - b.left).toInt)
  let in_right := decide (0 < (b.right - seq).toInt)
  in_left && in_right
def seq_overlaps_or_adjacent (la ra lb rb : SeqNum) : Bool :=
  let ovr := decide ((la - rb).toInt < 0) && decide ((lb - ra).toInt < 0)
  let adj := la == rb || lb == ra
  ovr || adj
def seq_min (a b : SeqNum) : SeqNum := if (a - b).toInt ≤ 0 then a else b
def seq_max (a b : SeqNum) : SeqNum := if 0 ≤ (a - b).toInt then a else b
structure SackBook where
  blocks : List SackBlock
  deriving DecidableEq

namespace SackBook
def new : SackBook := ⟨[]⟩
def sweep (out : SackBlock × List SackBlock) (b : SackBlock) : SackBlock × List SackBlock :=
  if seq_overlaps_or_adjacent b.left b.right out.1.left out.1.right then
    (⟨seq_min b.left out.1.left,seq_max b.right out.1.right⟩,out.2)
  else (out.1,out.2 ++ [b])
def add_range (book : SackBook) (left right : SeqNum) : SackBook :=
  if left = right then book
  else
    let (merged,survivors) := book.blocks.foldl sweep (⟨left,right⟩,[])
    ⟨merged :: survivors.take (MAX_SACK_BLOCKS - 1)⟩
def prune_to (book : SackBook) (rcv_nxt : SeqNum) : SackBook :=
  ⟨book.blocks.filter (fun b => decide (0 < (b.right - rcv_nxt).toInt) && decide (0 ≤ (b.left - rcv_nxt).toInt))⟩
end SackBook
/-- What a connection keeps about arriving data. -/
structure Receiver where
  recv_buf : RecvBuf
  rcv_nxt : SeqNum
  sack_book : SackBook
  deriving DecidableEq
/-- The receiver after the segment, and whether `rcv_nxt` moved. -/
def enqueue_recv (t : Receiver) (seq : SeqNum) (payload : List Byte) : Option (Receiver × Bool) := do
  let before := t.rcv_nxt
  let (recv_buf,new_rcv) ← t.recv_buf.accept seq payload t.rcv_nxt
  let sack_book :=
    if new_rcv ≠ before then t.sack_book.prune_to new_rcv
    else if payload ≠ [] then t.sack_book.add_range seq (seq + BitVec.ofNat 32 payload.length)
    else t.sack_book
  some (⟨recv_buf,new_rcv,sack_book⟩,decide (new_rcv ≠ before))

namespace Receiver
def new (limit : Nat) (rcv_nxt : SeqNum) : Receiver := ⟨RecvBuf.new limit,rcv_nxt,SackBook.new⟩
inductive Event where
  /-- A segment of data arrives. -/
  | segment (seq : SeqNum) (payload : List Byte)
  /-- The user reads into a buffer of `n` bytes. -/
  | read (n : Nat)
/-- `none` is a slice index out of range. -/
def step (t : Receiver) : Event → Option Receiver
  | .segment seq payload => (enqueue_recv t seq payload).map Prod.fst
  | .read n => some { t with recv_buf := (t.recv_buf.read n).2 }
/-- The out-of-order queue has the byte with this sequence number. -/
def holds (t : Receiver) (x : SeqNum) : Bool :=
  t.recv_buf.out_of_order.any (fun seg => decide ((x - seg.seq).toNat < seg.data.length))
/-- What a block says of a sequence number: it is ahead of `rcv_nxt` and its byte is here. -/
def Truthful (t : Receiver) : Prop :=
  ∀ b ∈ t.sack_book.blocks, ∀ x, b.contains x = true → seq_gt x t.rcv_nxt = true ∧ t.holds x = true
/-- A packet's payload is shorter than 2^16 bytes. -/
def Arrives : Event → Prop
  | .segment _ payload => payload.length < 2 ^ 16
  | .read _ => True
/-- The segment is empty, or has the byte waited for and there is room, or lies ahead of it
    and wholly inside the window. -/
def Inside (t : Receiver) : Event → Prop
  | .segment seq payload =>
    payload = [] ∨
    ((t.rcv_nxt - seq).toNat < payload.length ∧ 0 < t.recv_buf.window.toNat) ∨
    (seq ≠ t.rcv_nxt ∧ (seq - t.rcv_nxt).toNat + payload.length ≤ t.recv_buf.window.toNat)
  | .read _ => True
instance (t : Receiver) (event : Event) : Decidable (t.Inside event) := by
  cases event
  · exact inferInstanceAs (Decidable (_ ∨ _))
  · exact inferInstanceAs (Decidable True)
/-- Any number of reads and of segments that keep `Inside`. -/
def Reaches : Receiver → Receiver → Prop :=
  Relation.ReflTransGen (fun t t' => ∃ event, Arrives event ∧ t.Inside event ∧ t.step event = some t')
end Receiver
end Narf.Net
