import Narf.Net.IpFragmentSound

namespace Narf.Net.IpFragment
open Lib List Option
open Table (total_remove total_set get_set get_remove get_set_iff)

/-! Reassembly over whole runs. -/
variable {runs : List Run} {accepted : List Run} {q : Queue} {f : Fragment} {key : FragKey}

/-! ## One queue -/
/-- A header with its own length, as `split` cuts it. -/
def Headed (hdr : List Byte) : Prop := hdr.length = (byte_of hdr 0).toNat % 16 * 4 ∧ IPV4_MIN_HDR ≤ hdr.length
/-- The queue holds exactly the fragments it accepted, which do not overlap. -/
structure Queue.Sound (q : Queue) (accepted : List Run) : Prop where
  ordered : Ordered q.runs
  meat : q.meat = sum_lens q.runs
  fits : ∀ r ∈ q.runs, r.stop ≤ q.len
  holds : ∀ i b, Holds q.runs i b ↔ Holds accepted i b
  some_ : ∀ r ∈ accepted, r.data ≠ []
  apart : accepted.Pairwise Run.Apart
  head : q.first_in = true → Headed q.head_hdr
lemma Queue.sound_new (qsize now_ns : Nat) : (Queue.new qsize now_ns).Sound [] where
  ordered := ⟨nofun,Pairwise.nil⟩
  meat := rfl
  fits := nofun
  holds := fun _ _ => Iff.rfl
  some_ := nofun
  apart := Pairwise.nil
  head := fun first => absurd first Bool.false_ne_true
def Fragment.piece (f : Fragment) : Run := ⟨f.offset,f.data⟩
lemma length_data (hdr payload : List Byte) : (Fragment.parse hdr payload).offset + (Fragment.parse hdr payload).data.length =
    (Fragment.parse hdr payload).stop := by
  simp only [Fragment.data,Fragment.parse,length_take]
  split <;> omega
/-- The end of the datagram moves up to the fragment's end at least; nothing else changes. -/
lemma extend_spec {q' : Queue} (extended : q.extend f = some q') : ∃ last_in len,
    q' = { q with last_in := last_in, len := len } ∧ q.len ≤ len ∧ f.stop ≤ len ∧ f.stop ≠ f.offset := by
  obtain ⟨some_,extended⟩ := ite_none_left_eq_some.mp extended
  split at extended
  · obtain ⟨consistent,⟨⟩⟩ := ite_none_left_eq_some.mp extended
    exact ⟨_,_,rfl,by omega,le_rfl,some_⟩
  split at extended
  · obtain ⟨_,⟨⟩⟩ := ite_none_left_eq_some.mp extended
    exact ⟨_,_,rfl,by omega,le_rfl,some_⟩
  · cases extended
    exact ⟨_,_,rfl,le_rfl,by omega,some_⟩
lemma account_spec {iface_in : String} (sound : q.Sound accepted) (headed : Headed f.hdr)
    (inserted : Inserted q.runs f.piece runs) (some_ : f.data ≠ []) (fits : f.piece.stop ≤ q.len) :
    (q.account f iface_in runs).Sound (accepted ++ [f.piece]) where
  ordered := inserted.ordered
  meat := by
    change q.meat + f.data.length = sum_lens runs
    rw [inserted.sum,sound.meat]
    rfl
  fits := inserted.below q.len fits sound.fits
  holds := by
    intro i b
    change Holds runs i b ↔ _
    rw [holds_append,← sound.holds,inserted.holds,holds_cons]
    simp
  some_ := by
    intro r mem
    rcases mem_append.mp mem with old | new
    · exact sound.some_ r old
    · obtain rfl := mem_singleton.mp new
      exact some_
  apart := by
    refine pairwise_append.mpr ⟨sound.apart,pairwise_singleton _ _,?_⟩
    intro r old new mem
    obtain rfl := mem_singleton.mp mem
    by_contra overlap
    -- a position in both would be held by a run that the fragment is apart from
    have pos := offset_lt_stop (sound.some_ r old)
    have pos' : f.piece.offset < f.piece.stop := offset_lt_stop some_
    simp only [Run.Apart,not_or,not_le] at overlap
    obtain ⟨b,puts⟩ := exists_puts (r := r) (i := max r.offset f.piece.offset) (le_max_left _ _) (by omega)
    obtain ⟨run,inside,held⟩ := (sound.holds _ b).mpr ⟨r,old,puts⟩
    have low := held.1
    have high := held.lt_stop
    rcases inserted.apart run inside with before | after
    · omega
    · omega
  head := by
    intro first
    simp only [Queue.account]
    by_cases zero : f.offset = 0
    · rw [if_pos zero]
      exact headed
    · rw [if_neg zero]
      refine sound.head ?_
      simpa [Queue.account,zero] using first

/-! ## The datagram -/
def header_len (packet : List Byte) : Nat := (byte_of packet 0).toNat % 16 * 4
/-- The payload is a tiling by pieces that do not overlap: each byte is put there by exactly one. -/
structure Tiled (pieces : List Run) (out : List Byte) : Prop where
  header : IPV4_MIN_HDR ≤ header_len out ∧ header_len out ≤ out.length
  apart : pieces.Pairwise Run.Apart
  bytes : ∀ i < out.length - header_len out, ∃ b, out[header_len out + i]? = some b ∧
    ∃! r, r ∈ pieces ∧ r.offset ≤ i ∧ i < r.stop ∧ r.Puts i b
lemma drop_datagram (q : Queue) (headed : IPV4_MIN_HDR ≤ q.head_hdr.length) :
    q.datagram.drop q.head_hdr.length = q.runs.flatMap Run.data := by
  have min : 20 ≤ q.head_hdr.length := headed
  unfold Queue.datagram
  rw [drop_put_word (by omega),drop_put_word (by omega),drop_put_word (by omega),drop_set_of_lt (by omega),
    drop_put_word (by omega),drop_left]
lemma header_datagram (q : Queue) (headed : Headed q.head_hdr) : header_len q.datagram = q.head_hdr.length := by
  have min : 20 ≤ q.head_hdr.length := headed.2
  have first : byte_of q.datagram 0 = byte_of q.head_hdr 0 := by
    unfold Queue.datagram
    rw [byte_of_put_word (by omega),byte_of_put_word (by omega),byte_of_put_word (by omega),byte_of_set_ne (by omega),
      byte_of_put_word (by omega),byte_of_append_left (by omega)]
  rw [header_len,first,← headed.1]
lemma length_datagram (q : Queue) : q.datagram.length = q.head_hdr.length + sum_lens q.runs := by
  simp [Queue.datagram,sum_lens,length_flatMap]
lemma datagram_tiled (sound : q.Sound accepted) (complete : q.complete) : Tiled accepted q.datagram := by
  simp only [Queue.complete,Bool.and_eq_true,decide_eq_true_eq] at complete
  obtain ⟨⟨first,_⟩,full⟩ := complete
  have headed := sound.head first
  have header := header_datagram q headed
  have length := length_datagram q
  refine ⟨?_,sound.apart,?_⟩
  · rw [header,length]
    exact ⟨headed.2,Nat.le_add_right _ _⟩
  · intro i inside
    rw [header] at inside ⊢
    have sum : sum_lens q.runs = q.len := sound.meat.symm.trans full
    have tiles := @tiling q.runs sound.ordered 0 q.len (fun r mem => ⟨Nat.zero_le _,sound.fits r mem⟩)
      (by omega) (Nat.zero_le _) i
    have payload : q.datagram[q.head_hdr.length + i]? = (q.runs.flatMap Run.data)[i]? := by
      rw [← drop_datagram q headed.2,getElem?_drop]
    have short : i < (q.runs.flatMap Run.data).length := by
      have same : (q.runs.flatMap Run.data).length = sum_lens q.runs := by simp [sum_lens,length_flatMap]
      omega
    have read := getElem?_eq_getElem short
    refine ⟨_,payload.trans read,?_⟩
    have held := (tiles _).mp read
    rw [zero_add,sound.holds] at held
    obtain ⟨r,mem,puts⟩ := held
    refine ⟨r,⟨mem,puts.1,puts.lt_stop,puts⟩,?_⟩
    rintro p ⟨there,low,high,_⟩
    -- two pieces that reach the position are one
    by_contra differ
    have : Std.Symm Run.Apart := ⟨fun _ _ apart => apart.symm⟩
    have here := puts.1
    have here' := puts.lt_stop
    rcases sound.apart.forall there mem differ with before | after
    · omega
    · omega

/-! ## What becomes of a queue -/
/-- The queue that stays after a fragment, and the one that the fragment completes. -/
def Queue.next (q : Queue) (f : Fragment) (iface_in : String) : Option Queue × Option Queue :=
  match q.extend f with
  | none => (none,none)
  | some q =>
    match queue_insert q.runs f.offset f.stop f.data with
    | .error .Dup => (some q,none)
    | .error .Overlap => (none,none)
    | .ok runs =>
      let q := q.account f iface_in runs
      if q.complete then (none,some q) else (some q,none)
/-- The record of what a queue has taken in: cut when the queue goes, longer when its fill grows. -/
def recorded (record : List Run) (fill : Nat) (left : Option Queue) (piece : List Run) : List Run :=
  match left with
  | none => []
  | some q => if fill < q.meat then record ++ piece else record
lemma recorded_same (piece : List Run) : recorded accepted q.meat (some q) piece = accepted := if_neg (lt_irrefl _)
lemma next_sound (iface_in : String) (sound : q.Sound accepted) (headed : Headed f.hdr) (length : f.offset + f.data.length = f.stop) :
    (∀ q', (q.next f iface_in).1 = some q' → q'.Sound (recorded accepted q.meat (some q') [f.piece])) ∧
    ∀ q', (q.next f iface_in).2 = some q' → (q.next f iface_in).1 = none ∧ q'.Sound (accepted ++ [f.piece]) ∧ q'.complete = true := by
  unfold Queue.next
  cases extended : q.extend f with
  | none => exact ⟨nofun,nofun⟩
  | some q₁ =>
    obtain ⟨last_in,len,rfl,longer,reach,nonempty⟩ := extend_spec extended
    have sound₁ : ({ q with last_in := last_in, len := len } : Queue).Sound accepted :=
      ⟨sound.ordered,sound.meat,fun r mem => (sound.fits r mem).trans longer,sound.holds,sound.some_,sound.apart,sound.head⟩
    have some_ : f.data ≠ [] := by
      intro empty
      rw [empty] at length
      exact nonempty (by simpa using length.symm)
    dsimp only
    cases insertion : queue_insert q.runs f.offset f.stop f.data with
    | error e =>
      cases e with
      | Overlap => exact ⟨nofun,nofun⟩
      | Dup =>
        refine ⟨?_,nofun⟩
        rintro _ ⟨⟩
        rwa [show q.meat = ({ q with last_in := last_in, len := len } : Queue).meat from rfl,recorded_same]
    | ok runs =>
      rw [← length] at insertion
      have inserted := queue_insert_spec some_ sound₁.ordered insertion
      have taken := @account_spec runs accepted _ f iface_in sound₁ headed inserted some_ (length.trans_le reach)
      have grown : q.meat < q.meat + f.data.length := Nat.lt_add_of_pos_right (length_pos_iff.mpr some_)
      dsimp only
      split
      · refine ⟨nofun,?_⟩
        rintro _ ⟨⟩
        exact ⟨rfl,taken,by assumption⟩
      · refine ⟨?_,nofun⟩
        rintro _ ⟨⟩
        convert taken
        exact if_pos grown

/-! ## Directories -/
def size (t : Table FragKey Queue) : Nat := t.total (fun _ => 1)
/-- The account of the directory is the sum over its queues, and next to `others` live queues elsewhere the count is
    right. -/
structure Live.Exact (l : Live) (others : Int) : Prop where
  mem : l.dir.mem = l.dir.queues.total Queue.mem
  count : l.count = others + size l.dir.queues

variable {l : Live} {others : Int} {dir : Fqdir}
section
variable (exact_ : l.Exact others)
include exact_
lemma Live.Exact.remove (found : l.dir.queues.get key = some q) (stats : ReasmStats) :
    (⟨{ l.dir with queues := l.dir.queues.remove key, mem := l.dir.mem - q.mem, stats := stats },l.count - 1⟩ : Live).Exact
      others := by
  have share := total_remove Queue.mem l.dir.queues key
  have one := total_remove (fun _ => 1) l.dir.queues key
  rw [found] at share one
  simp only [elim_some] at share one
  have total := exact_.mem
  have count := exact_.count
  constructor
  · change l.dir.mem - q.mem = Table.total Queue.mem (l.dir.queues.remove key)
    omega
  · simp only [size] at count ⊢
    omega
lemma Live.Exact.write {q' : Queue} {mem : Nat} {count : Int} (share : mem + (l.dir.queues.get key).elim 0 Queue.mem = l.dir.mem + q'.mem)
    (one : count + (l.dir.queues.get key).elim 0 (fun _ => 1) = l.count + 1) :
    (⟨{ l.dir with queues := l.dir.queues.set key q', mem := mem },count⟩ : Live).Exact others := by
  have old := total_remove Queue.mem l.dir.queues key
  have one' := total_remove (fun _ => 1) l.dir.queues key
  have total := exact_.mem
  have count' := exact_.count
  constructor
  · change mem = Table.total Queue.mem (l.dir.queues.set key q')
    rw [total_set]
    omega
  · change count = others + size (l.dir.queues.set key q')
    simp only [size] at count' ⊢
    rw [total_set]
    cases found : l.dir.queues.get key <;> simp only [found,elim_none,elim_some] at one one' <;> omega
lemma Live.Exact.find (qsize now_ns : Nat) (key : FragKey) : (l.find qsize now_ns key).Exact others ∧
    ∀ k, (l.find qsize now_ns key).dir.queues.get k =
      if k = key then some ((l.dir.queues.get key).getD (.new qsize now_ns)) else l.dir.queues.get k := by
  unfold Live.find
  cases found : l.dir.queues.get key with
  | some q =>
    refine ⟨exact_,fun k => ?_⟩
    by_cases same : k = key
    · simp [same,found]
    · simp [same]
  | none => exact ⟨exact_.write (by rw [found]; rfl) (by rw [found]; simp),fun k => get_set⟩
/-- One fragment: the account stays exact, its own queue becomes the next one and no other queue changes. -/
lemma frag_queue_spec (iface_in : String) (found : l.dir.queues.get key = some q) : (frag_queue l key iface_in f).1.Exact others ∧
    (∀ k, (frag_queue l key iface_in f).1.dir.queues.get k = if k = key then (q.next f iface_in).1 else l.dir.queues.get k) ∧
    ∀ out, (frag_queue l key iface_in f).2 = some out → ∃ q', (q.next f iface_in).2 = some q' ∧ out = q'.datagram := by
  have dropped := exact_.remove found l.dir.failed.stats
  have discard : l.discard key =
      ⟨{ l.dir.failed with queues := l.dir.queues.remove key, mem := l.dir.mem - q.mem },l.count - 1⟩ := by
    simp [Live.discard,Live.kill,found,Fqdir.failed]
  unfold frag_queue Queue.next
  rw [found]
  dsimp only
  cases extended : q.extend f with
  | none =>
    rw [discard]
    exact ⟨dropped,fun _ => get_remove,by simp⟩
  | some q₁ =>
    obtain ⟨last_in,len,rfl,_⟩ := extend_spec extended
    have count : l.count + (l.dir.queues.get key).elim 0 (fun _ => 1) = l.count + 1 := by rw [found]; rfl
    dsimp only
    cases queue_insert q.runs f.offset f.stop f.data with
    | error e =>
      cases e with
      | Dup => exact ⟨exact_.write (by rw [found]; rfl) count,fun _ => get_set,by simp⟩
      | Overlap =>
        rw [discard]
        exact ⟨dropped,fun _ => get_remove,by simp⟩
    | ok runs =>
      dsimp only
      generalize taken : ({ q with last_in := last_in, len := len } : Queue).account f iface_in runs = q'
      have written := @Live.Exact.write key l others exact_ q' (l.dir.mem + f.charge) l.count (by
        rw [found,← taken]
        simp only [elim_some,Queue.account]
        omega) count
      split
      · have there : (l.dir.queues.set key q').get key = some q' := by rw [get_set,if_pos rfl]
        have gone (k : FragKey) : ((l.dir.queues.set key q').remove key).get k = if k = key then none else l.dir.queues.get k := by
          rw [get_remove,get_set]
          split <;> rfl
        unfold Live.reasm
        dsimp only
        split
        · exact ⟨written.remove there _,gone,by simp⟩
        split
        · exact ⟨written.remove there _,gone,by simp⟩
        · refine ⟨written.remove there _,gone,?_⟩
          rintro _ ⟨⟩
          exact ⟨_,rfl,rfl⟩
      · exact ⟨written,fun _ => get_set,by simp⟩
end

/-! ## All namespaces -/
def Frags.queue (s : Frags) (ns : Nat) (key : FragKey) : Option Queue := (s.dirs.get ns).bind (·.queues.get key)
/-- Every memory account is exact, and the global count is the number of live queues. -/
structure Frags.Exact (s : Frags) : Prop where
  mem : ∀ ns dir, s.dirs.get ns = some dir → dir.mem = dir.queues.total Queue.mem
  count : s.queue_count = s.dirs.total (fun dir => size dir.queues)
/-- The key and the fragment of a packet, unless it is malformed or the directory is over its threshold. -/
def Frags.takes (s : Frags) (ns : Nat) (packet : List Byte) : Option (FragKey × Fragment) :=
  (split packet).bind (fun p =>
    let dir := (s.dirs.get ns).getD .new
    if dir.high_thresh = 0 ∨ dir.high_thresh < dir.mem then none else some (FragKey.of p.1,.parse p.1 p.2))

variable {s : Frags} {ns ns' : Nat} {owed : List Expired} {state : Frags × List Expired}
lemma queue_eq : s.queue ns key = ((s.dirs.get ns).getD .new).queues.get key := by
  unfold Frags.queue
  cases s.dirs.get ns <;> rfl
lemma queue_set {count : Int} : (Frags.mk (s.dirs.set ns dir) count).queue ns' key =
    if ns' = ns then dir.queues.get key else s.queue ns' key := by
  rw [Frags.queue,get_set]
  split <;> rfl
lemma Frags.Exact.write (exact_ : s.Exact) (live : l.Exact ((s.dirs.remove ns).total (size ·.queues))) :
    Frags.Exact ⟨s.dirs.set ns l.dir,l.count⟩ := by
  constructor
  · intro ns' dir found
    rcases get_set_iff.mp found with ⟨rfl,rfl⟩ | ⟨_,found⟩
    · exact live.mem
    · exact exact_.mem ns' dir found
  · have count := live.count
    rw [total_set]
    push_cast
    omega
/-- The part of the state that one namespace works on. -/
lemma Frags.Exact.enter (exact_ : s.Exact) (ns : Nat) (stats : ReasmStats) :
    (Live.mk { (s.dirs.get ns).getD .new with stats := stats } s.queue_count).Exact
      ((s.dirs.remove ns).total (size ·.queues)) := by
  have count := exact_.count
  rw [total_remove _ _ ns] at count
  cases found : s.dirs.get ns with
  | none =>
    rw [found] at count
    refine ⟨rfl,?_⟩
    simpa [size,Fqdir.new] using count
  | some dir =>
    rw [found] at count
    refine ⟨exact_.mem ns dir found,?_⟩
    simp only [elim_some,Int.natCast_add] at count
    simp only [getD_some]
    omega
lemma headed_of_split {packet hdr payload : List Byte} (cut : split packet = some (hdr,payload)) : Headed hdr := by
  unfold split at cut
  split at cut
  · exact absurd cut (by simp)
  rename_i short
  dsimp only at cut
  split at cut
  · exact absurd cut (by simp)
  rename_i lengths
  cases cut
  have min : 20 ≤ (byte_of packet 0).toNat % 16 * 4 := by
    simp only [IPV4_MIN_HDR] at lengths
    omega
  have length : (packet.take ((byte_of packet 0).toNat % 16 * 4)).length = (byte_of packet 0).toNat % 16 * 4 := by
    rw [length_take]
    omega
  have first : byte_of (packet.take ((byte_of packet 0).toNat % 16 * 4)) 0 = byte_of packet 0 := by
    simp only [byte_of,getD_eq_getElem?_getD] at min ⊢
    rw [getElem?_take_of_lt (by omega)]
  constructor
  · rw [length,first]
  · rw [length]
    exact min
/-- One packet: the accounts stay exact, the queue of its key becomes the next one and no other queue changes. -/
lemma ip_defrag_spec (qsize now_ns ns : Nat) (iface_in : String) (packet : List Byte) (exact_ : s.Exact) :
    (ip_defrag_at qsize s now_ns ns iface_in packet).1.Exact ∧
    (∀ ns' key', (ip_defrag_at qsize s now_ns ns iface_in packet).1.queue ns' key' =
      (s.takes ns packet).elim (s.queue ns' key') (fun p => if ns' = ns ∧ key' = p.1 then
        (((s.queue ns p.1).getD (.new qsize now_ns)).next p.2 iface_in).1 else s.queue ns' key')) ∧
    ∀ out, (ip_defrag_at qsize s now_ns ns iface_in packet).2 = some out → ∃ p q', s.takes ns packet = some p ∧
      (((s.queue ns p.1).getD (.new qsize now_ns)).next p.2 iface_in).2 = some q' ∧ out = q'.datagram := by
  unfold ip_defrag_at Frags.takes
  cases split packet with
  | none => exact ⟨exact_,fun _ _ => rfl,nofun⟩
  | some parts =>
    have entered := exact_.enter ns
    have here (key : FragKey) := @queue_eq key s ns
    dsimp only [bind_some]
    generalize (s.dirs.get ns).getD .new = dir at entered here ⊢
    split
    · refine ⟨exact_.write (entered _),fun ns' key' => ?_,nofun⟩
      rw [queue_set]
      split
      · next same => rw [same]; exact (here key').symm
      · rfl
    · obtain ⟨found,queues⟩ := (entered { dir.stats with reqds := dir.stats.reqds + 1 }).find qsize now_ns (FragKey.of parts.1)
      obtain ⟨live,others,out⟩ := @frag_queue_spec _ (.parse parts.1 parts.2) _ _ _ found iface_in ((queues _).trans (if_pos rfl))
      refine ⟨exact_.write live,fun ns' key' => ?_,fun datagram returned => ?_⟩
      · simp only [elim_some]
        rw [queue_set,others,queues,here]
        by_cases same : ns' = ns
        · subst same
          by_cases own : key' = FragKey.of parts.1
          · simp [own]
          · simp [own,here]
        · simp [same]
      · obtain ⟨q',complete,same⟩ := out datagram returned
        exact ⟨_,q',rfl,by rw [here]; exact complete,same⟩

/-! ## Expiry -/
/-- The queue is not yet due. -/
def Queue.young (now_ns : Nat) (q : Queue) : Bool := now_ns - q.created_ns < IPFRAG_TIME_NS
lemma expire_all_spec (keys : List FragKey) (exact_ : l.Exact others) : (keys.foldl (expire_one ns) (l,owed)).1.Exact others ∧
    ∀ k, (keys.foldl (expire_one ns) (l,owed)).1.dir.queues.get k = if k ∈ keys then none else l.dir.queues.get k := by
  induction keys generalizing l owed with
  | nil => exact ⟨exact_,fun k => by simp⟩
  | cons key rest ih =>
    rw [foldl_cons,expire_one]
    dsimp only
    split
    · next missing =>
      obtain ⟨later,queues⟩ := @ih l owed exact_
      refine ⟨later,fun k => ?_⟩
      rw [queues]
      by_cases same : k = key
      · simp [same,missing]
      · simp [same]
    · next q found =>
      obtain ⟨later,queues⟩ := @ih _ (owed ++ (q.owes ns).toList) (exact_.remove found _)
      refine ⟨later,fun k => ?_⟩
      rw [queues,get_remove]
      by_cases same : k = key
      · simp [same]
      · simp [same]
lemma mem_dead {now_ns : Nat} : key ∈ dir.dead now_ns ↔ ∃ q, dir.queues.get key = some q ∧ q.young now_ns = false := by
  simp only [Fqdir.dead,List.mem_map,mem_filter,decide_eq_true_eq,Queue.young,decide_eq_false_iff_not,not_lt]
  constructor
  · rintro ⟨e,⟨inside,due⟩,rfl⟩
    exact ⟨e.2,Table.get_of_mem inside,due⟩
  · rintro ⟨q,found,due⟩
    exact ⟨(key,q),⟨Table.mem_of_get found,due⟩,rfl⟩
lemma expire_dir_spec (now_ns ns : Nat) (exact_ : state.1.Exact) : (expire_dir now_ns state ns).1.Exact ∧
    ∀ ns' key, (expire_dir now_ns state ns).1.queue ns' key =
      if ns' = ns then (state.1.queue ns' key).filter (Queue.young now_ns) else state.1.queue ns' key := by
  unfold expire_dir
  cases found : state.1.dirs.get ns with
  | none =>
    refine ⟨exact_,fun ns' key => ?_⟩
    by_cases same : ns' = ns
    · simp [same,Frags.queue,found]
    · simp [same]
  | some dir =>
    have entered := exact_.enter ns dir.stats
    rw [found,getD_some] at entered
    obtain ⟨later,queues⟩ := @expire_all_spec _ _ ns state.2 (dir.dead now_ns) entered
    refine ⟨exact_.write later,fun ns' key => ?_⟩
    rw [queue_set,queues]
    by_cases same : ns' = ns
    · rw [if_pos same,if_pos same]
      have here : state.1.queue ns' key = dir.queues.get key := by rw [same,Frags.queue,found]; rfl
      rw [here]
      cases there : dir.queues.get key with
      | none => simp
      | some q =>
        simp only [mem_dead,there,filter_some]
        cases young : q.young now_ns <;> simp [young]
    · rw [if_neg same,if_neg same]
/-- Exactly the queues that are due go. -/
lemma expire_at_spec (now_ns : Nat) (exact_ : s.Exact) : (expire_at s now_ns).1.Exact ∧
    ∀ ns key, (expire_at s now_ns).1.queue ns key = (s.queue ns key).filter (Queue.young now_ns) := by
  have each (namespaces : List Nat) (state : Frags × List Expired) (exact_ : state.1.Exact) :
      (namespaces.foldl (expire_dir now_ns) state).1.Exact ∧ ∀ ns key, (namespaces.foldl (expire_dir now_ns) state).1.queue ns key =
        if ns ∈ namespaces then (state.1.queue ns key).filter (Queue.young now_ns) else state.1.queue ns key := by
    induction namespaces generalizing state with
    | nil => exact ⟨exact_,fun ns key => by simp⟩
    | cons first rest ih =>
      obtain ⟨exact₁,queues₁⟩ := expire_dir_spec now_ns first exact_
      obtain ⟨exact₂,queues₂⟩ := ih _ exact₁
      refine ⟨exact₂,fun ns key => ?_⟩
      rw [foldl_cons,queues₂,queues₁]
      by_cases same : ns = first
      · simp [same,Option.filter_filter]
      · simp [same]
  obtain ⟨later,queues⟩ := each (s.dirs.entries.map Prod.fst) (s,[]) exact_
  refine ⟨later,fun ns key => ?_⟩
  rw [expire_at,queues]
  split
  · rfl
  · next absent =>
    have missing : s.dirs.get ns = none := by
      cases found : s.dirs.get ns with
      | none => rfl
      | some dir => exact absurd (mem_map_of_mem (f := Prod.fst) (Table.mem_of_get found)) absent
    rw [Frags.queue,missing]
    rfl

/-! ## Runs -/
inductive Event where
  | fragment (now_ns net_ns_id : Nat) (iface_in : String) (packet : List Byte)
  | expire (now_ns : Nat)
/-- What the queue of each key has taken in. -/
abbrev Log := Nat → FragKey → List Run
structure World where
  frags : Frags
  log : Log
def World.after (w : World) (frags : Frags) (piece : List Run) : World :=
  ⟨frags,fun ns key => recorded (w.log ns key) (((w.frags.queue ns key).map Queue.meat).getD 0) (frags.queue ns key) piece⟩
def World.step (qsize : Nat) (w : World) : Event → World
  | .fragment now_ns net_ns_id iface_in packet =>
    w.after (ip_defrag_at qsize w.frags now_ns net_ns_id iface_in packet).1
      ((split packet).map (fun p => (Fragment.parse p.1 p.2).piece)).toList
  | .expire now_ns => w.after (expire_at w.frags now_ns).1 []
def World.run (qsize : Nat) (events : List Event) : World := events.foldl (World.step qsize) ⟨.new,fun _ _ => []⟩
/-- The accounts are exact, and each queue holds what its record says. -/
structure World.Sound (w : World) : Prop where
  exact_ : w.frags.Exact
  queues : ∀ ns key q, w.frags.queue ns key = some q → q.Sound (w.log ns key)
  gone : ∀ ns key, w.frags.queue ns key = none → w.log ns key = []

variable {w : World}
/-- The queue that a packet is for, made where it is missing. -/
lemma World.Sound.entered (sound : w.Sound) (ns : Nat) (key : FragKey) (qsize now_ns : Nat) :
    ((w.frags.queue ns key).getD (.new qsize now_ns)).Sound (w.log ns key) ∧
    ((w.frags.queue ns key).getD (.new qsize now_ns)).meat = ((w.frags.queue ns key).map Queue.meat).getD 0 := by
  cases there : w.frags.queue ns key with
  | none =>
    rw [sound.gone ns key there]
    exact ⟨Queue.sound_new qsize now_ns,rfl⟩
  | some q => exact ⟨sound.queues ns key q there,rfl⟩
lemma World.Sound.after {frags : Frags} {piece : List Run} (sound : w.Sound) (exact_ : frags.Exact)
    (each : ∀ ns key q, frags.queue ns key = some q → w.frags.queue ns key = some q ∨
      q.Sound (recorded (w.log ns key) (((w.frags.queue ns key).map Queue.meat).getD 0) (some q) piece)) : (w.after frags piece).Sound := by
  refine ⟨exact_,fun ns key q there => ?_,fun ns key missing => ?_⟩
  · change frags.queue ns key = some q at there
    simp only [World.after,there]
    rcases each ns key q there with same | new
    · rw [same,map_some,getD_some,recorded_same]
      exact sound.queues ns key q same
    · exact new
  · change frags.queue ns key = none at missing
    simp only [World.after,missing]
    rfl
lemma takes_spec {p : FragKey × Fragment} {packet : List Byte} (taken : s.takes ns packet = some p) :
    ((split packet).map (fun p => (Fragment.parse p.1 p.2).piece)).toList = [p.2.piece] ∧ Headed p.2.hdr ∧
      p.2.offset + p.2.data.length = p.2.stop := by
  obtain ⟨⟨hdr,payload⟩,cut,taken⟩ := bind_eq_some_iff.mp taken
  obtain ⟨_,⟨⟩⟩ := ite_none_left_eq_some.mp taken
  exact ⟨by rw [cut]; rfl,headed_of_split cut,length_data hdr payload⟩
lemma World.Sound.step (qsize : Nat) (sound : w.Sound) (event : Event) : (w.step qsize event).Sound := by
  cases event with
  | expire now_ns =>
    obtain ⟨later,queues⟩ := expire_at_spec now_ns sound.exact_
    refine sound.after later fun ns key q there => .inl ?_
    rw [queues] at there
    exact (filter_eq_some_iff.mp there).1
  | fragment now_ns net_ns_id iface_in packet =>
    obtain ⟨later,queues,_⟩ := ip_defrag_spec qsize now_ns net_ns_id iface_in packet sound.exact_
    refine sound.after later fun ns key q there => ?_
    rw [queues] at there
    cases taken : w.frags.takes net_ns_id packet with
    | none =>
      rw [taken] at there
      exact .inl there
    | some p =>
      rw [taken,elim_some] at there
      split at there
      · next own =>
        obtain ⟨rfl,rfl⟩ := own
        obtain ⟨piece,headed,length⟩ := takes_spec taken
        obtain ⟨holds,fill⟩ := sound.entered ns p.1 qsize now_ns
        rw [piece,← fill]
        exact .inr ((next_sound iface_in holds headed length).1 q there)
      · exact .inl there
lemma World.run_sound (qsize : Nat) (events : List Event) : (World.run qsize events).Sound := by
  induction events using List.reverseRecOn with
  | nil =>
    refine ⟨⟨fun ns dir found => absurd found (by simp [World.run,Frags.new]),rfl⟩,fun ns key q there => ?_,fun _ _ _ => rfl⟩
    simp [World.run,Frags.queue,Frags.new] at there
  | append_singleton events last ih =>
    rw [World.run,foldl_append]
    exact ih.step qsize last
/-- After every run: the queues are sorted and disjoint, and their fill, the memory account and the count of live
    queues are exact. The next packet changes the queue of its own key only, which goes when the packet completes it
    or is refused; a timer expiry takes away exactly the queues that are due. A datagram is tiled by the fragments that
    its queue took in, of which no two overlap, and the queue is gone. -/
theorem reassembly_safe {qsize : Nat} {events : List Event} {w : World} (ran : World.run qsize events = w) :
    (∀ ns dir, w.frags.dirs.get ns = some dir → dir.mem = dir.queues.total Queue.mem ∧ ∀ key q, dir.queues.get key = some q →
        q.runs.Pairwise (fun a b => a.stop ≤ b.offset) ∧ q.meat = sum_lens q.runs ∧ ∀ r ∈ q.runs, r.stop ≤ q.len) ∧
    w.frags.queue_count = w.frags.dirs.total (fun dir => size dir.queues) ∧
    (∀ now_ns ns key, (expire_at w.frags now_ns).1.queue ns key = (w.frags.queue ns key).filter (Queue.young now_ns)) ∧
    ∀ now_ns net_ns_id iface_in packet, (∀ ns key, (ip_defrag_at qsize w.frags now_ns net_ns_id iface_in packet).1.queue ns key =
        (w.frags.takes net_ns_id packet).elim (w.frags.queue ns key) (fun p => if ns = net_ns_id ∧ key = p.1 then
          (((w.frags.queue net_ns_id p.1).getD (.new qsize now_ns)).next p.2 iface_in).1 else w.frags.queue ns key)) ∧
      ∀ out, (ip_defrag_at qsize w.frags now_ns net_ns_id iface_in packet).2 = some out →
        ∃ p, w.frags.takes net_ns_id packet = some p ∧
          (ip_defrag_at qsize w.frags now_ns net_ns_id iface_in packet).1.queue net_ns_id p.1 = none ∧
          Tiled (w.log net_ns_id p.1 ++ [p.2.piece]) out := by
  have sound : w.Sound := ran ▸ World.run_sound qsize events
  refine ⟨fun ns dir found => ⟨sound.exact_.mem ns dir found,fun key q there => ?_⟩,sound.exact_.count,
    fun now_ns => (expire_at_spec now_ns sound.exact_).2,fun now_ns net_ns_id iface_in packet => ?_⟩
  · have holds := sound.queues ns key q (by rw [Frags.queue,found]; exact there)
    exact ⟨holds.ordered.order,holds.meat,holds.fits⟩
  · obtain ⟨_,queues,datagram⟩ := ip_defrag_spec qsize now_ns net_ns_id iface_in packet sound.exact_
    refine ⟨queues,fun out returned => ?_⟩
    obtain ⟨p,q',taken,complete,rfl⟩ := datagram out returned
    obtain ⟨_,headed,length⟩ := takes_spec taken
    obtain ⟨gone,holds,full⟩ := (next_sound iface_in (sound.entered net_ns_id p.1 qsize now_ns).1 headed length).2 q' complete
    refine ⟨p,taken,?_,datagram_tiled holds full⟩
    rw [queues,taken,elim_some,if_pos ⟨rfl,rfl⟩,gone]
def sample_fragment (len flags offset : Byte) (data : List Byte) : List Byte :=
  [0x45,0,0,len,0,7,flags,offset,64,17,0,0,10,0,0,1,10,0,0,2] ++ data
/-- A datagram of ten bytes, of which the last two come first. -/
theorem reassembly_safe_two_fragments : ∃ w out p, World.run 100 [.fragment 0 1 "eth0" (sample_fragment 22 0 1 [9,10])] = w ∧
      (ip_defrag_at 100 w.frags 0 1 "eth0" (sample_fragment 28 0x20 0 [1,2,3,4,5,6,7,8])).2 = some out ∧
      out.drop 20 = [1,2,3,4,5,6,7,8,9,10] ∧ w.frags.queue_count = 1 ∧
      (ip_defrag_at 100 w.frags 0 1 "eth0" (sample_fragment 28 0x20 0 [1,2,3,4,5,6,7,8])).1.queue 1 p = none := by
  have returned : (ip_defrag_at 100 (World.run 100 [.fragment 0 1 "eth0" (sample_fragment 22 0 1 [9,10])]).frags 0 1 "eth0"
      (sample_fragment 28 0x20 0 [1,2,3,4,5,6,7,8])).2.map (·.drop 20) = some [1,2,3,4,5,6,7,8,9,10] := by decide +kernel
  obtain ⟨out,done,bytes⟩ := map_eq_some_iff.mp returned
  obtain ⟨p,_,gone,_⟩ := ((reassembly_safe rfl).2.2.2 _ _ _ _).2 out done
  exact ⟨_,out,p.1,rfl,done,bytes,by decide +kernel,gone⟩
end Narf.Net.IpFragment
