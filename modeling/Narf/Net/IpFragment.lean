import Narf.Lib.Table
import Narf.Net.Checksum

namespace Narf.Net.IpFragment
open Lib

/-! IPv4 fragment reassembly, with one directory of queues per network namespace. `qsize` is the
    size of a queue record, which the code charges to the directory. The ICMP messages that
    expired queues owe are listed and not sent. -/

def IPFRAG_TIME_NS : Nat := 30000000000
def IPFRAG_HIGH_THRESH : Nat := 4 * 1024 * 1024
def SKB_TRUESIZE_OVERHEAD : Nat := 576
def IPV4_MIN_HDR : Nat := 20
structure FragKey where
  saddr : List Byte
  daddr : List Byte
  id : Nat
  protocol : Byte
  deriving DecidableEq
structure Run where
  offset : Nat
  data : List Byte
  deriving DecidableEq
def Run.stop (r : Run) : Nat := r.offset + r.data.length
structure Queue where
  runs : List Run
  len : Nat
  meat : Nat
  first_in : Bool
  last_in : Bool
  head_hdr : List Byte
  head_len : Nat
  iif : String
  ecn : Byte
  max_size : Nat
  max_df_size : Nat
  created_ns : Nat
  mem : Nat

structure ReasmStats where
  reqds : Nat
  oks : Nat
  fails : Nat
  timeout : Nat
structure Fqdir where
  queues : Table FragKey Queue
  mem : Nat
  high_thresh : Nat
  stats : ReasmStats
def Fqdir.new : Fqdir := ⟨.empty,0,IPFRAG_HIGH_THRESH,⟨0,0,0,0⟩⟩
/-- The directories by namespace and the number of live queues in all of them. -/
structure Frags where
  dirs : Table Nat Fqdir
  queue_count : Int
def Frags.new : Frags := ⟨.empty,0⟩
/-- A directory with the global count of live queues. -/
structure Live where
  dir : Fqdir
  count : Int
def Fqdir.failed (dir : Fqdir) : Fqdir := { dir with stats := { dir.stats with fails := dir.stats.fails + 1 } }
def Live.kill (l : Live) (key : FragKey) : Live :=
  match l.dir.queues.get key with
  | none => l
  | some q => ⟨{ l.dir with queues := l.dir.queues.remove key, mem := l.dir.mem - q.mem },l.count - 1⟩
/-- The kill that a corrupt fragment causes. -/
def Live.discard (l : Live) (key : FragKey) : Live :=
  let l := l.kill key
  { l with dir := l.dir.failed }

/-! ## One queue -/
inductive Insert where
  | Dup | Overlap
/-- The search from the lowest run on: the first run that the fragment meets decides. -/
def search (offset stop : Nat) (data : List Byte) : List Run → Except Insert (List Run)
  | [] => .ok [⟨offset,data⟩]
  | run :: rest =>
    if stop ≤ run.offset then .ok (⟨offset,data⟩ :: run :: rest)
    else if run.stop ≤ offset then (search offset stop data rest).map (run :: ·)
    else if run.offset ≤ offset ∧ stop ≤ run.stop then .error .Dup
    else .error .Overlap
def queue_insert (runs : List Run) (offset stop : Nat) (data : List Byte) : Except Insert (List Run) :=
  match runs.getLast? with
  | none => .ok (runs ++ [⟨offset,data⟩])
  | some last =>
    if last.stop < stop then
      if offset < last.stop then .error .Overlap
      else if offset = last.stop then .ok (runs.dropLast ++ [{ last with data := last.data ++ data }])
      else .ok (runs ++ [⟨offset,data⟩])
    else search offset stop data runs
/-- The header fields of a fragment that the queue looks at. -/
structure Fragment where
  more : Bool
  df : Bool
  offset : Nat
  stop : Nat
  ecn : Byte
  hdr : List Byte
  payload : List Byte
/-- A fragment that is not the last carries a multiple of eight bytes; the excess is cut. -/
def Fragment.parse (hdr payload : List Byte) : Fragment :=
  let frag_word := word_of hdr 6
  let offset := frag_word % 2 ^ 13 * 8
  let stop := offset + payload.length
  let more := frag_word / 2 ^ 13 % 2 = 1
  { more := more
    df := frag_word / 2 ^ 14 % 2 = 1
    offset := offset
    stop := if more then stop / 8 * 8 else stop
    ecn := 1 <<< (byte_of hdr 1 &&& 3).toNat
    hdr := hdr
    payload := payload }
def Fragment.data (f : Fragment) : List Byte := f.payload.take (f.stop - f.offset)
/-- The end of the datagram as the queue knows it after the fragment; `none` discards the queue. -/
def Queue.extend (q : Queue) (f : Fragment) : Option Queue :=
  let extended :=
    if !f.more then
      if f.stop < q.len ∨ (q.last_in ∧ f.stop ≠ q.len) then none
      else some { q with last_in := true, len := f.stop }
    else if q.len < f.stop then if q.last_in then none else some { q with len := f.stop }
    else some q
  if f.stop = f.offset then none else extended
def Fragment.charge (f : Fragment) : Nat := f.hdr.length + f.data.length + SKB_TRUESIZE_OVERHEAD
def Queue.account (q : Queue) (f : Fragment) (iface_in : String) (runs : List Run) : Queue :=
  let fragsize := f.data.length + f.hdr.length
  { q with
    runs := runs
    iif := iface_in
    meat := q.meat + f.data.length
    ecn := q.ecn ||| f.ecn
    mem := q.mem + f.charge
    first_in := q.first_in || decide (f.offset = 0)
    head_hdr := if f.offset = 0 then f.hdr else q.head_hdr
    head_len := if f.offset = 0 then f.data.length else q.head_len
    max_size := max q.max_size fragsize
    max_df_size := if f.df then max q.max_df_size fragsize else q.max_df_size }
def Queue.complete (q : Queue) : Bool := q.first_in && q.last_in && q.meat = q.len
/-- The ECN bits to fold into the header; `0xff` is a mix that must be dropped. -/
def ip_frag_ecn_table (seen : Byte) : Byte :=
  let not_ect := seen &&& 0x01 ≠ 0
  let ce := seen &&& 0x08 ≠ 0
  let ect := seen &&& (0x04 ||| 0x02) ≠ 0
  if not_ect ∧ (ce ∨ ect) then 0xff else if ce ∧ ect then 3 else 0
/-- The whole datagram: the first fragment's header with its length, fragment and checksum fields
    written, and the runs. -/
def Queue.datagram (q : Queue) : List Byte :=
  let len := q.head_hdr.length + q.len
  let out := q.head_hdr ++ q.runs.flatMap Run.data
  let out := put_word out 2 len
  let out := out.set 1 (byte_of out 1 ||| ip_frag_ecn_table q.ecn)
  let out := put_word out 6 (if q.max_df_size = q.max_size then 0x4000 else 0)
  let out := put_word out 10 0
  put_word out 10 (ip_checksum (out.take q.head_hdr.length))
/-- `ip_frag_reasm`: the queue is gone whatever happens. -/
def Live.reasm (l : Live) (key : FragKey) (q : Queue) : Live × Option (List Byte) :=
  let l : Live := ⟨{ l.dir with queues := l.dir.queues.remove key, mem := l.dir.mem - q.mem },l.count - 1⟩
  if ip_frag_ecn_table q.ecn = 0xff then ({ l with dir := l.dir.failed },none)
  else if 65535 < q.head_hdr.length + q.len then ({ l with dir := l.dir.failed },none)
  else
    ({ l with dir := { l.dir with stats := { l.dir.stats with oks := l.dir.stats.oks + 1 } } },some q.datagram)
def frag_queue (l : Live) (key : FragKey) (iface_in : String) (f : Fragment) : Live × Option (List Byte) :=
  match l.dir.queues.get key with
  | none => (l,none)
  | some q =>
    match q.extend f with
    | none => (l.discard key,none)
    | some q =>
      match queue_insert q.runs f.offset f.stop f.data with
      -- the queue stays, with the end of the datagram that the duplicate told
      | .error .Dup => ({ l with dir := { l.dir with queues := l.dir.queues.set key q } },none)
      | .error .Overlap => (l.discard key,none)
      | .ok runs =>
        let q := q.account f iface_in runs
        let l : Live := { l with dir := { l.dir with queues := l.dir.queues.set key q, mem := l.dir.mem + f.charge } }
        if q.complete then l.reasm key q else (l,none)

/-! ## Directories -/
/-- Header and payload of a packet, trimmed to its total length. -/
def split (packet : List Byte) : Option (List Byte × List Byte) :=
  if packet.length < IPV4_MIN_HDR then none
  else
    let ihl := (byte_of packet 0).toNat % 16 * 4
    let total := word_of packet 2
    if ihl < IPV4_MIN_HDR ∨ total < ihl ∨ packet.length < total then none
    else some (packet.take ihl,(packet.take total).drop ihl)
def FragKey.of (hdr : List Byte) : FragKey :=
  ⟨(hdr.drop 12).take 4,(hdr.drop 16).take 4,word_of hdr 4,byte_of hdr 9⟩
def Queue.new (qsize now_ns : Nat) : Queue := ⟨[],0,0,false,false,[],0,"",0,0,0,now_ns,qsize⟩
def Live.find (qsize now_ns : Nat) (l : Live) (key : FragKey) : Live :=
  match l.dir.queues.get key with
  | some _ => l
  | none =>
    ⟨{ l.dir with queues := l.dir.queues.set key (.new qsize now_ns), mem := l.dir.mem + qsize },l.count + 1⟩
def ip_defrag_at (qsize : Nat) (s : Frags) (now_ns net_ns_id : Nat) (iface_in : String) (packet : List Byte) : Frags × Option (List Byte) :=
  match split packet with
  | none => (s,none)
  | some (hdr,payload) =>
    let dir := (s.dirs.get net_ns_id).getD .new
    let dir := { dir with stats := { dir.stats with reqds := dir.stats.reqds + 1 } }
    if dir.high_thresh = 0 ∨ dir.high_thresh < dir.mem then
      ({ s with dirs := s.dirs.set net_ns_id dir.failed },none)
    else
      let key := FragKey.of hdr
      let l := (Live.mk dir s.queue_count).find qsize now_ns key
      let (l,out) := frag_queue l key iface_in (.parse hdr payload)
      (⟨s.dirs.set net_ns_id l.dir,l.count⟩,out)

/-! ## Expiry -/
structure Expired where
  net_ns_id : Nat
  iif : String
  head : List Byte
/-- What an expired queue owes its sender. -/
def Queue.owes (net_ns_id : Nat) (q : Queue) : Option Expired :=
  if !q.first_in then none
  else
    match q.runs.head? with
    | none => none
    | some first =>
      if first.offset = 0 then
        some ⟨net_ns_id,q.iif,q.head_hdr ++ first.data.take (min q.head_len first.data.length)⟩
      else none
def expire_one (net_ns_id : Nat) (state : Live × List Expired) (key : FragKey) : Live × List Expired :=
  match state.1.dir.queues.get key with
  | none => state
  | some q =>
    let dir := state.1.dir
    let stats := { dir.stats with fails := dir.stats.fails + 1, timeout := dir.stats.timeout + 1 }
    (⟨{ dir with queues := dir.queues.remove key, mem := dir.mem - q.mem, stats := stats },state.1.count - 1⟩,
      state.2 ++ (q.owes net_ns_id).toList)
def Fqdir.dead (dir : Fqdir) (now_ns : Nat) : List FragKey :=
  (dir.queues.entries.filter (fun e => IPFRAG_TIME_NS ≤ now_ns - e.2.created_ns)).map Prod.fst
def expire_dir (now_ns : Nat) (state : Frags × List Expired) (net_ns_id : Nat) : Frags × List Expired :=
  match state.1.dirs.get net_ns_id with
  | none => state
  | some dir =>
    let (l,owed) := (dir.dead now_ns).foldl (expire_one net_ns_id) (⟨dir,state.1.queue_count⟩,state.2)
    (⟨state.1.dirs.set net_ns_id l.dir,l.count⟩,owed)
def expire_at (s : Frags) (now_ns : Nat) : Frags × List Expired :=
  (s.dirs.entries.map Prod.fst).foldl (expire_dir now_ns) (s,[])
end Narf.Net.IpFragment
