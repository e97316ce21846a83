import Narf.Lib.IntrusiveList
import Narf.Rcu.Qsbr

namespace Narf.Rcu
open Function (update update_of_ne update_self)
open Lib Lib.IntrusiveList Finset Multiset List Option

/-! Reclamation loses no node and repeats none: every retired node is on exactly one of the lists that
    buckets, drains, workers and offload queues hold. -/

variable {n : Nat}
/-- What holds of the nodes of a list. -/
inductive Label (n : Nat) where
  | retiring (epoch : Option Nat)
  /-- On the bucket of `c`, or going back to it. -/
  | waiting (c : Fin n)
  /-- Off the bucket, to be compared with `min`. -/
  | detached (c : Fin n) (min : Nat)
  | expired
/-- The lists that a frame of CPU `c` holds. -/
def Frame.roots (c : Fin n) : Frame n → List (Root Node (Label n))
  | .defer_epoch node => [⟨.one node,none,.retiring none⟩]
  | .defer_splice node epoch => [⟨.one node,none,.retiring (some epoch)⟩]
  | .drain_walk _ min list ready keep keep_len =>
    [⟨.chain list,none,.detached c min⟩,⟨.chain ready,none,.expired⟩,⟨.chain keep,some keep_len,.waiting c⟩]
  | .drain_graft _ ready keep tail keep_len => [⟨.chain ready,none,.expired⟩,⟨.walk keep tail,some keep_len,.waiting c⟩]
  | .offload ready => [⟨.chain ready,none,.expired⟩]
  | .offload_worker ready => [⟨.chain (some ready),none,.expired⟩]
  | .push_walk _ ready tail => [⟨.walk ready tail,none,.expired⟩]
  | .push_load _ ready tail => [⟨.tail ready tail,none,.expired⟩]
  | .push_link _ ready tail _ => [⟨.tail ready tail,none,.expired⟩]
  | .push_exchange _ ready tail head => [⟨.linked ready tail head,none,.expired⟩]
  | .run list => [⟨.chain list,none,.expired⟩]
  | _ => []
/-- The queue that the next access of the frame may touch. -/
def Frame.queue (c : Fin n) : Frame n → Fin n
  | .push_exchange w _ _ _ => w
  | .push_kick w => w
  | .take_clear w => w
  | .take_swap w => w
  | _ => c
/-- Something is still to be done for queue `w`: a wake decided on or called for, or a detach. -/
def Frame.owes (w : Fin n) : Frame n → Bool
  | .push_kick v => v = w
  | .wake v => v = w
  | .take_swap v => v = w
  | _ => false
/-- Pushes to queue `w`, up to the wake, and takes of it from their first access on. -/
def Frame.busy (w : Fin n) : Frame n → Bool
  | .push_walk v _ _ => v = w
  | .push_load v _ _ => v = w
  | .push_link v _ _ _ => v = w
  | .push_exchange v _ _ _ => v = w
  | f => f.owes w
def Status.is_retired : Status n → Bool
  | .retired _ => true
  | _ => false
/-- Retired, or about to be. -/
def Status.listed : Status n → Bool
  | .retiring => true
  | .retired _ => true
  | _ => false
lemma Status.listed_of_is_retired {x : Status n} (retired : x.is_retired) : x.listed := by
  cases x with
  | retired home => rfl
  | _ => cases retired
def onto (l : List (Root Node (Label n))) (others : Multiset (Root Node (Label n))) : Multiset (Root Node (Label n)) :=
  l.foldr (· ::ₘ ·) others

namespace World
variable {s t : World n} {c d w : Fin n}
def bucket_root (s : World n) (c : Fin n) : Root Node (Label n) := ⟨.chain (s.buckets c).head,some (s.buckets c).len,.waiting c⟩
def queue_root (s : World n) (w : Fin n) : Root Node (Label n) := ⟨.chain (s.queues w).head,none,.expired⟩
def stack_roots (s : World n) (c : Fin n) : List (Root Node (Label n)) := (s.stack c).flatMap (Frame.roots c)
/-- All lists: each CPU's bucket and what its frames hold, and the queues. -/
def roots (s : World n) : Multiset (Root Node (Label n)) :=
  ∑ c, onto (s.stack_roots c) {s.bucket_root c} + ∑ w, {s.queue_root w}
def others (s : World n) (c w : Fin n) : Multiset (Root Node (Label n)) :=
  ∑ d ∈ Finset.univ.erase c, onto (s.stack_roots d) {s.bucket_root d} + ∑ v ∈ Finset.univ.erase w, {s.queue_root v}
variable (l : List (Root Node (Label n)))
lemma onto_add (first second : Multiset (Root Node (Label n))) : onto l first + second = onto l (first + second) := by
  induction l with
  | nil => rfl
  | cons r l ih =>
    show r ::ₘ onto l first + second = r ::ₘ onto l (first + second)
    rw [cons_add,ih]
lemma roots_at (s : World n) (c w : Fin n) : s.roots = onto (s.stack_roots c) (s.bucket_root c ::ₘ s.queue_root w ::ₘ s.others c w) := by
  rw [roots,← add_sum_erase _ _ (mem_univ c),← add_sum_erase Finset.univ (fun v => {s.queue_root v}) (mem_univ w),
    add_assoc,onto_add]
  congr 1
  rw [singleton_add,← add_assoc,add_comm _ ({s.queue_root w} : Multiset _),add_assoc,singleton_add]
  rfl
lemma others_congr (buckets : ∀ d, d ≠ c → t.buckets d = s.buckets d) (queues : ∀ v, v ≠ w → t.queues v = s.queues v)
    (stack : ∀ d, d ≠ c → t.stack d = s.stack d) : t.others c w = s.others c w := by
  refine congrArg₂ (· + ·) (sum_congr rfl fun d inside => ?_) (sum_congr rfl fun v inside => ?_)
  · have other := ne_of_mem_erase inside
    rw [stack_roots,stack_roots,bucket_root,bucket_root,buckets d other,stack d other]
  · rw [queue_root,queue_root,queues v (ne_of_mem_erase inside)]
/-- What the label says of a node's life. -/
def Fits (s : World n) : Label n → Node → Prop
  | .retiring _, a => s.status a = .retiring
  | .waiting c, a => s.status a = .retired c
  | .detached c _, a => s.status a = .retired c
  | .expired, a => ∃ d, s.status a = .retired d
lemma Fits.congr {ℓ : Label n} {a : Node} (fits : s.Fits ℓ a) (same : t.status a = s.status a) : t.Fits ℓ a := by
  cases ℓ with
  | retiring | waiting | detached => exact same.trans fits
  | expired => obtain ⟨d,home⟩ := fits; exact ⟨d,same.trans home⟩
/-- The lists are disjoint, they have the nodes retired and not destroyed, and each node is as its list's
    label says; `Q` is what else a label says. -/
structure Owned (Q : World n → Label n → Node → Prop) (s : World n) : Prop where
  pool : ∃ nodes, Pool s.next (fun ℓ a => s.Fits ℓ a ∧ Q s ℓ a) s.roots nodes ∧ ∀ a, a ∈ nodes ↔ (s.status a).listed = true
  once : ∀ a, s.retired a = s.destroyed a + (s.status a).is_retired.toNat
/-- What a step has to keep of `Q`. -/
structure Carries (Q : World n → Label n → Node → Prop) (s : World n) (e : Event n) (t : World n) : Prop where
  stable : ∀ ℓ a, s.Fits ℓ a → t.status a = s.status a → Q s ℓ a → Q t ℓ a
  called : ∀ c a, e = .call c (.defer_node a) → Q t (.retiring none) a
  loaded : ∀ c choice a rest, e = .step c choice → s.stack c = .defer_epoch a :: rest →
    Q t (.retiring none) a → Q t (.retiring (some s.epoch)) a
  spliced : ∀ c choice a epoch rest, e = .step c choice → s.stack c = .defer_splice a epoch :: rest →
    Q s (.retiring (some epoch)) a → Q t (.waiting c) a
  detached : ∀ c choice inline min rest a, e = .step c choice → s.stack c = .drain_detach inline min :: rest →
    t.Fits (.waiting c) a → Q t (.waiting c) a → Q t (.detached c min) a
  elapsed : ∀ c min a, t.stamp a < min → Q t (.detached c min) a → Q t .expired a
  kept : ∀ c min a, Q t (.detached c min) a → Q t (.waiting c) a

/-! ## One access -/
lemma act_stack (choice : Bool) (f : Frame n) : (s.act c choice f).1.stack = s.stack := by
  fun_cases World.act s c choice f <;> first | rfl | (split <;> rfl)
lemma act_buckets (choice : Bool) (f : Frame n) (other : d ≠ c) : (s.act c choice f).1.buckets d = s.buckets d := by
  fun_cases World.act s c choice f <;> first | rfl | exact update_of_ne other .. | (split <;> rfl)
lemma act_queues (choice : Bool) (f : Frame n) (other : w ≠ f.queue c) : (s.act c choice f).1.queues w = s.queues w := by
  fun_cases World.act s c choice f <;> first | rfl | exact update_of_ne other .. | (split <;> rfl)
variable {f : Frame n} {choice : Bool} {rest : List (Frame n)} {Q : World n → Label n → Node → Prop} {e : Event n}
/-- Only putting a node on its bucket and running its destructor turn its life. -/
lemma act_calm (choice : Bool) (no_splice : ∀ a epoch, f ≠ .defer_splice a epoch) (no_drop : ∀ a, f ≠ .run (some a)) :
    (s.act c choice f).1.status = s.status ∧ (s.act c choice f).1.stamp = s.stamp ∧
    (s.act c choice f).1.retired = s.retired ∧ (s.act c choice f).1.destroyed = s.destroyed := by
  fun_cases World.act s c choice f
  case case3 node epoch => exact absurd rfl (no_splice node epoch)
  all_goals first | exact ⟨rfl,rfl,rfl,rfl⟩ | (split <;> exact ⟨rfl,rfl,rfl,rfl⟩) | exact absurd rfl (no_drop _)
lemma act_pool {P : Label n → Node → Prop} {R : Multiset (Root Node (Label n))} {nodes : Multiset Node}
    (loaded : ∀ a, f = .defer_epoch a → P (.retiring none) a → P (.retiring (some s.epoch)) a)
    (detached : ∀ inline min a, f = .drain_detach inline min → P (.waiting c) a → P (.detached c min) a)
    (elapsed : ∀ min a, s.stamp a < min → P (.detached c min) a → P .expired a) (kept : ∀ min a, P (.detached c min) a → P (.waiting c) a)
    (no_splice : ∀ a epoch, f ≠ .defer_splice a epoch) (no_drop : ∀ a, f ≠ .run (some a))
    (pool : Pool s.next P (onto (f.roots c) (s.bucket_root c ::ₘ s.queue_root (f.queue c) ::ₘ R)) nodes) :
    Pool (s.act c choice f).1.next P (onto ((s.act c choice f).2.flatMap (Frame.roots c))
      ((s.act c choice f).1.bucket_root c ::ₘ (s.act c choice f).1.queue_root (f.queue c) ::ₘ R)) nodes := by
  have no_count : ∀ (l : List Node) (k : Nat), k ∈ (none : Option Nat) → l.length = k := fun _ _ absent => (not_mem_none _ absent).elim
  cases f with
  | code | quiescent_epoch | quiescent_store | idle_store | advance_epoch | sync_publish | sync_report | push_load | wake => exact pool
  | defer_epoch a =>
    refine pool.imp fun l has => ⟨has.shape,has.count,fun b inside => ?_⟩
    obtain rfl : l = [a] := has.shape
    rw [List.mem_singleton.mp inside]
    exact loaded a rfl (has.label a (List.mem_singleton.mpr rfl))
  | defer_splice a epoch => exact absurd rfl (no_splice a epoch)
  | quiescent_readers | quiescent_prev | idle_readers | advance_len | advance_check | advance_exchange | sync_readers | reclaim | drain_scan =>
    rw [act]; split <;> exact pool
  | sync_past target i =>
    rw [act]
    split
    · split
      · cases choice <;> exact pool
      · exact pool
    · exact pool
  | drain_detach inline min =>
    have bucket : (s.act c choice (.drain_detach inline min)).1.bucket_root c = ⟨.chain none,some 0,.waiting c⟩ := by
      simp [act,bucket_root,update_self]
    rw [bucket]
    have zero : ∀ k ∈ some 0, k = 0 := fun k same => (some.inj same).symm
    refine Pool.imp (((Pool.begin_next pool (.waiting c) (some 0) zero).begin_next (.waiting c) (some 0) zero).begin_next .expired none
      (fun _ absent => (not_mem_none _ absent).elim)) fun l has => ⟨has.shape,no_count l,fun a inside => ?_⟩
    exact detached inline min a rfl (has.label a inside)
  | drain_walk inline min list ready keep keep_len =>
    cases list with
    | some a =>
      rw [act]
      have popped := Pool.pop pool
      split
      · rename_i early
        exact (popped.swap_next.push (elapsed min a early)).swap
      · exact (popped.swap_third.swap_next.push (kept min a)).swap.swap_next
    | none =>
      have rest := Pool.forget pool rfl
      cases keep with
      | some k => exact rest.swap.start_walk.swap
      | none => cases inline <;> exact rest.swap.forget rfl
  | drain_graft inline ready keep tail keep_len =>
    rw [act]
    split
    · rename_i t link
      exact (Pool.walk_on (Pool.swap pool) link).swap
    · rename_i last
      have joined := (Pool.join ((Pool.link_last (Pool.end_walk (Pool.swap pool) last) (s.buckets c).head).swap_next) fun _ => id).swap
      have bucket : bucket_root { s with
          next := update s.next tail (s.buckets c).head,
          buckets := update s.buckets c ⟨some keep,(s.buckets c).len + keep_len⟩ } c =
          ⟨.chain (some keep),some (keep_len + (s.buckets c).len),.waiting c⟩ := by
        simp [bucket_root,update_self,add_comm]
      rw [bucket]
      cases inline <;> exact joined
  | offload ready =>
    cases ready with
    | none => exact Pool.forget pool rfl
    | some r => rw [act]; split <;> exact pool
  | offload_worker ready => exact Pool.start_walk pool
  | push_walk w ready tail =>
    rw [act]
    split
    · rename_i t link
      exact Pool.walk_on pool link
    · rename_i last
      exact Pool.end_walk pool last
  | push_link w ready tail head => exact Pool.link_last pool head
  | push_exchange w ready tail head =>
    rw [act]
    split
    · rename_i taken
      obtain ⟨rfl,_⟩ := taken
      have joined := (Pool.join (Pool.swap_next pool) fun _ => id).swap
      have queue : queue_root { s with queues := update s.queues w ⟨some ready,(s.queues w).kicked⟩ } w =
          ⟨.chain (some ready),none,.expired⟩ := by
        simp [queue_root,update_self]
      show Pool s.next P (s.bucket_root c ::ₘ queue_root _ w ::ₘ R) nodes
      rw [queue]
      exact joined
    · exact Pool.unlink_last pool
  | push_kick w =>
    have queue : queue_root { s with queues := update s.queues w ⟨(s.queues w).head,true⟩ } w = s.queue_root w := by
      simp [queue_root,update_self]
    rw [act]
    split
    all_goals
      show Pool s.next P (s.bucket_root c ::ₘ queue_root _ w ::ₘ R) nodes
      rw [queue]
      exact pool
  | take_clear w =>
    have queue : (s.act c choice (.take_clear w)).1.queue_root w = s.queue_root w := by
      simp [act,queue_root,update_self]
    show Pool s.next P (s.bucket_root c ::ₘ queue_root _ w ::ₘ R) nodes
    rw [queue]
    exact pool
  | take_swap w =>
    have queue : (s.act c choice (.take_swap w)).1.queue_root w = ⟨.chain none,none,.expired⟩ := by
      simp [act,queue_root,update_self]
    show Pool s.next P (⟨.chain (s.queues w).head,none,.expired⟩ ::ₘ s.bucket_root c ::ₘ queue_root _ w ::ₘ R) nodes
    rw [queue]
    exact ((Pool.swap pool).begin_next .expired none fun _ absent => (not_mem_none _ absent).elim).swap_next
  | run list =>
    cases list with
    | none => exact Pool.forget pool rfl
    | some a => exact absurd rfl (no_drop a)
lemma onto_cons (r : Root Node (Label n)) (others : Multiset (Root Node (Label n))) : onto l (r ::ₘ others) = r ::ₘ onto l others := by
  induction l with
  | nil => rfl
  | cons q l ih =>
    show q ::ₘ onto l (r ::ₘ others) = r ::ₘ q ::ₘ onto l others
    rw [ih,Multiset.cons_swap]
lemma roots_top {fs : List (Frame n)} (stack : s.stack c = fs ++ rest) (w : Fin n) : s.roots = onto (fs.flatMap (Frame.roots c))
      (s.bucket_root c ::ₘ s.queue_root w ::ₘ onto (rest.flatMap (Frame.roots c)) (s.others c w)) := by
  rw [roots_at s c w,stack_roots,stack,flatMap_append,← onto_cons,← onto_cons]
  exact foldr_append ..

/-! ## Every step -/
section Steps
variable {Q : World n → Label n → Node → Prop} {e : Event n} {f : Frame n} {rest : List (Frame n)} {choice : Bool} {a : Node}
/-- The lists are as they were, and so is every node on them. -/
lemma Owned.transfer (owned : s.Owned Q) (carries : Carries Q s e t) (next : t.next = s.next) (roots : t.roots = s.roots)
    (status : ∀ a, t.status a = s.status a ∨ (s.status a).listed = false ∧ (t.status a).listed = false)
    (retired : t.retired = s.retired) (destroyed : t.destroyed = s.destroyed) : t.Owned Q := by
  obtain ⟨nodes,pool,listed⟩ := owned.pool
  refine ⟨⟨nodes,?_,fun a => ?_⟩,fun a => ?_⟩
  · rw [next,roots]
    refine pool.mono fun ℓ a inside fits => ?_
    have kept : t.status a = s.status a := by
      rcases status a with same | ⟨off,_⟩
      · exact same
      · rw [(listed a).mp inside] at off
        cases off
    exact ⟨fits.1.congr kept,carries.stable ℓ a fits.1 kept fits.2⟩
  · rcases status a with same | ⟨before,after⟩
    · rw [listed,same]
    · rw [listed,before,after]
  · rw [retired,destroyed,owned.once a]
    rcases status a with same | ⟨before,after⟩
    · rw [same]
    · have none_of : ∀ x : Status n, x.listed = false → x.is_retired = false := fun x off =>
        Bool.eq_false_iff.mpr fun is => by rw [Status.listed_of_is_retired is] at off; cases off
      rw [none_of _ before,none_of _ after]
lemma Owned.restatus {x : Status n} (owned : s.Owned Q) (carries : Carries Q s e { s with status := update s.status a x })
    (before : (s.status a).listed = false) (after : x.listed = false) : Owned Q { s with status := update s.status a x } := by
  refine owned.transfer carries rfl rfl (fun b => ?_) rfl rfl
  show update s.status a x b = s.status b ∨ _ ∧ (update s.status a x b).listed = false
  by_cases same : b = a
  · rw [same,update_self]
    exact .inr ⟨before,after⟩
  · rw [update_of_ne same]
    exact .inl rfl
/-- Only the stack of `c` changes, and in frames that hold no list. -/
lemma Owned.restack {fs : List (Frame n)} (owned : s.Owned Q) (carries : Carries Q s e t) (stack : t.stack = update s.stack c fs)
    (hold : fs.flatMap (Frame.roots c) = (s.stack c).flatMap (Frame.roots c)) (next : t.next = s.next)
    (buckets : t.buckets = s.buckets) (queues : t.queues = s.queues) (status : t.status = s.status)
    (retired : t.retired = s.retired) (destroyed : t.destroyed = s.destroyed) : t.Owned Q := by
  refine owned.transfer carries next ?_ (fun a => .inl (by rw [status])) retired destroyed
  have others : t.others c c = s.others c c := by
    refine others_congr (fun d _ => by rw [buckets]) (fun v _ => by rw [queues]) fun d other => ?_
    rw [stack,update_of_ne other]
  rw [roots_at t c c,roots_at s c c,others,stack_roots,stack_roots,stack,update_self,hold,bucket_root,bucket_root,queue_root,queue_root,buckets,queues]
lemma Owned.call {sections : List (List Node)} (owned : s.Owned Q) (carries : Carries Q s (.call c (.defer_node a)) t)
    (fresh : s.status a = .unlinked) (stack : s.stack c = .code sections :: rest)
    (taken : t = set_stack { s with status := update s.status a .retiring } c (.defer_epoch a :: .code sections :: rest)) :
    t.Owned Q := by
  obtain ⟨nodes,pool,listed⟩ := owned.pool
  have off : a ∉ nodes := by
    rw [listed,fresh]
    exact Bool.false_ne_true
  have status : t.status = update s.status a .retiring := by rw [taken]; rfl
  have here : t.status a = .retiring := by rw [status,update_self]
  have elsewhere : ∀ b, b ≠ a → t.status b = s.status b := fun b other => by rw [status,update_of_ne other]
  have roots : t.roots = ⟨.one a,none,.retiring none⟩ ::ₘ s.roots := by
    have above : t.stack c = [.defer_epoch a] ++ (.code sections :: rest) := by rw [taken]; exact update_self ..
    have others : t.others c c = s.others c c := by
      rw [taken]
      exact others_congr (fun _ _ => rfl) (fun _ _ => rfl) fun d other => update_of_ne other ..
    have bucket : t.bucket_root c = s.bucket_root c := by rw [taken]; rfl
    have queue : t.queue_root c = s.queue_root c := by rw [taken]; rfl
    rw [roots_top above c,roots_at s c c,stack_roots,stack,others,bucket,queue,← onto_cons _ (s.queue_root c),
      ← onto_cons _ (s.bucket_root c)]
    rfl
  refine ⟨⟨a ::ₘ nodes,?_,?_⟩,?_⟩
  · rw [roots]
    have next : t.next = s.next := by rw [taken]; rfl
    rw [next]
    refine (pool.mono fun ℓ b inside fits => ?_).adopt off ⟨here,carries.called c a rfl⟩
    have kept := elsewhere b fun same => off (same ▸ inside)
    exact ⟨fits.1.congr kept,carries.stable ℓ b fits.1 kept fits.2⟩
  · intro b
    rw [Multiset.mem_cons,listed]
    by_cases same : b = a
    · subst same
      rw [here]
      exact ⟨fun _ => rfl,fun _ => .inl rfl⟩
    · rw [elsewhere b same]
      exact ⟨fun on => on.resolve_left same,.inr⟩
  · intro b
    have counts : t.retired = s.retired ∧ t.destroyed = s.destroyed := by rw [taken]; exact ⟨rfl,rfl⟩
    rw [counts.1,counts.2,owned.once b]
    by_cases same : b = a
    · rw [same,here,fresh]
      rfl
    · rw [elsewhere b same]

abbrev after (s : World n) (c : Fin n) (choice : Bool) (f : Frame n) (rest : List (Frame n)) : World n :=
  (s.act c choice f).1.set_stack c ((s.act c choice f).2 ++ rest)
lemma step_roots (choice : Bool) (stack : s.stack c = f :: rest) :
    s.roots = onto (f.roots c) (s.bucket_root c ::ₘ s.queue_root (f.queue c) ::ₘ
      onto (rest.flatMap (Frame.roots c)) (s.others c (f.queue c))) ∧ (s.after c choice f rest).roots =
      onto ((s.act c choice f).2.flatMap (Frame.roots c)) ((s.act c choice f).1.bucket_root c ::ₘ
        (s.act c choice f).1.queue_root (f.queue c) ::ₘ onto (rest.flatMap (Frame.roots c)) (s.others c (f.queue c))) := by
  constructor
  · rw [roots_top (show s.stack c = [f] ++ rest from stack) (f.queue c),flatMap_singleton]
  · have above : (s.after c choice f rest).stack c = (s.act c choice f).2 ++ rest :=
      update_self ..
    rw [roots_top above (f.queue c)]
    have others : (s.after c choice f rest).others c (f.queue c) = s.others c (f.queue c) := by
      refine others_congr (fun d other => act_buckets choice f other) (fun v other => act_queues choice f other) fun d other => ?_
      exact (update_of_ne other ..).trans (congrFun (act_stack choice f) d)
    rw [others]
    rfl
lemma Owned.calm (owned : s.Owned Q) (stack : s.stack c = f :: rest) (carries : Carries Q s (.step c choice) (s.after c choice f rest))
    (no_splice : ∀ a epoch, f ≠ .defer_splice a epoch) (no_drop : ∀ a, f ≠ .run (some a)) : Owned Q (s.after c choice f rest) := by
  obtain ⟨nodes,pool,listed⟩ := owned.pool
  obtain ⟨before,after⟩ := step_roots choice stack
  obtain ⟨status,stamp,retired,destroyed⟩ := act_calm (s := s) (c := c) choice no_splice no_drop
  generalize set_result : s.after c choice f rest = t at carries after ⊢
  have status : t.status = s.status := by rw [← set_result]; exact status
  have stamp : t.stamp = s.stamp := by rw [← set_result]; exact stamp
  refine ⟨⟨nodes,?_,fun b => by rw [listed,status]⟩,fun b => ?_⟩
  · have next : t.next = (s.act c choice f).1.next := by rw [← set_result]; rfl
    rw [after,next]
    rw [before] at pool
    refine act_pool ?_ ?_ ?_ ?_ no_splice no_drop (pool.mono fun ℓ b inside fits => ?_)
    · rintro b rfl ⟨fits,q⟩
      exact ⟨fits,carries.loaded c choice b rest rfl stack q⟩
    · rintro inline min b rfl ⟨fits,q⟩
      exact ⟨fits,carries.detached c choice inline min rest b rfl stack fits q⟩
    · rintro min b early ⟨fits,q⟩
      exact ⟨⟨c,fits⟩,carries.elapsed c min b (by rw [stamp]; exact early) q⟩
    · rintro min b ⟨fits,q⟩
      exact ⟨fits,carries.kept c min b q⟩
    · exact ⟨fits.1.congr (by rw [status]),carries.stable ℓ b fits.1 (by rw [status]) fits.2⟩
  · have retired : t.retired = s.retired := by rw [← set_result]; exact retired
    have destroyed : t.destroyed = s.destroyed := by rw [← set_result]; exact destroyed
    rw [retired,destroyed,status,owned.once b]
lemma Owned.splice {epoch : Nat} (owned : s.Owned Q) (stack : s.stack c = .defer_splice a epoch :: rest)
    (carries : Carries Q s (.step c choice) (s.after c choice (.defer_splice a epoch) rest)) :
    Owned Q (s.after c choice (.defer_splice a epoch) rest) := by
  obtain ⟨nodes,pool,listed⟩ := owned.pool
  obtain ⟨before,after⟩ := step_roots choice stack
  rw [before] at pool
  obtain ⟨m,rfl,off,⟨fits,q⟩,others⟩ := Pool.release pool
  have spliced := carries.spliced c choice a epoch rest rfl stack q
  have here : (s.after c choice (.defer_splice a epoch) rest).status a = .retired c := update_self ..
  have elsewhere : ∀ b, b ≠ a → (s.after c choice (.defer_splice a epoch) rest).status b = s.status b :=
    fun b other => update_of_ne other ..
  refine ⟨⟨a ::ₘ m,?_,fun b => ?_⟩,fun b => ?_⟩
  · refine Eq.mpr (congrArg (Pool _ _ · _) after) ?_
    have bucket : (s.act c choice (.defer_splice a epoch)).1.bucket_root c = ⟨.chain (some a),some ((s.buckets c).len + 1),.waiting c⟩ := by
      simp [act,bucket_root,update_self]
    rw [bucket]
    refine Pool.push (Pool.adopt (others.mono fun ℓ b inside old => ?_) off (ℓ := .waiting c) ⟨here,spliced⟩) id
    have kept := elsewhere b fun same => off (same ▸ inside)
    exact ⟨old.1.congr kept,carries.stable ℓ b old.1 kept old.2⟩
  · by_cases same : b = a
    · subst same
      rw [here]
      exact ⟨fun _ => rfl,fun _ => mem_cons_self b m⟩
    · rw [listed,elsewhere b same]
  · by_cases same : b = a
    · subst same
      have count := owned.once b
      have retiring : s.status b = .retiring := fits
      rw [retiring] at count
      rw [here]
      show update s.retired b (s.retired b + 1) b = s.destroyed b + 1
      rw [update_self,count]
      rfl
    · rw [elsewhere b same]
      show update s.retired a (s.retired a + 1) b = s.destroyed b + _
      rw [update_of_ne same]
      exact owned.once b
lemma Owned.drop (owned : s.Owned Q) (stack : s.stack c = .run (some a) :: rest)
    (carries : Carries Q s (.step c choice) (s.after c choice (.run (some a)) rest)) : Owned Q (s.after c choice (.run (some a)) rest) := by
  obtain ⟨nodes,pool,listed⟩ := owned.pool
  obtain ⟨before,after⟩ := step_roots choice stack
  rw [before] at pool
  obtain ⟨m,rfl,off,⟨⟨home,fits⟩,_⟩,others⟩ := Pool.release (Pool.pop pool)
  have here : (s.after c choice (.run (some a)) rest).status a = .free :=
    update_self ..
  have elsewhere : ∀ b, b ≠ a →
      (s.after c choice (.run (some a)) rest).status b = s.status b :=
    fun b other => update_of_ne other ..
  refine ⟨⟨m,?_,fun b => ?_⟩,fun b => ?_⟩
  · refine Eq.mpr (congrArg (Pool _ _ · _) after) (others.mono fun ℓ b inside old => ?_)
    have kept := elsewhere b fun same => off (same ▸ inside)
    exact ⟨old.1.congr kept,carries.stable ℓ b old.1 kept old.2⟩
  · by_cases same : b = a
    · subst same
      rw [here]
      exact ⟨fun inside => absurd inside off,fun bad => (by cases bad)⟩
    · rw [elsewhere b same,← listed,Multiset.mem_cons]
      exact ⟨.inr,fun on => on.resolve_left same⟩
  · by_cases same : b = a
    · subst same
      have count := owned.once b
      rw [fits] at count
      rw [here]
      show s.retired b = update s.destroyed b (s.destroyed b + 1) b + 0
      rw [update_self,count]
      rfl
    · rw [elsewhere b same]
      show s.retired b = update s.destroyed a (s.destroyed a + 1) b + _
      rw [update_of_ne same]
      exact owned.once b
/-- Whatever `Q` says, a step that carries it keeps the lists. -/
lemma Owned.step (owned : s.Owned Q) (taken : s.step e = some t) (carries : Carries Q s e t) : t.Owned Q := by
  cases taken_of_step taken with
  | interrupt stack _ | finish stack | pin stack | unpin stack _ | load stack _ =>
    exact owned.restack carries rfl (by rw [stack]; rfl) rfl rfl rfl rfl rfl rfl
  | link free => exact owned.restatus carries (by rw [free]; rfl) rfl
  | unlink linked => exact owned.restatus carries (by rw [linked]; rfl) rfl
  | defer stack unlinked => exact owned.call carries unlinked stack rfl
  | @call c op sections rest stack other =>
    refine owned.restack carries rfl ?_ rfl rfl rfl rfl rfl rfl
    rw [stack]
    cases op with
    | defer_node a => exact absurd rfl (other a)
    | _ => rfl
  | @step c choice f rest stack =>
    by_cases splices : ∃ a epoch, f = .defer_splice a epoch
    · obtain ⟨a,epoch,rfl⟩ := splices
      exact owned.splice stack carries
    · by_cases drops : ∃ a, f = .run (some a)
      · obtain ⟨a,rfl⟩ := drops
        exact owned.drop stack carries
      · exact owned.calm stack carries (fun a epoch same => splices ⟨a,epoch,same⟩) fun a same => drops ⟨a,same⟩
  | set_reclaim_offload | clear_reclaim_offload => exact owned.transfer carries rfl rfl (fun _ => .inl rfl) rfl rfl
end Steps
lemma owned_new : (new : World n).Owned Q := by
  refine ⟨⟨0,pool_empty fun r inside => ?_,fun a => ⟨fun inside => absurd inside (notMem_zero a),fun bad => (by cases bad)⟩⟩,
    fun _ => rfl⟩
  rcases mem_add.mp inside with bucket | queue
  · obtain ⟨c,_,same⟩ := mem_sum.mp bucket
    rw [Multiset.mem_singleton.mp same]
    exact ⟨rfl,fun k zero => (some.inj zero).symm⟩
  · obtain ⟨w,_,same⟩ := mem_sum.mp queue
    rw [Multiset.mem_singleton.mp same]
    exact ⟨rfl,fun _ absent => (not_mem_none _ absent).elim⟩

/-! ## Waking the worker -/
/-- What an access of the top frame does to queue `w` and its wake. -/
inductive Kick (w : Fin n) (q q' : OffloadQueue) (woken woken' : Bool) (f : Frame n) (fs : List (Frame n)) : Prop
  | same (calm : f.owes w = false) (queue : q' = q) (wakes : woken' = woken)
  | exchange (calm : f.owes w = false) (after : .push_kick w ∈ fs) (kicked : q'.kicked = q.kicked) (wakes : woken' = woken)
  | kick (frame : f = .push_kick w) (after : q.kicked = true ∨ .wake w ∈ fs) (kicked : q'.kicked = true) (wakes : woken' = woken)
  | wake (frame : f = .wake w) (queue : q' = q) (wakes : woken' = true)
  | clear (after : .take_swap w ∈ fs) (kicked : q'.kicked = false)
  | swap (frame : f = .take_swap w) (head : q'.head = none) (kicked : q'.kicked = q.kicked) (wakes : woken' = woken)
lemma act_kick (s : World n) (c w : Fin n) (choice : Bool) (f : Frame n) :
    Kick w (s.queues w) ((s.act c choice f).1.queues w) (s.woken w) ((s.act c choice f).1.woken w) f (s.act c choice f).2 := by
  have self : ∀ q : OffloadQueue, update s.queues w q w = q := fun q => update_self ..
  cases f with
  | push_exchange v ready tail head =>
    rw [act]
    split
    · by_cases same : w = v
      · subst same
        have kicked := congrArg OffloadQueue.kicked (self ⟨some ready,(s.queues w).kicked⟩)
        exact .exchange rfl mem_cons_self kicked rfl
      · exact .same rfl (update_of_ne same ..) rfl
    · exact .same rfl rfl rfl
  | push_kick v =>
    by_cases same : w = v
    · subst same
      refine .kick rfl ?_ (congrArg _ (self _)) rfl
      rw [act]
      by_cases before : (s.queues w).kicked
      · exact .inl before
      · rw [if_neg before]
        exact .inr mem_cons_self
    · exact .same (decide_eq_false (Ne.symm same)) (update_of_ne same ..) rfl
  | wake v =>
    by_cases same : w = v
    · subst same
      exact .wake rfl rfl (update_self ..)
    · exact .same (decide_eq_false (Ne.symm same)) rfl (update_of_ne same ..)
  | take_clear v =>
    by_cases same : w = v
    · subst same
      exact .clear mem_cons_self (congrArg _ (self _))
    · exact .same rfl (update_of_ne same ..) (update_of_ne same ..)
  | take_swap v =>
    by_cases same : w = v
    · subst same
      have kicked := congrArg OffloadQueue.kicked (self ⟨none,(s.queues w).kicked⟩)
      exact .swap rfl (congrArg _ (self _)) kicked rfl
    · exact .same (decide_eq_false (Ne.symm same)) (update_of_ne same ..) rfl
  | sync_past target i => rw [act]; split <;> [(split <;> exact .same rfl rfl rfl); exact .same rfl rfl rfl]
  | drain_scan | drain_graft | push_walk | advance_exchange => rw [act]; split <;> exact .same rfl rfl rfl
  | drain_walk inline min list ready keep keep_len =>
    cases list with
    | some a => rw [act]; split <;> exact .same rfl rfl rfl
    | none => cases keep <;> exact .same rfl rfl rfl
  | offload ready => cases ready <;> exact .same rfl rfl rfl
  | run list => cases list <;> exact .same rfl rfl rfl
  | _ => exact .same rfl rfl rfl
/-- A queue with nodes on it has been kicked, or is about to be, or is about to be emptied; and one that
    has been kicked has been woken, or is about to be. -/
structure Wakes (s : World n) : Prop where
  kicked : ∀ w, (s.queues w).kicked = true → s.woken w = true ∨ ∃ d, .wake w ∈ s.stack d
  filled : ∀ w, (s.queues w).head ≠ none → (s.queues w).kicked = true ∨ (∃ d, .push_kick w ∈ s.stack d) ∨ ∃ d, .take_swap w ∈ s.stack d
lemma wakes_new : (new : World n).Wakes := ⟨fun _ bad => (by cases bad),fun _ bad => absurd rfl bad⟩
lemma Wakes.transfer (wakes : s.Wakes) (queues : t.queues = s.queues) (woken : t.woken = s.woken)
    (kept : ∀ w f d, f.owes w → f ∈ s.stack d → f ∈ t.stack d) : t.Wakes := by
  have owes : ∀ w : Fin n, (Frame.wake w).owes w ∧ (Frame.push_kick w).owes w ∧ (Frame.take_swap w).owes w :=
    fun w => ⟨decide_eq_true rfl,decide_eq_true rfl,decide_eq_true rfl⟩
  refine ⟨fun w is => ?_,fun w some => ?_⟩
  · rw [queues] at is
    rw [woken]
    exact (wakes.kicked w is).imp_right fun ⟨d,on⟩ => ⟨d,kept w _ d (owes w).1 on⟩
  · rw [queues] at some ⊢
    exact (wakes.filled w some).imp_right (Or.imp (fun ⟨d,on⟩ => ⟨d,kept w _ d (owes w).2.1 on⟩) fun ⟨d,on⟩ => ⟨d,kept w _ d (owes w).2.2 on⟩)
/-- What is below the top of a stack stays. -/
lemma mem_set_stack {d : Fin n} {g : Frame n} (fs : List (Frame n)) (stack : s.stack c = f :: rest) (other : g ≠ f)
    (on : g ∈ s.stack d) : g ∈ (s.set_stack c (fs ++ rest)).stack d := by
  show g ∈ update s.stack c (fs ++ rest) d
  by_cases here : d = c
  · rw [here] at on ⊢
    rw [stack] at on
    rw [update_self]
    exact mem_append_right _ ((mem_cons.mp on).resolve_left other)
  · rw [update_of_ne here]
    exact on
lemma Wakes.act (wakes : s.Wakes) (stack : s.stack c = f :: rest) : Wakes (s.after c choice f rest) := by
  have below : ∀ g d, g ≠ f → g ∈ s.stack d → g ∈ (s.after c choice f rest).stack d := by
    intro g d other on
    refine mem_set_stack (s := (s.act c choice f).1) (f := f) _ ?_ other ?_
    · rw [act_stack]
      exact stack
    · rw [act_stack]
      exact on
  have above : ∀ g ∈ (s.act c choice f).2, g ∈ (s.after c choice f rest).stack c := by
    intro g new
    show g ∈ update (s.act c choice f).1.stack c _ c
    rw [update_self]
    exact mem_append_left _ new
  have not_owed : ∀ (w : Fin n) (g : Frame n), f.owes w = false → g.owes w → g ≠ f := by
    rintro w g calm owes rfl
    rw [calm] at owes
    cases owes
  have yes : ∀ w : Fin n, decide (w = w) := fun w => decide_eq_true rfl
  constructor
  · intro w is
    change ((s.act c choice f).1.queues w).kicked = true at is
    show (s.act c choice f).1.woken w = true ∨ _
    cases act_kick s c w choice f with
    | same calm queue same =>
      rw [queue] at is
      rw [same]
      exact (wakes.kicked w is).imp_right fun ⟨d,on⟩ => ⟨d,below _ d (not_owed w _ calm (yes w)) on⟩
    | exchange calm _ kicked same =>
      rw [kicked] at is
      rw [same]
      exact (wakes.kicked w is).imp_right fun ⟨d,on⟩ => ⟨d,below _ d (not_owed w _ calm (yes w)) on⟩
    | kick frame after _ same =>
      rw [same]
      rcases after with before | new
      · exact (wakes.kicked w before).imp_right fun ⟨d,on⟩ => ⟨d,below _ d (by rw [frame]; exact fun bad => (by cases bad)) on⟩
      · exact .inr ⟨c,above _ new⟩
    | wake _ _ woken => exact .inl woken
    | clear _ cleared => rw [cleared] at is; cases is
    | swap frame _ kicked same =>
      rw [kicked] at is
      rw [same]
      exact (wakes.kicked w is).imp_right fun ⟨d,on⟩ => ⟨d,below _ d (by rw [frame]; exact fun bad => (by cases bad)) on⟩
  · intro w filled
    change ((s.act c choice f).1.queues w).head ≠ none at filled
    show ((s.act c choice f).1.queues w).kicked = true ∨ _
    cases act_kick s c w choice f with
    | same calm queue _ =>
      rw [queue] at filled ⊢
      exact (wakes.filled w filled).imp_right (Or.imp (fun ⟨d,on⟩ => ⟨d,below _ d (not_owed w _ calm (yes w)) on⟩)
        fun ⟨d,on⟩ => ⟨d,below _ d (not_owed w _ calm (yes w)) on⟩)
    | exchange _ after _ _ => exact .inr (.inl ⟨c,above _ after⟩)
    | kick _ _ kicked _ => exact .inl kicked
    | wake frame queue _ =>
      rw [queue] at filled ⊢
      exact (wakes.filled w filled).imp_right (Or.imp (fun ⟨d,on⟩ => ⟨d,below _ d (by rw [frame]; exact fun bad => (by cases bad)) on⟩)
        fun ⟨d,on⟩ => ⟨d,below _ d (by rw [frame]; exact fun bad => (by cases bad)) on⟩)
    | clear after _ => exact .inr (.inr ⟨c,above _ after⟩)
    | swap _ empty _ _ => exact absurd empty filled
lemma Wakes.step (wakes : s.Wakes) (taken : s.step e = some t) : t.Wakes := by
  have code : ∀ {w : Fin n} {g : Frame n} {sections : List (List Node)}, g.owes w → g ≠ .code sections := by
    rintro w g sections owes rfl
    cases owes
  cases taken_of_step taken with
  | @interrupt c f rest stack _ =>
    refine wakes.transfer rfl rfl fun w g d _ on => ?_
    show g ∈ update s.stack c (.code [] :: f :: rest) d
    by_cases same : d = c
    · rw [same] at on ⊢
      rw [update_self,← stack]
      exact mem_cons_of_mem _ on
    · rw [update_of_ne same]
      exact on
  | finish stack => exact wakes.transfer rfl rfl fun w g d owes on => mem_set_stack [] stack (code owes) on
  | pin stack | unpin stack _ | load stack _ => exact wakes.transfer rfl rfl fun w g d owes on => mem_set_stack [_] stack (code owes) on
  | link | unlink | set_reclaim_offload | clear_reclaim_offload => exact wakes.transfer rfl rfl fun w g d _ on => on
  | defer stack _ | call stack _ => exact wakes.transfer rfl rfl fun w g d owes on => mem_set_stack [_,_] stack (code owes) on
  | step stack => exact wakes.act stack

/-! ## Every run -/
lemma carries_true : Carries (fun _ _ _ => True) s e t :=
  ⟨fun _ _ _ _ _ => trivial,fun _ _ _ => trivial,fun _ _ _ _ _ _ _ => trivial,fun _ _ _ _ _ _ _ _ => trivial,
    fun _ _ _ _ _ _ _ _ _ _ => trivial,fun _ _ _ _ _ => trivial,fun _ _ _ _ => trivial⟩
lemma Owned.bucket (owned : s.Owned Q) (c : Fin n) :
    ∃ l, Seg s.next (s.buckets c).head l none ∧ l.length = (s.buckets c).len ∧ ∀ a ∈ l, s.status a = .retired c := by
  obtain ⟨nodes,pool,_⟩ := owned.pool
  rw [roots_at s c c,onto_cons] at pool
  obtain ⟨l,_,has,_⟩ := pool_cons.mp pool
  exact ⟨l,has.shape,has.count _ rfl,fun a inside => (has.label a inside).1⟩
lemma Wakes.woken {w : Fin n} (wakes : s.Wakes) (filled : (s.queues w).head ≠ none)
    (quiet : ∀ c, ∀ f ∈ s.stack c, f.busy w = false) : s.woken w := by
  have yes : decide (w = w) := decide_eq_true rfl
  have absent : ∀ (f : Frame n) (c : Fin n), f.busy w → f ∉ s.stack c := by
    intro f c busy on
    rw [quiet c f on] at busy
    cases busy
  rcases wakes.filled w filled with kicked | ⟨c,on⟩ | ⟨c,on⟩
  · rcases wakes.kicked w kicked with woken | ⟨c,on⟩
    · exact woken
    · exact absurd on (absent _ c yes)
  · exact absurd on (absent _ c yes)
  · exact absurd on (absent _ c yes)
/-- In every run the lists of buckets, frames and queues are disjoint and have exactly the nodes that are
    being retired or are retired; an address was retired as often as destroyed, and once more while it is
    on a list; a bucket's length counts its nodes; and a queue that has nodes, with no push or take of it
    under way, has had its worker woken since the last take began. -/
theorem reclaims_each_once (es : List (Event n)) (s : World n) (reached : Runs.run step new es = some s) :
    (∃ nodes, Pool s.next s.Fits s.roots nodes ∧ ∀ a, a ∈ nodes ↔ (s.status a).listed = true) ∧
    (∀ a, s.retired a = s.destroyed a + (s.status a).is_retired.toNat) ∧
    (∀ c, ∃ l, Seg s.next (s.buckets c).head l none ∧ l.length = (s.buckets c).len ∧ ∀ a ∈ l, s.status a = .retired c) ∧
    (∀ w, (s.queues w).head ≠ none → (∀ c, ∀ f ∈ s.stack c, f.busy w = false) → s.woken w = true) := by
  have kept : s.Owned (fun _ _ _ => True) ∧ s.Wakes :=
    Runs.invariant_of_run (I := fun s : World n => s.Owned (fun _ _ _ => True) ∧ s.Wakes)
      (fun _ _ _ both taken => ⟨both.1.step taken carries_true,both.2.step taken⟩) ⟨owned_new,wakes_new⟩ reached
  obtain ⟨owned,wakes⟩ := kept
  obtain ⟨nodes,pool,listed⟩ := owned.pool
  exact ⟨⟨nodes,pool.mono fun _ _ _ fits => fits.1,listed⟩,owned.once,owned.bucket,fun w => wakes.woken⟩
/-- Two of three CPUs retire a node each, and a grace period ends on the first. -/
def retired_and_destroyed : List (Event 3) :=
  [.link 7,.link 8,.unlink 7,.unlink 8,.call 0 (.defer_node 7),.step 0 false,.step 0 false,.call 1 (.defer_node 8),.step 1 false,
    .step 1 false,.call 0 .sync_until] ++ List.replicate 16 (.step 0 false)
theorem reclaims_each_once_destroyed : ∃ s : World 3, Runs.run step new retired_and_destroyed = some s ∧
    s.destroyed 7 = 1 ∧ s.status 8 = .retired 1 ∧ ∀ a, s.retired a = s.destroyed a + (s.status a).is_retired.toNat := by
  have runs : (Runs.run step (new : World 3) retired_and_destroyed).map (fun s => (s.destroyed 7,s.status 8)) = some (1,.retired 1) := by
    decide +kernel
  obtain ⟨s,reached,facts⟩ := map_eq_some_iff.mp runs
  obtain ⟨destroyed,kept⟩ := Prod.mk.inj facts
  exact ⟨s,reached,destroyed,kept,(reclaims_each_once retired_and_destroyed s reached).2.1⟩
end World
end Narf.Rcu
