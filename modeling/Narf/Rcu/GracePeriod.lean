import Narf.Rcu.Reclaim

namespace Narf.Rcu
open Function (update update_of_ne update_self)
open Lib Lib.IntrusiveList List Option

/-! Grace-period safety. A reader that loaded a node keeps its CPU's `last_quiescent` where it was, which
    is at most the epoch at which the node is retired later; a drain frees only what was retired before
    the least `last_quiescent`. This needs a reader's CPU to be active when the reader loads, and no node
    to come to a bucket between a drain's scan and its detach. -/

variable {n : Nat}
def Frame.opens : Frame n → Nat
  | .code sections => sections.length
  | _ => 0
/-- `report_quiescent` or `report_idle` has found no reader. -/
def Frame.checked : Frame n → Bool
  | .quiescent_epoch => true
  | .quiescent_prev _ => true
  | .quiescent_store _ => true
  | .idle_store => true
  | _ => false
def Frame.defers : Frame n → Bool
  | .defer_epoch _ => true
  | .defer_splice _ _ => true
  | _ => false
/-- The epoch that the frame will report. -/
def Frame.now : Frame n → Option Nat
  | .quiescent_prev now => some now
  | .quiescent_store now => some now
  | _ => none
/-- How many CPUs a drain has scanned, and the least it found. -/
def Frame.scanned : Frame n → Option (Nat × Nat)
  | .drain_scan _ i min => some (i,min)
  | .drain_detach _ min => some (n,min)
  | _ => none
/-- The next access moves the global epoch. -/
def Frame.bumps : Frame n → Bool
  | .sync_publish => true
  | .advance_exchange _ => true
  | _ => false
/-- A frame of which nothing is to be known: no guard is open in it, it has not found the CPU without
    readers, it retires nothing, and a drain has scanned no CPU. -/
def Frame.plain : Frame n → Bool
  | .code sections => sections.isEmpty
  | .drain_scan _ i _ => i = 0
  | .drain_detach _ _ => false
  | f => !f.checked && !f.defers
/-- What `plain` rules out. -/
structure Frame.Idle (f : Frame n) : Prop where
  opens : f.opens = 0
  checked : f.checked = false
  defers : f.defers = false
  now : f.now = none
  scanned : ∀ x ∈ f.scanned, x.1 = 0
lemma Frame.idle_of_plain {f : Frame n} (plain : f.plain) : f.Idle := by
  have no_scan : ∀ x ∈ (none : Option (Nat × Nat)), x.1 = 0 := fun _ absent => (not_mem_none _ absent).elim
  cases f with
  | code sections => exact ⟨length_eq_zero_iff.mpr (isEmpty_iff.mp plain),rfl,rfl,rfl,no_scan⟩
  | drain_scan inline i min =>
    refine ⟨rfl,rfl,rfl,rfl,fun x same => ?_⟩
    rw [← some.inj same]
    exact of_decide_eq_true plain
  | quiescent_epoch | quiescent_prev | quiescent_store | idle_store | defer_epoch | defer_splice | drain_detach => cases plain
  | _ => exact ⟨rfl,rfl,rfl,rfl,no_scan⟩

def open_count (stack : List (Frame n)) : Nat := (stack.map Frame.opens).sum
/-- Below a frame that has found no reader no guard is open, and below a retirement no drain is between
    its scan and its detach. -/
def Clear : List (Frame n) → Prop
  | [] => True
  | f :: rest => (f.checked = true → open_count rest = 0) ∧ (f.defers = true → ∀ g ∈ rest, g.scanned = none) ∧ Clear rest

namespace World
variable {s t : World n} {c d : Fin n} {a : Node} {e : Event n}
/-- A reader on CPU `c` has loaded `a` under a guard that is still open. -/
def Holds (s : World n) (c : Fin n) (a : Node) : Prop := ∃ sections, .code sections ∈ s.stack c ∧ ∃ l ∈ sections, a ∈ l
/-- Readers load on active CPUs, no node is retired on a CPU between a drain's scan and its detach, and
    the epoch stays below the mark of inactive CPUs. -/
def Sheltered (s : World n) : Event n → Prop
  | .load c _ _ => s.last_quiescent c ≠ INACTIVE
  | .call c (.defer_node _) => ∀ g ∈ s.stack c, g.scanned = none
  | .step c _ => ∀ f ∈ (s.stack c).head?, f.bumps = true → s.epoch + 1 < INACTIVE
  | _ => True
instance (s : World n) : DecidablePred s.Sheltered := fun e => by
  unfold Sheltered; split <;> infer_instance

/-- What is known of the readers of a node on a list. -/
def Late (s : World n) : Label n → Node → Prop
  | .retiring epoch, a => ∀ E ∈ epoch, ∀ c, s.Holds c a → s.last_quiescent c ≤ E
  | .waiting _, a => ∀ c, s.Holds c a → s.last_quiescent c ≤ s.stamp a
  | .detached _ min, a => (∀ c, s.Holds c a → s.last_quiescent c ≤ s.stamp a) ∧ (s.stamp a < min → ∀ c, ¬s.Holds c a)
  | .expired, a => ∀ c, ¬s.Holds c a
structure Grace (s : World n) : Prop where
  count : ∀ c, s.active_readers c = open_count (s.stack c)
  clear : ∀ c, Clear (s.stack c)
  bound : s.epoch < INACTIVE
  below : ∀ c, s.last_quiescent c = INACTIVE ∨ s.last_quiescent c ≤ s.epoch
  seen : ∀ c, ∀ f ∈ s.stack c, ∀ now ∈ f.now, now ≤ s.epoch
  held : ∀ c a, s.Holds c a → s.last_quiescent c ≤ s.epoch ∧ s.status a ≠ .free
  scan : ∀ d, ∀ f ∈ s.stack d, ∀ x ∈ f.scanned, ∀ a, s.status a = .retired d → ∀ c, c.val < x.1 → s.Holds c a → x.2 ≤ s.stamp a
  owned : s.Owned Late

/-! ## One access -/
/-- What an access puts in the place of the top frame, and what it does to `last_quiescent` and the
    epoch. -/
inductive Turn (s : World n) (c : Fin n) : Frame n → List (Frame n) → (Fin n → Nat) → Nat → Prop
  | code {sections : List (List Node)} : Turn s c (.code sections) [.code sections] s.last_quiescent s.epoch
  | defer {node : Node} : Turn s c (.defer_epoch node) [.defer_splice node s.epoch] s.last_quiescent s.epoch
  | ask (no_reader : s.active_readers c = 0) : Turn s c .quiescent_readers [.quiescent_epoch] s.last_quiescent s.epoch
  | look : Turn s c .quiescent_epoch [.quiescent_prev s.epoch] s.last_quiescent s.epoch
  | behind {now : Nat} : Turn s c (.quiescent_prev now) [.quiescent_store now] s.last_quiescent s.epoch
  | report {now : Nat} :
      Turn s c (.quiescent_store now) [.drain_scan false 0 INACTIVE] (update s.last_quiescent c now) s.epoch
  | leave (no_reader : s.active_readers c = 0) :
      Turn s c .idle_readers [.drain_scan false 0 INACTIVE,.idle_store] s.last_quiescent s.epoch
  | idle : Turn s c .idle_store [] (update s.last_quiescent c INACTIVE) s.epoch
  | scan {inline : Bool} {i min : Nat} (h : i < n) :
      Turn s c (.drain_scan inline i min)
        [.drain_scan inline (i + 1) (if s.last_quiescent ⟨i,h⟩ < min then s.last_quiescent ⟨i,h⟩ else min)] s.last_quiescent s.epoch
  | scanned {inline : Bool} {i min : Nat} (h : ¬i < n) :
      Turn s c (.drain_scan inline i min) [.drain_detach inline min] s.last_quiescent s.epoch
  | bump {f : Frame n} {fs : List (Frame n)} (bumps : f.bumps = true) (plain : ∀ g ∈ fs, g.plain = true) :
      Turn s c f fs s.last_quiescent ((s.epoch + 1) % 2 ^ 64)
  | plain {f : Frame n} {fs : List (Frame n)} (closed : f.opens = 0) (plain : ∀ g ∈ fs, g.plain = true) :
      Turn s c f fs s.last_quiescent s.epoch

section Act
variable {choice : Bool} {f g : Frame n} {rest : List (Frame n)}
lemma act_readers : (s.act c choice f).1.active_readers = s.active_readers := by
  fun_cases World.act s c choice f <;> first | rfl | (split <;> rfl)
lemma act_turn (s : World n) (c : Fin n) (choice : Bool) (f : Frame n) :
    Turn s c f (s.act c choice f).2 (s.act c choice f).1.last_quiescent (s.act c choice f).1.epoch := by
  -- what the frame knows is in its own constructor; whatever else it leaves is plain
  have finish (inline : Bool) (ready : Option Node) : (.finish inline ready : Frame n).plain := by cases inline <;> rfl
  fun_cases World.act s c choice f
  all_goals dsimp only
  all_goals first | exact .code | exact .defer | exact .look | exact .report | exact .idle | exact .scan _ | exact .scanned ‹_› | skip
  all_goals try split
  all_goals first
    | exact .behind
    | exact .ask (by omega)
    | exact .leave (by omega)
    | exact .plain rfl (forall_mem_singleton.mpr (finish _ _))
    | exact .plain rfl (by simp [Frame.plain,Frame.checked,Frame.defers])
    | (subst_vars; exact .bump rfl (by simp [Frame.plain,Frame.checked,Frame.defers]))
variable {fs : List (Frame n)} {L : Fin n → Nat} {E : Nat}
lemma open_count_append (fs rest : List (Frame n)) : open_count (fs ++ rest) = open_count fs + open_count rest := by
  rw [open_count,map_append,sum_append]
  rfl
lemma open_le {sections : List (List Node)} (on : .code sections ∈ fs) : sections.length ≤ open_count fs := by
  obtain ⟨before,after,rfl⟩ := append_of_mem on
  rw [open_count_append]
  exact le_trans (Nat.le_add_right _ (open_count after)) (Nat.le_add_left _ _)
lemma open_count_plain (plain : ∀ g ∈ fs, g.plain) : open_count fs = 0 := by
  refine sum_eq_zero fun k inside => ?_
  obtain ⟨g,mem,rfl⟩ := mem_map.mp inside
  exact (Frame.idle_of_plain (plain g mem)).opens
lemma Turn.opens (turn : Turn s c f fs L E) : open_count fs = f.opens := by
  cases turn with
  | bump bumps plain => rw [open_count_plain plain]; cases f <;> first | rfl | cases bumps
  | plain closed plain => rw [open_count_plain plain,closed]
  | code => exact add_zero _
  | _ => rfl
lemma clear_plain (plain : ∀ g ∈ fs, g.plain) (clear : Clear rest) : Clear (fs ++ rest) := by
  induction fs with
  | nil => exact clear
  | cons g fs ih =>
    have idle := Frame.idle_of_plain (plain g mem_cons_self)
    refine ⟨fun checked => ?_,fun defers => ?_,ih fun h inside => plain h (mem_cons_of_mem _ inside)⟩
    · rw [idle.checked] at checked; cases checked
    · rw [idle.defers] at defers; cases defers
section
variable (turn : Turn s c f fs L E)
include turn
lemma Turn.clear (clear : Clear (f :: rest)) (count : s.active_readers c = open_count (f :: rest)) : Clear (fs ++ rest) := by
  have none_open : s.active_readers c = 0 → open_count rest = 0 := by
    intro no_reader
    rw [no_reader] at count
    exact (Nat.add_eq_zero_iff.mp count.symm).2
  obtain ⟨checked,defers,rest_clear⟩ := clear
  cases turn with
  | bump _ plain | plain _ plain => exact clear_plain plain rest_clear
  | code => exact ⟨checked,defers,rest_clear⟩
  | defer => exact ⟨fun bad => (by cases bad),fun _ => defers rfl,rest_clear⟩
  | ask no_reader => exact ⟨fun _ => none_open no_reader,fun bad => (by cases bad),rest_clear⟩
  | look | behind => exact ⟨fun _ => checked rfl,fun bad => (by cases bad),rest_clear⟩
  | report | scan | scanned => exact ⟨fun bad => (by cases bad),fun bad => (by cases bad),rest_clear⟩
  | leave no_reader =>
    exact ⟨fun bad => (by cases bad),fun bad => (by cases bad),fun _ => none_open no_reader,fun bad => (by cases bad),rest_clear⟩
  | idle => exact rest_clear
lemma Turn.code_mem {sections : List (List Node)} (new : .code sections ∈ fs) : sections = [] ∨ f = .code sections := by
  have of_plain : (∀ g ∈ fs, g.plain) → sections = [] := fun plain => isEmpty_iff.mp (plain _ new)
  cases turn with
  | bump _ plain | plain _ plain => exact .inl (of_plain plain)
  | code => exact .inr (mem_singleton.mp new).symm
  | leave _ => rcases mem_cons.mp new with bad | later <;> [cases bad; cases mem_singleton.mp later]
  | idle => exact (not_mem_nil new).elim
  | _ => cases mem_singleton.mp new
lemma Turn.last_quiescent : L = s.last_quiescent ∨ (f.checked ∧ ∀ d, d ≠ c → L d = s.last_quiescent d) ∧
      (L c = INACTIVE ∨ ∃ now ∈ f.now, L c = now) := by
  cases turn with
  | report => exact .inr ⟨⟨rfl,fun d other => update_of_ne other ..⟩,.inr ⟨_,rfl,update_self ..⟩⟩
  | idle => exact .inr ⟨⟨rfl,fun d other => update_of_ne other ..⟩,.inl (update_self ..)⟩
  | _ => exact .inl rfl
lemma Turn.epoch (bound : s.epoch < INACTIVE) (sheltered : f.bumps → s.epoch + 1 < INACTIVE) : s.epoch ≤ E ∧ E < INACTIVE := by
  cases turn with
  | bump bumps _ =>
    have small := sheltered bumps
    have word : s.epoch + 1 < 2 ^ 64 := lt_of_lt_of_le small (Nat.sub_le ..)
    rw [Nat.mod_eq_of_lt word]
    exact ⟨Nat.le_succ _,small⟩
  | _ => exact ⟨le_rfl,bound⟩
lemma Turn.now (new : g ∈ fs) {now : Nat} (sees : now ∈ g.now) : now ∈ f.now ∨ now = s.epoch := by
  have of_plain : (∀ g ∈ fs, g.plain) → now ∈ f.now ∨ now = s.epoch := by
    intro plain
    rw [(Frame.idle_of_plain (plain g new)).now] at sees
    cases sees
  cases turn with
  | bump _ plain | plain _ plain => exact of_plain plain
  | look => rw [mem_singleton.mp new] at sees; exact .inr (some.inj sees).symm
  | behind => rw [mem_singleton.mp new] at sees; exact .inl sees
  | leave _ => rcases mem_cons.mp new with rfl | later <;> [cases sees; (rw [mem_singleton.mp later] at sees; cases sees)]
  | idle => exact (not_mem_nil new).elim
  | _ => rw [mem_singleton.mp new] at sees; cases sees
/-- A drain that has scanned something has just scanned one CPU more, or scanned all before. -/
lemma Turn.scanned_mem (new : g ∈ fs) {x : Nat × Nat} (scan : x ∈ g.scanned) : x.1 = 0 ∨ ∃ i min, f.scanned = some (i,min) ∧ x.2 ≤ min ∧
      (∀ d : Fin n, d.val < x.1 → d.val < i ∨ x.2 ≤ s.last_quiescent d) := by
  have of_plain : (∀ g ∈ fs, g.plain) → x.1 = 0 := fun plain => (Frame.idle_of_plain (plain g new)).scanned x scan
  cases turn with
  | bump _ plain | plain _ plain => exact .inl (of_plain plain)
  | code | defer | ask | look | behind => rw [mem_singleton.mp new] at scan; cases scan
  | report => rw [mem_singleton.mp new] at scan; cases scan; exact .inl rfl
  | leave _ =>
    rcases mem_cons.mp new with rfl | later
    · cases scan; exact .inl rfl
    · rw [mem_singleton.mp later] at scan; cases scan
  | idle => exact (not_mem_nil new).elim
  | @scan inline i min h =>
    rw [mem_singleton.mp new] at scan
    cases scan
    refine .inr ⟨i,min,rfl,?_,fun d near => ?_⟩
    · show (if _ then _ else _) ≤ min
      split <;> omega
    · by_cases last : d.val = i
      · obtain rfl : d = ⟨i,h⟩ := Fin.ext last
        refine .inr ?_
        show (if _ then _ else _) ≤ _
        split <;> omega
      · exact .inl (Nat.lt_of_le_of_ne (Nat.lt_succ_iff.mp near) last)
  | @scanned inline i min h =>
    rw [mem_singleton.mp new] at scan
    cases scan
    exact .inr ⟨i,min,rfl,le_rfl,fun d _ => .inl (lt_of_lt_of_le d.isLt (Nat.le_of_not_lt h))⟩
end
end Act

/-! ## Every step -/
/-- What a step does to the stacks, to the epoch and to `last_quiescent`. -/
structure Shift (s : World n) (e : Event n) (t : World n) : Prop where
  count : ∀ c, t.active_readers c = open_count (t.stack c)
  clear : ∀ c, Clear (t.stack c)
  epoch : s.epoch ≤ t.epoch
  bound : t.epoch < INACTIVE
  below : ∀ c, t.last_quiescent c = INACTIVE ∨ t.last_quiescent c ≤ t.epoch
  seen : ∀ c, ∀ f ∈ t.stack c, ∀ now ∈ f.now, now ≤ t.epoch
  holds : ∀ c a, t.Holds c a → s.Holds c a ∨ ∃ i, e = .load c i a ∧ s.status a = .linked
  quiet : ∀ c a, t.Holds c a → t.last_quiescent c = s.last_quiescent c
  scans : ∀ d, ∀ g ∈ t.stack d, ∀ x ∈ g.scanned, x.1 = 0 ∨ ∃ f ∈ s.stack d, ∃ i min, f.scanned = some (i,min) ∧ x.2 ≤ min ∧
    ∀ c : Fin n, c.val < x.1 → c.val < i ∨ x.2 ≤ s.last_quiescent c

variable {f : Frame n} {rest : List (Frame n)} {Q : World n → Label n → Node → Prop}
lemma scans_old (on : f ∈ s.stack d) {x : Nat × Nat} (scan : x ∈ f.scanned) :
    x.1 = 0 ∨ ∃ f ∈ s.stack d, ∃ i min, f.scanned = some (i,min) ∧ x.2 ≤ min ∧
      ∀ c : Fin n, c.val < x.1 → c.val < i ∨ x.2 ≤ s.last_quiescent c :=
  .inr ⟨f,on,x.1,x.2,scan,le_rfl,fun _ near => .inl near⟩
section Restack
variable {old new tail : List (Frame n)}
lemma mem_restack {g : Frame n} (before : s.stack c = old ++ tail) (stack : t.stack = update s.stack c (new ++ tail))
    (on : g ∈ t.stack d) : (d = c ∧ g ∈ new) ∨ g ∈ s.stack d := by
  rw [stack] at on
  by_cases same : d = c
  · subst same
    rw [update_self,mem_append] at on
    exact on.imp (fun fresh => ⟨rfl,fresh⟩) fun kept => before ▸ mem_append_right _ kept
  · rw [update_of_ne same] at on
    exact .inr on
lemma Grace.counts (grace : s.Grace) (stack : t.stack = update s.stack c new)
    (readers : ∀ d, d ≠ c → t.active_readers d = s.active_readers d) (count : t.active_readers c = open_count new) :
    ∀ d, t.active_readers d = open_count (t.stack d) := by
  rw [stack]
  exact (Function.forall_update_iff s.stack fun d l => t.active_readers d = open_count l).mpr
    ⟨count,fun d other => (readers d other).trans (grace.count d)⟩
lemma Grace.clears (grace : s.Grace) (stack : t.stack = update s.stack c new) (clear : Clear new) : ∀ d, Clear (t.stack d) := by
  rw [stack]
  exact (Function.forall_update_iff s.stack fun _ => Clear).mpr ⟨clear,fun d _ => grace.clear d⟩
end Restack
/-- The code on top of `c` moves, or calls or is interrupted. -/
lemma Grace.restack (old new : List (Frame n)) {tail : List (Frame n)} (grace : s.Grace) (before : s.stack c = old ++ tail)
    (stack : t.stack = update s.stack c (new ++ tail)) (epoch : t.epoch = s.epoch)
    (last : t.last_quiescent = s.last_quiescent) (readers : ∀ d, d ≠ c → t.active_readers d = s.active_readers d)
    (count : t.active_readers c = open_count (new ++ tail)) (clear : Clear (new ++ tail))
    (quiet : ∀ g ∈ new, g.now = none ∧ g.scanned = none)
    (holds : ∀ sections, .code sections ∈ new → ∀ l ∈ sections, ∀ a ∈ l, s.Holds c a ∨ ∃ i, e = .load c i a ∧ s.status a = .linked) :
    Shift s e t := by
  refine ⟨grace.counts stack readers count,grace.clears stack clear,by rw [epoch],by rw [epoch]; exact grace.bound,
    fun d => by rw [last,epoch]; exact grace.below d,fun d f on now sees => ?_,fun d a held => ?_,fun d _ _ => by rw [last],
    fun d g on x scan => ?_⟩
  · rw [epoch]
    rcases mem_restack before stack on with ⟨_,fresh⟩ | old
    · rw [(quiet f fresh).1] at sees
      cases sees
    · exact grace.seen d f old now sees
  · obtain ⟨sections,on,l,inside,mem⟩ := held
    rcases mem_restack before stack on with ⟨rfl,fresh⟩ | old
    · exact holds sections fresh l inside a mem
    · exact .inl ⟨sections,old,l,inside,mem⟩
  · rcases mem_restack before stack on with ⟨_,fresh⟩ | old
    · rw [(quiet g fresh).2] at scan
      cases scan
    · exact scans_old old scan
lemma Turn.shift {fs : List (Frame n)} {L : Fin n → Nat} {E : Nat} {choice : Bool} (turn : Turn s c f fs L E)
    (grace : s.Grace) (before : s.stack c = f :: rest) (sheltered : f.bumps → s.epoch + 1 < INACTIVE)
    (stack : t.stack = update s.stack c (fs ++ rest)) (last : t.last_quiescent = L) (epoch : t.epoch = E)
    (readers : t.active_readers = s.active_readers) : Shift s (.step c choice) t := by
  obtain ⟨grows,bound⟩ := turn.epoch grace.bound sheltered
  have clear := grace.clear c
  have count := grace.count c
  rw [before] at clear count
  have top : f ∈ s.stack c := by rw [before]; exact mem_cons_self
  have split : s.stack c = [f] ++ rest := before
  have frames {d : Fin n} {g : Frame n} (on : g ∈ t.stack d) : (d = c ∧ g ∈ fs) ∨ g ∈ s.stack d := mem_restack split stack on
  have holds : ∀ d a, t.Holds d a → s.Holds d a := by
    rintro d a ⟨sections,on,l,inside,mem⟩
    rcases frames on with ⟨rfl,fresh⟩ | old
    · rcases turn.code_mem fresh with rfl | same
      · exact (not_mem_nil inside).elim
      · exact ⟨sections,same ▸ top,l,inside,mem⟩
    · exact ⟨sections,old,l,inside,mem⟩
  -- where `last_quiescent` is written no guard is open
  have quiet : ∀ d a, t.Holds d a → t.last_quiescent d = s.last_quiescent d := by
    intro d a held
    rw [last]
    rcases turn.last_quiescent with same | ⟨⟨checked,others⟩,_⟩
    · rw [same]
    · by_cases same : d = c
      · subst same
        obtain ⟨sections,on,l,inside,_⟩ := held
        have closed : open_count (fs ++ rest) = 0 := by
          rw [open_count_append,turn.opens,clear.1 checked]
          cases f <;> first | rfl | cases checked
        rw [stack,update_self] at on
        have none : sections.length = 0 := by
          have le := open_le on
          rw [closed] at le
          exact Nat.le_zero.mp le
        rw [length_eq_zero_iff.mp none] at inside
        exact (not_mem_nil inside).elim
      · exact others d same
  refine ⟨grace.counts stack (fun d _ => by rw [readers]) ?_,grace.clears stack (turn.clear clear count),by rw [epoch]; exact grows,
    by rw [epoch]; exact bound,fun d => ?_,fun d g on now sees => ?_,fun d a held => .inl (holds d a held),quiet,
    fun d g on x scan => ?_⟩
  · rw [readers,open_count_append,turn.opens,count]
    rfl
  · rw [last,epoch]
    have old : s.last_quiescent d = INACTIVE ∨ s.last_quiescent d ≤ E := (grace.below d).imp_right fun le => le_trans le grows
    rcases turn.last_quiescent with same | ⟨⟨_,others⟩,new⟩
    · rw [same]
      exact old
    · by_cases same : d = c
      · rw [same]
        rcases new with inactive | ⟨now,sees,is⟩
        · exact .inl inactive
        · rw [is]
          exact .inr (le_trans (grace.seen c f top now sees) grows)
      · rw [others d same]
        exact old
  · rw [epoch]
    rcases frames on with ⟨rfl,fresh⟩ | old
    · rcases turn.now fresh sees with old | rfl
      · exact le_trans (grace.seen d f top now old) grows
      · exact grows
    · exact le_trans (grace.seen d g old now sees) grows
  · rcases frames on with ⟨rfl,fresh⟩ | old
    · exact (turn.scanned_mem fresh scan).imp_right fun known => ⟨f,top,known⟩
    · exact scans_old old scan
lemma mem_modify {sections : List (List Node)} {i : Nat} {l : List Node} (inside : l ∈ sections.modify i (a :: ·)) :
    l ∈ sections ∨ ∃ k ∈ sections, l = a :: k := by
  induction sections generalizing i with
  | nil => cases i <;> exact .inl inside
  | cons k sections ih =>
    cases i with
    | zero =>
      rcases mem_cons.mp inside with rfl | later
      · exact .inr ⟨k,mem_cons_self,rfl⟩
      · exact .inl (mem_cons_of_mem _ later)
    | succ i =>
      rcases mem_cons.mp inside with rfl | later
      · exact .inl mem_cons_self
      · rcases ih later with old | ⟨k,old,same⟩
        · exact .inl (mem_cons_of_mem _ old)
        · exact .inr ⟨k,mem_cons_of_mem _ old,same⟩
lemma Grace.still (grace : s.Grace) (stack : t.stack = s.stack) (epoch : t.epoch = s.epoch) (last : t.last_quiescent = s.last_quiescent)
    (readers : t.active_readers = s.active_readers) : Shift s e t := by
  refine ⟨fun d => by rw [readers,stack]; exact grace.count d,fun d => by rw [stack]; exact grace.clear d,by rw [epoch],
    by rw [epoch]; exact grace.bound,fun d => by rw [last,epoch]; exact grace.below d,fun d => by rw [stack,epoch]; exact grace.seen d,
    fun d a held => .inl ?_,fun d _ _ => by rw [last],fun d g on x scan => scans_old (by rw [stack] at on; exact on) scan⟩
  rw [Holds,stack] at held
  exact held
lemma Grace.shift (grace : s.Grace) (taken : s.Taken e t) (sheltered : s.Sheltered e) : Shift s e t := by
  have code : ∀ (sections : List (List Node)) (g : Frame n), g ∈ ([.code sections] : List (Frame n)) → g.now = none ∧ g.scanned = none :=
    fun sections g inside => by rw [mem_singleton.mp inside]; exact ⟨rfl,rfl⟩
  have mine : ∀ {c : Fin n} {sections : List (List Node)} {rest : List (Frame n)}, s.stack c = .code sections :: rest →
      ∀ l ∈ sections, ∀ a ∈ l, s.Holds c a :=
    fun stack l inside a mem => ⟨_,by rw [stack]; exact mem_cons_self,l,inside,mem⟩
  have clear {c : Fin n} {l : List (Frame n)} (stack : s.stack c = l) : Clear l := stack ▸ grace.clear c
  have count {c : Fin n} {l : List (Frame n)} (stack : s.stack c = l) : s.active_readers c = open_count l := stack ▸ grace.count c
  have clear_code {sections : List (List Node)} {l : List (Frame n)} (below : Clear l) : Clear (.code sections :: l) :=
    ⟨fun bad => (by cases bad),fun bad => (by cases bad),below⟩
  cases taken with
  | @interrupt c f rest stack _ =>
    refine grace.restack [] [.code []] stack rfl rfl rfl (fun _ _ => rfl) ?_ (clear_code (clear stack)) (code []) ?_
    · exact (count stack).trans (zero_add _).symm
    · intro sections same l inside
      cases mem_singleton.mp same
      exact (not_mem_nil inside).elim
  | @finish c f rest stack =>
    refine grace.restack [.code []] [] stack rfl rfl rfl (fun _ _ => rfl) ?_ (clear stack).2.2 ?_ ?_
    · exact (count stack).trans (zero_add _)
    · exact fun g inside => (not_mem_nil inside).elim
    · exact fun _ inside => (not_mem_nil inside).elim
  | @pin c sections rest stack =>
    refine grace.restack [.code sections] [.code ([] :: sections)] stack rfl rfl rfl
      (fun d other => update_of_ne other ..) ?_ (clear_code (clear stack).2.2) (code _) ?_
    · show update s.active_readers c _ c = sections.length + 1 + open_count rest
      rw [update_self,count stack]
      show sections.length + open_count rest + 1 = _
      omega
    · intro now same l inside a mem
      cases mem_singleton.mp same
      rcases mem_cons.mp inside with rfl | later
      · exact (not_mem_nil mem).elim
      · exact .inl (mine stack l later a mem)
  | @unpin c i sections rest stack near =>
    refine grace.restack [.code sections] [.code (sections.eraseIdx i)] stack rfl rfl rfl
      (fun d other => update_of_ne other ..) ?_ (clear_code (clear stack).2.2) (code _) ?_
    · show update s.active_readers c _ c = (sections.eraseIdx i).length + open_count rest
      rw [update_self,count stack,length_eraseIdx_of_lt near]
      show sections.length + open_count rest - 1 = _
      omega
    · intro now same l inside a mem
      cases mem_singleton.mp same
      exact .inl (mine stack l (mem_of_mem_eraseIdx inside) a mem)
  | @load c i b sections rest stack linked =>
    refine grace.restack [.code sections] [.code (sections.modify i (b :: ·))] stack rfl rfl rfl
      (fun _ _ => rfl) ?_ (clear_code (clear stack).2.2) (code _) ?_
    · show s.active_readers c = (sections.modify i (b :: ·)).length + open_count rest
      rw [count stack,length_modify]
      rfl
    · intro now same l inside a mem
      cases mem_singleton.mp same
      rcases mem_modify inside with old | ⟨k,old,rfl⟩
      · exact .inl (mine stack l old a mem)
      · rcases mem_cons.mp mem with rfl | earlier
        · exact .inr ⟨i,rfl,linked⟩
        · exact .inl (mine stack k old a earlier)
  | link | unlink | set_reclaim_offload | clear_reclaim_offload => exact grace.still rfl rfl rfl rfl
  | @defer c b sections rest stack _ =>
    refine grace.restack [] [.defer_epoch b] stack rfl rfl rfl (fun _ _ => rfl) ?_ ⟨fun bad => (by cases bad),fun _ => ?_,clear stack⟩ ?_ ?_
    · exact (count stack).trans (zero_add _).symm
    · exact stack ▸ (sheltered : ∀ g ∈ s.stack c, g.scanned = none)
    · intro g inside
      rw [mem_singleton.mp inside]
      exact ⟨rfl,rfl⟩
    · intro _ same
      cases mem_singleton.mp same
  | @call c op sections rest stack other =>
    have entered : op.enter.opens = 0 ∧ op.enter.checked = false ∧ op.enter.defers = false ∧ op.enter.now = none ∧
        op.enter.scanned = none := by
      cases op with
      | defer_node b => exact absurd rfl (other b)
      | _ => exact ⟨rfl,rfl,rfl,rfl,rfl⟩
    obtain ⟨opens,checked,defers,now,scanned⟩ := entered
    refine grace.restack [] [op.enter] stack rfl rfl rfl (fun _ _ => rfl) ?_ ?_ ?_ ?_
    · show s.active_readers c = op.enter.opens + open_count (.code sections :: rest)
      rw [count stack,opens,zero_add]
    · exact ⟨fun bad => (by rw [checked] at bad; cases bad),fun bad => (by rw [defers] at bad; cases bad),clear stack⟩
    · intro g inside
      rw [mem_singleton.mp inside]
      exact ⟨now,scanned⟩
    · intro sections same l inside
      rw [← mem_singleton.mp same] at opens
      rw [length_eq_zero_iff.mp opens] at inside
      exact (not_mem_nil inside).elim
  | @step c choice f rest stack =>
    refine (act_turn s c choice f).shift grace stack ?_ ?_ rfl rfl act_readers
    · exact fun bumps => sheltered f (by rw [stack]; rfl) bumps
    · show update (s.act c choice f).1.stack c _ = _
      rw [act_stack]

/-! ## The life of a node -/
lemma stamp_of_step (taken : s.Taken e t) (a : Node) :
    t.stamp a = s.stamp a ∨ ∃ c choice epoch rest, e = .step c choice ∧ s.stack c = .defer_splice a epoch :: rest ∧
      t.stamp a = epoch ∧ t.status a = .retired c := by
  cases taken with
  | @step c choice f rest stack =>
    by_cases splices : ∃ b epoch, f = .defer_splice b epoch
    · obtain ⟨b,epoch,rfl⟩ := splices
      by_cases same : a = b
      · subst same
        exact .inr ⟨c,choice,epoch,rest,rfl,stack,update_self ..,update_self ..⟩
      · exact .inl (update_of_ne same ..)
    · refine .inl ?_
      by_cases drops : ∃ b, f = .run (some b)
      · obtain ⟨b,rfl⟩ := drops
        rfl
      · exact congrFun (act_calm _ (fun b epoch same => splices ⟨b,epoch,same⟩) fun b same => drops ⟨b,same⟩).2.1 a
  | _ => exact .inl rfl
lemma status_of_step (taken : s.Taken e t) (a : Node) :
    t.status a = s.status a ∨ t.status a = .linked ∨ t.status a = .unlinked ∨ t.status a = .retiring ∨
      (∃ c choice epoch rest, e = .step c choice ∧ s.stack c = .defer_splice a epoch :: rest ∧ t.status a = .retired c) ∨
      ∃ c choice rest, e = .step c choice ∧ s.stack c = .run (some a) :: rest ∧ t.status a = .free := by
  have update : ∀ (b : Node) (x : Status n), update s.status b x a = s.status a ∨ update s.status b x a = x := by
    intro b x
    by_cases same : a = b
    · rw [same,update_self]
      exact .inr rfl
    · rw [update_of_ne same]
      exact .inl rfl
  cases taken with
  | @link b _ => exact (update b .linked).imp_right .inl
  | @unlink b _ => exact (update b .unlinked).imp_right fun is => .inr (.inl is)
  | @defer c b _ _ _ _ => exact (update b .retiring).imp_right fun is => .inr (.inr (.inl is))
  | @step c choice f rest stack =>
    by_cases splices : ∃ b epoch, f = .defer_splice b epoch
    · obtain ⟨b,epoch,rfl⟩ := splices
      by_cases same : a = b
      · subst same
        exact .inr (.inr (.inr (.inr (.inl ⟨c,choice,epoch,rest,rfl,stack,update_self ..⟩))))
      · exact .inl (update_of_ne same ..)
    · by_cases drops : ∃ b, f = .run (some b)
      · obtain ⟨b,rfl⟩ := drops
        by_cases same : a = b
        · subst same
          exact .inr (.inr (.inr (.inr (.inr ⟨c,choice,rest,rfl,stack,update_self ..⟩))))
        · exact .inl (update_of_ne same ..)
      · exact .inl (congrFun (act_calm _ (fun b epoch same => splices ⟨b,epoch,same⟩) fun b same => drops ⟨b,same⟩).1 a)
  | _ => exact .inl rfl
lemma Owned.first_root {r : Root Node (Label n)}
    {rs : List (Root Node (Label n))} (owned : s.Owned Q) (stack : s.stack c = f :: rest) (roots : f.roots c = r :: rs) :
    ∃ l, r.Has s.next (fun ℓ a => s.Fits ℓ a ∧ Q s ℓ a) l := by
  obtain ⟨nodes,pool,_⟩ := owned.pool
  rw [(step_roots false stack).1,roots] at pool
  obtain ⟨l,_,has,_⟩ := pool_cons.mp pool
  exact ⟨l,has⟩
lemma Owned.splicing {epoch : Nat} (owned : s.Owned Q)
    (stack : s.stack c = .defer_splice a epoch :: rest) : s.status a = .retiring ∧ Q s (.retiring (some epoch)) a := by
  obtain ⟨l,has⟩ := owned.first_root stack rfl
  obtain rfl : l = [a] := has.shape
  exact has.label a (mem_singleton.mpr rfl)
lemma Owned.dropping (owned : s.Owned Q) (stack : s.stack c = .run (some a) :: rest) : Q s .expired a := by
  obtain ⟨l,has⟩ := owned.first_root stack rfl
  have label := has.label
  cases l with
  | nil => cases has.shape
  | cons b l =>
    obtain rfl : a = b := some.inj has.shape.1
    exact (label a mem_cons_self).2
/-- A reader of a retired node was there before. -/
lemma Grace.late (grace : s.Grace) (retired : s.status a = .retired d) (held : s.Holds c a) : s.last_quiescent c ≤ s.stamp a := by
  obtain ⟨nodes,pool,listed⟩ := grace.owned.pool
  obtain ⟨ℓ,fits,late⟩ := pool.label_of_mem ((listed a).mpr (by rw [retired]; rfl))
  cases ℓ with
  | retiring epoch => rw [Fits,retired] at fits; cases fits
  | waiting c' => exact late c held
  | detached c' min => exact late.1 c held
  | expired => exact absurd held (late c)

/-! ## Every run -/
lemma Grace.carries (grace : s.Grace) (taken : s.Taken e t) (shift : Shift s e t) : Carries Late s e t := by
  -- what a listed node's readers were, they are
  have readers : ∀ {c a}, s.status a ≠ .linked → t.Holds c a → s.Holds c a ∧ t.last_quiescent c = s.last_quiescent c := by
    intro c a off held
    rcases shift.holds c a held with old | ⟨_,_,linked⟩
    · exact ⟨old,shift.quiet c a held⟩
    · exact absurd linked off
  have stepping : ∀ {c choice d a}, e = .step c choice → t.Holds d a → s.Holds d a ∧ t.last_quiescent d = s.last_quiescent d := by
    rintro c choice d a rfl held
    rcases shift.holds d a held with old | ⟨_,bad,_⟩
    · exact ⟨old,shift.quiet d a held⟩
    · cases bad
  have not_linked : ∀ {ℓ : Label n} {a}, s.Fits ℓ a → s.status a ≠ .linked := by
    intro ℓ a fits linked
    cases ℓ with
    | retiring | waiting | detached => rw [Fits,linked] at fits; cases fits
    | expired => obtain ⟨d,is⟩ := fits; rw [linked] at is; cases is
  refine ⟨?_,?_,?_,?_,?_,?_,?_⟩
  · intro ℓ a fits same late
    have off := not_linked fits
    have stamp : t.stamp a = s.stamp a := by
      rcases stamp_of_step taken a with kept | ⟨c,_,_,_,_,stack,_,now⟩
      · exact kept
      · rw [same,(grace.owned.splicing stack).1] at now
        cases now
    cases ℓ with
    | retiring epoch =>
      intro E is c held
      rw [(readers off held).2]
      exact late E is c (readers off held).1
    | waiting d =>
      intro c held
      rw [stamp,(readers off held).2]
      exact late c (readers off held).1
    | detached d min =>
      refine ⟨fun c held => ?_,fun early c held => ?_⟩
      · rw [stamp,(readers off held).2]
        exact late.1 c (readers off held).1
      · rw [stamp] at early
        exact late.2 early c (readers off held).1
    | expired => exact fun c held => late c (readers off held).1
  · intro c a _ E bad
    cases bad
  · intro c choice a rest is stack _ E same d held
    rw [← some.inj same,(stepping is held).2]
    exact (grace.held d a (stepping is held).1).1
  · intro c choice a epoch rest is stack late d held
    subst is
    have stamp : t.stamp a = epoch := by
      rcases stamp_of_step taken a with kept | ⟨_,_,_,_,same,stack',now,_⟩
      · cases taken with
        | step stack' =>
          rw [stack] at stack'
          cases stack'
          exact update_self ..
      · cases same
        rw [stack] at stack'
        cases stack'
        exact now
    rw [stamp,(stepping rfl held).2]
    exact late epoch rfl d (stepping rfl held).1
  · intro c choice inline min rest a is stack fits late
    subst is
    refine ⟨late,fun early d held => ?_⟩
    have old := (stepping rfl held).1
    have top : .drain_detach inline min ∈ s.stack c := by rw [stack]; exact mem_cons_self
    have same : t.status a = s.status a ∧ t.stamp a = s.stamp a := by
      cases taken with
      | step stack' =>
        rw [stack] at stack'
        cases stack'
        exact ⟨rfl,rfl⟩
    have retired : s.status a = .retired c := same.1.symm.trans fits
    have scanned := grace.scan c _ top (n,min) rfl a retired d d.isLt old
    rw [same.2] at early
    exact absurd scanned (Nat.not_le.mpr early)
  · exact fun c min a early late => late.2 early
  · exact fun c min a late => late.1
lemma Grace.step (grace : s.Grace) (sheltered : s.Sheltered e) (happened : s.step e = some t) : t.Grace := by
  have taken := taken_of_step happened
  have shift := grace.shift taken sheltered
  refine ⟨shift.count,shift.clear,shift.bound,shift.below,shift.seen,?_,?_,grace.owned.step happened (grace.carries taken shift)⟩
  · intro c a held
    rcases shift.holds c a held with old | ⟨i,rfl,linked⟩
    · obtain ⟨le,alive⟩ := grace.held c a old
      refine ⟨by rw [shift.quiet c a held]; exact le_trans le shift.epoch,fun free => ?_⟩
      rcases status_of_step taken a with same | is | is | is | ⟨_,_,_,_,_,_,is⟩ | ⟨d,_,_,_,stack,_⟩
      · exact alive (same.symm.trans free)
      · rw [free] at is; cases is
      · rw [free] at is; cases is
      · rw [free] at is; cases is
      · rw [free] at is; cases is
      · exact grace.owned.dropping stack c old
    · have active : s.last_quiescent c ≠ INACTIVE := sheltered
      rw [shift.quiet c a held]
      refine ⟨le_trans ((grace.below c).resolve_left active) shift.epoch,fun free => ?_⟩
      cases taken with
      | load _ _ => exact absurd (linked.symm.trans free) (fun bad => (by cases bad))
  · intro d g on x scan a retired c near held
    rcases shift.scans d g on x scan with zero | ⟨f,old,i,min,known,less,covered⟩
    · omega
    · -- a node that came to the bucket just now came below no such drain
      have fresh : ∀ epoch rest, s.stack d ≠ .defer_splice a epoch :: rest := by
        intro epoch rest stack
        have clear := grace.clear d
        rw [stack] at clear old
        rcases mem_cons.mp old with rfl | under
        · cases known
        · rw [clear.2.1 rfl f under] at known
          cases known
      have was : s.status a = .retired d := by
        rcases status_of_step taken a with same | is | is | is | ⟨c',_,epoch,rest,_,stack,is⟩ | ⟨_,_,_,_,_,is⟩
        · exact same.symm.trans retired
        · rw [retired] at is; cases is
        · rw [retired] at is; cases is
        · rw [retired] at is; cases is
        · rw [retired] at is
          cases is
          exact absurd stack (fresh epoch rest)
        · rw [retired] at is; cases is
      have stamp : t.stamp a = s.stamp a := by
        rcases stamp_of_step taken a with kept | ⟨c',_,_,_,_,stack,_,_⟩
        · exact kept
        · have bad := (grace.owned.splicing stack).1
          rw [was] at bad
          cases bad
      have before : s.Holds c a := by
        rcases shift.holds c a held with kept | ⟨_,_,linked⟩
        · exact kept
        · rw [was] at linked; cases linked
      rw [stamp]
      rcases covered c near with earlier | least
      · exact le_trans less (grace.scan d f old (i,min) known a was c earlier before)
      · exact le_trans least (grace.late was before)
lemma grace_new : (new : World n).Grace := by
  have idle : ∀ (c : Fin n) (f : Frame n), f ∈ (new : World n).stack c → f = .code [] := fun c f on => mem_singleton.mp on
  have none : ∀ c a, ¬(new : World n).Holds c a := by
    rintro c a ⟨sections,on,l,inside,_⟩
    cases idle c _ on
    exact not_mem_nil inside
  refine ⟨fun _ => rfl,fun _ => ⟨fun bad => (by cases bad),fun bad => (by cases bad),trivial⟩,(by decide : 1 < INACTIVE),fun _ => .inl rfl,
    fun c f on now sees => ?_,fun c a held => absurd held (none c a),fun d f on x scan => ?_,owned_new⟩
  · rw [idle c f on] at sees; cases sees
  · rw [idle d f on] at scan; cases scan
/-- In every run whose steps are sheltered, what a reader has loaded under a guard that is still open is
    not destroyed. -/
theorem readers_keep_nodes (es : List (Event n)) (s : World n) (meets : Runs.Meets step Sheltered new es)
    (reached : Runs.run step new es = some s) (c : Fin n) (a : Node) (held : s.Holds c a) : s.status a ≠ .free :=
  ((Runs.invariant_of_meets (I := Grace) (fun _ _ _ grace sheltered taken => grace.step sheltered taken) grace_new meets reached).held
    c a held).2
/-- CPU 1 is active, loads a node under a guard, and the node is retired while CPU 0 ends a grace period as
    far as it can. -/
def reader_waits : List (Event 2) :=
  [.link 7,.call 1 .report_quiescent] ++ List.replicate 10 (.step 1 false) ++ [.pin 1,.load 1 0 7,.unlink 7,.call 0 (.defer_node 7)] ++
    List.replicate 2 (.step 0 false) ++ [.call 0 .report_quiescent] ++ List.replicate 12 (.step 0 false)
theorem readers_keep_nodes_waits : ∃ s : World 2, Runs.run step new reader_waits = some s ∧ s.Holds 1 7 ∧ s.status 7 ≠ .free := by
  have runs : (Runs.run step (new : World 2) reader_waits).map (fun s => s.stack 1) = some [.code [[7]]] := by decide +kernel
  obtain ⟨s,reached,stack⟩ := map_eq_some_iff.mp runs
  have held : s.Holds 1 7 := ⟨[[7]],by rw [stack]; exact mem_cons_self,[7],mem_cons_self,mem_cons_self⟩
  exact ⟨s,reached,held,readers_keep_nodes reader_waits s (by decide +kernel) reached 1 7 held⟩
/-- CPU 1 is inactive and loads a node; CPU 0 unlinks and retires it and ends a grace period. -/
def inactive_reader : List (Event 2) :=
  [.link 7,.pin 1,.load 1 0 7,.unlink 7,.call 0 (.defer_node 7)] ++ List.replicate 2 (.step 0 false) ++ [.call 0 .sync_until] ++
    List.replicate 15 (.step 0 false)
/-- CPU 0 has scanned both CPUs while they are inactive; CPU 1 becomes active and loads a node, and an
    interrupt on CPU 0 retires it before the detach. -/
def interrupted_drain : List (Event 2) :=
  [.link 7,.call 0 .report_idle] ++ List.replicate 3 (.step 0 false) ++ [.call 1 .report_quiescent] ++ List.replicate 10 (.step 1 false) ++
    [.pin 1,.load 1 0 7,.interrupt 0,.unlink 7,.call 0 (.defer_node 7)] ++ List.replicate 2 (.step 0 false) ++ [.finish 0] ++
    List.replicate 6 (.step 0 false)
theorem readers_lose_nodes :
    (∃ s : World 2, Runs.run step new inactive_reader = some s ∧ s.stack 1 = [.code [[7]]] ∧ s.status 7 = .free ∧ s.destroyed 7 = 1) ∧
    (∃ s : World 2, Runs.run step new interrupted_drain = some s ∧ s.stack 1 = [.code [[7]]] ∧ s.status 7 = .free ∧ s.destroyed 7 = 1) := by
  have first : (Runs.run step (new : World 2) inactive_reader).map (fun s => (s.stack 1,s.status 7,s.destroyed 7)) =
      some ([.code [[7]]],.free,1) := by decide +kernel
  have second : (Runs.run step (new : World 2) interrupted_drain).map (fun s => (s.stack 1,s.status 7,s.destroyed 7)) =
      some ([.code [[7]]],.free,1) := by decide +kernel
  obtain ⟨s,reached,facts⟩ := map_eq_some_iff.mp first
  obtain ⟨t,reached',facts'⟩ := map_eq_some_iff.mp second
  simp only [Prod.mk.injEq] at facts facts'
  exact ⟨⟨s,reached,facts⟩,⟨t,reached',facts'⟩⟩
end World
end Narf.Rcu
