import Narf.Lib.Runs

/-! Advisory record locks of one file: the flat table of held ranges, and the map from bytes to modes it stands for. -/
namespace Narf.Userspace.RecordLocks
open Narf.Lib List

def I64_MAX : Int := 2 ^ 63 - 1
def I64_MIN : Int := -2 ^ 63
def saturating (v : Int) : Int := max I64_MIN (min v I64_MAX)
inductive LockKind where
  | Posix | Ofd
deriving DecidableEq
inductive LockType where
  | F_RDLCK | F_WRLCK | F_UNLCK
deriving DecidableEq
structure Lock where
  owner : Nat
  kind : LockKind
  ty : LockType
  start : Int
  len : Int
deriving DecidableEq

namespace Lock
def last (l : Lock) : Int := if l.len = 0 then I64_MAX else saturating (saturating (l.start + l.len) - 1)
def overlaps (l other : Lock) : Bool := l.start ≤ other.last && other.start ≤ l.last
def holder (l : Lock) : LockKind × Nat := (l.kind,l.owner)
def same_owner (l other : Lock) : Bool := l.holder = other.holder
def conflicts (l other : Lock) : Bool :=
  if l.same_owner other then false
  else if !l.overlaps other then false
  else l.ty = .F_WRLCK || other.ty = .F_WRLCK
def dropped_by (req l : Lock) : Bool := l.same_owner req && l.overlaps req
end Lock
abbrev Bucket := List Lock
def try_set (bucket : Bucket) (req : Lock) : Except Lock Bucket :=
  if req.ty = .F_UNLCK then .ok (bucket.filter (fun l => !req.dropped_by l))
  else
    match bucket.find? (fun l => l.conflicts req) with
    | some l => .error l
    | none => .ok (bucket.filter (fun l => !req.dropped_by l) ++ [req])
def refused (bucket : Bucket) (req : Lock) : Bool :=
  match try_set bucket req with
  | .ok _ => false
  | .error _ => true
def probe (bucket : Bucket) (req : Lock) : Option Lock := bucket.find? (fun l => l.conflicts req)

/-! ### The system call -/
inductive Errno where
  | EINVAL | EOVERFLOW | EBADF | EAGAIN
deriving DecidableEq
/-- The user's `struct flock`, with the command and what the descriptor supplies. -/
structure Request where
  is_getlk : Bool
  is_ofd : Bool
  task : Nat
  description : Nat
  offset : Int
  size : Int
  readable : Bool
  writable : Bool
  l_type : Int
  l_whence : Int
  l_start : Int
  l_len : Int
  l_pid : Int

def Request.origin (r : Request) : Except Errno Int :=
  if r.l_whence = 0 then .ok 0
  else if r.l_whence = 1 then .ok r.offset
  else if r.l_whence = 2 then .ok r.size
  else .error .EINVAL
def Request.type (r : Request) : Except Errno LockType :=
  if r.l_type = 0 then .ok .F_RDLCK
  else if r.l_type = 1 then .ok .F_WRLCK
  else if r.l_type = 2 then .ok .F_UNLCK
  else .error .EINVAL
/-- The range checks, in the code's order. -/
def Request.range (r : Request) (abs_start : Int) : Except Errno Unit :=
  if ¬(I64_MIN ≤ abs_start ∧ abs_start ≤ I64_MAX) then .error .EOVERFLOW
  else if abs_start < 0 then .error .EINVAL
  else if 0 < r.l_len ∧ I64_MAX - abs_start < r.l_len - 1 then .error .EOVERFLOW
  else if r.l_len < 0 ∧ abs_start + r.l_len < 0 then .error .EINVAL
  else .ok ()
def Request.access (r : Request) (ty : LockType) : Except Errno Unit :=
  if !r.is_getlk && ((ty = .F_RDLCK && !r.readable) || (ty = .F_WRLCK && !r.writable)) then .error .EBADF
  else if r.is_ofd && r.l_pid != 0 then .error .EINVAL
  else .ok ()
def Request.lock (r : Request) : Except Errno Lock := do
  if r.is_getlk && !r.is_ofd && r.l_type != 0 && r.l_type != 1 then throw .EINVAL
  let origin ← r.origin
  r.range (origin + r.l_start)
  let ty ← r.type
  r.access ty
  let (kind,owner) := if r.is_ofd then (.Ofd,r.description) else (.Posix,r.task)
  return ⟨owner,kind,ty,origin + r.l_start,r.l_len⟩
inductive Reply where
  | ok | errno (e : Errno) | unlocked | blocker (l : Lock)
deriving DecidableEq
/-- `F_GETLK` and `F_SETLK` on a file whose file system has no locks of its own. -/
def fcntl (bucket : Bucket) (r : Request) : Reply × Bucket :=
  match r.lock with
  | .error e => (.errno e,bucket)
  | .ok req =>
    if r.is_getlk then
      match probe bucket req with
      | none => (.unlocked,bucket)
      | some b => (.blocker b,bucket)
    else
      match try_set bucket req with
      | .ok next => (.ok,next)
      | .error _ => (.errno .EAGAIN,bucket)
def step (bucket : Bucket) (r : Request) : Option Bucket := some (fcntl bucket r).2

/-! ### The map from bytes to modes -/
/-- The bytes of an accepted range: backwards from its start when the length is negative, to the end when it is zero. -/
abbrev Lock.Covers (l : Lock) (b : Int) : Prop :=
  if l.len < 0 then l.start + l.len ≤ b ∧ b < l.start
  else if l.len = 0 then l.start ≤ b ∧ b ≤ I64_MAX
  else l.start ≤ b ∧ b < l.start + l.len
abbrev ByteLocks := LockKind × Nat → Int → Option LockType

namespace ByteLocks
/-- Another owner holds a byte of the range in a mode that excludes the request. -/
def Refuses (m : ByteLocks) (req : Lock) : Prop :=
  req.ty ≠ .F_UNLCK ∧ ∃ o b held, o ≠ req.holder ∧ req.Covers b ∧ m o b = some held ∧ (held = .F_WRLCK ∨ req.ty = .F_WRLCK)
def set (m : ByteLocks) (req : Lock) : ByteLocks := fun o b =>
  if o = req.holder ∧ req.Covers b then (if req.ty = .F_UNLCK then none else some req.ty) else m o b
open Classical in
noncomputable def after (m : ByteLocks) (req : Lock) : ByteLocks := if m.Refuses req then m else m.set req
noncomputable def request (m : ByteLocks) (r : Request) : ByteLocks :=
  match r.lock with
  | .error _ => m
  | .ok req => if r.is_getlk then m else m.after req
end ByteLocks
abbrev Lock.Holds (l : Lock) (o : LockKind × Nat) (b : Int) : Prop := l.holder = o ∧ l.start ≤ b ∧ b ≤ l.last
def held (bucket : Bucket) : ByteLocks := fun o b => (bucket.find? (fun l => l.Holds o b)).map Lock.ty
/-- The request is answered, and the table left, as the map says. -/
def Right (bucket : Bucket) (r : Request) (req : Lock) : Prop :=
  if r.is_getlk then (∃ b, (fcntl bucket r).1 = .blocker b) ↔ refused bucket req = true
  else ((fcntl bucket r).1 = .errno .EAGAIN ↔ (held bucket).Refuses req) ∧ held (fcntl bucket r).2 = (held bucket).after req
/-- The inclusive end is the last byte: the length is not negative, and the range stops short of `i64::MAX`
    or is open. -/
abbrev Lock.Exact (l : Lock) : Prop := l.len = 0 ∨ 0 < l.len ∧ l.start + l.len ≤ I64_MAX
/-- Every lock of the owner that the request meets lies inside it. -/
abbrev Inside (bucket : Bucket) (req : Lock) : Prop :=
  ∀ l ∈ bucket, req.dropped_by l = true → req.start ≤ l.start ∧ l.last ≤ req.last
/-- An open-file-description query about `F_UNLCK` finds no write lock; a request to set is refused or splits no lock. -/
abbrev Allowed (bucket : Bucket) (r : Request) (req : Lock) : Prop :=
  if r.is_getlk then req.ty = .F_UNLCK → probe bucket req = none
  else req.Exact ∧ (refused bucket req = true ∨ Inside bucket req)

/-! ### Ranges -/
lemma range_ok {r : Request} {a : Int} (accepted : r.range a = .ok ()) : 0 ≤ a ∧ a ≤ I64_MAX := by
  revert accepted
  unfold Request.range
  split_ifs <;> grind
lemma Request.lock_start {r : Request} {req : Lock} (accepted : r.lock = .ok req) : 0 ≤ req.start ∧ req.start ≤ I64_MAX := by
  simp only [Request.lock,bind,Except.bind,pure,Except.pure] at accepted
  split at accepted
  · cases accepted
  · split at accepted
    · cases accepted
    · rename_i origin _
      cases checked : r.range (origin + r.l_start) with
      | error e => rw [checked] at accepted; cases accepted
      | ok _ =>
        grind [range_ok checked]

namespace Lock
variable {l req : Lock}
/-- The bytes of the range are those up to its inclusive end. -/
structure Whole (l : Lock) : Prop where
  some_ : l.start ≤ l.last
  covers {b : Int} : l.Covers b ↔ l.start ≤ b ∧ b ≤ l.last
lemma Exact.whole (exact_ : l.Exact) (start : 0 ≤ l.start ∧ l.start ≤ I64_MAX) : l.Whole := by
  have last : l.last = if l.len = 0 then I64_MAX else l.start + l.len - 1 := by
    simp only [Lock.last,saturating,Lock.Exact,I64_MAX,I64_MIN] at exact_ ⊢
    split_ifs <;> omega
  constructor
  · rw [last]
    split_ifs <;> omega
  · intro b
    rw [last]
    unfold Covers
    split_ifs <;> omega
lemma exact_iff (start : 0 ≤ l.start ∧ l.start ≤ I64_MAX) : l.Exact ↔ ∀ b, l.Covers b ↔ l.start ≤ b ∧ b ≤ l.last := by
  refine ⟨fun exact_ _ => (exact_.whole start).covers,fun same => ?_⟩
  -- a negative range covers the byte before its start, one that is too long the last byte
  have before := same (l.start - 1)
  have top := same I64_MAX
  unfold Covers last saturating at before top
  unfold Lock.Exact
  simp only [I64_MAX,I64_MIN] at *
  split_ifs at before top <;> omega
lemma dropped_by_iff : req.dropped_by l ↔ l.holder = req.holder ∧ l.start ≤ req.last ∧ req.start ≤ l.last := by
  simp [dropped_by,same_owner,overlaps]
lemma conflicts_iff (range : l.start ≤ l.last) (range' : req.start ≤ req.last) : l.conflicts req ↔ l.holder ≠ req.holder ∧
      (∃ b, (l.start ≤ b ∧ b ≤ l.last) ∧ req.start ≤ b ∧ b ≤ req.last) ∧ (l.ty = .F_WRLCK ∨ req.ty = .F_WRLCK) := by
  have meet : (l.start ≤ req.last ∧ req.start ≤ l.last) ↔ ∃ b, (l.start ≤ b ∧ b ≤ l.last) ∧ req.start ≤ b ∧ b ≤ req.last := by
    constructor
    · intro overlap
      exact ⟨max l.start req.start,by omega,by omega⟩
    · rintro ⟨b,_,_⟩
      omega
  rw [← meet]
  simp only [conflicts,same_owner,overlaps]
  grind
end Lock
lemma refused_iff {bucket : Bucket} {req : Lock} : refused bucket req ↔ req.ty ≠ .F_UNLCK ∧ ∃ l ∈ bucket, l.conflicts req := by
  unfold refused try_set
  by_cases unlock : req.ty = .F_UNLCK
  · simp [unlock]
  · rw [if_neg unlock]
    cases found : bucket.find? (·.conflicts req) with
    | none => simpa [unlock] using found
    | some l => exact ⟨fun _ => ⟨unlock,l,mem_of_find?_eq_some found,by simpa using List.find?_some found⟩,fun _ => rfl⟩
lemma mem_of_try_set {bucket next : Bucket} {req l : Lock} (granted : try_set bucket req = .ok next) :
    l ∈ next ↔ (l ∈ bucket ∧ req.dropped_by l = false) ∨ (l = req ∧ req.ty ≠ .F_UNLCK) := by
  revert granted
  unfold try_set
  split_ifs with unlock
  · rintro ⟨⟩
    simp [unlock]
  · split
    · rintro ⟨⟩
    · rintro ⟨⟩
      simp [unlock]

/-! ### The invariant -/
/-- Stored locks are proper ranges, and one owner's do not overlap. -/
structure Sound (bucket : Bucket) : Prop where
  proper : ∀ l ∈ bucket, l.ty ≠ .F_UNLCK ∧ l.start ≤ l.last
  apart : ∀ l ∈ bucket, ∀ m ∈ bucket, m.dropped_by l = true → l = m

section
variable {bucket next : Bucket} {req : Lock} (sound : Sound bucket)
include sound
lemma Sound.held_iff {o : LockKind × Nat} {b : Int} {ty : LockType} :
    held bucket o b = some ty ↔ ∃ l ∈ bucket, l.Holds o b ∧ l.ty = ty := by
  unfold held
  rw [Option.map_eq_some_iff]
  constructor
  · rintro ⟨l,found,mode⟩
    exact ⟨l,mem_of_find?_eq_some found,by simpa using List.find?_some found,mode⟩
  · rintro ⟨l,mem,holds,mode⟩
    cases found : bucket.find? (·.Holds o b) with
    | none => exact absurd holds (by simpa using List.find?_eq_none.mp found l mem)
    | some m =>
      have holds' : m.Holds o b := by simpa using List.find?_some found
      have same : l = m := by
        apply sound.apart l mem m (mem_of_find?_eq_some found)
        rw [Lock.dropped_by_iff]
        exact ⟨holds.1.trans holds'.1.symm,by omega,by omega⟩
      exact ⟨m,rfl,same ▸ mode⟩
variable (whole : req.Whole)
include whole
lemma Sound.refuses_iff : (held bucket).Refuses req ↔ refused bucket req := by
  rw [refused_iff]
  refine and_congr_right fun _ => ⟨?_,?_⟩
  · rintro ⟨o,b,mode,other,covers,holds,strong⟩
    obtain ⟨l,mem,⟨rfl,inside⟩,rfl⟩ := sound.held_iff.mp holds
    exact ⟨l,mem,(Lock.conflicts_iff (sound.proper l mem).2 whole.some_).mpr ⟨other,⟨b,inside,whole.covers.mp covers⟩,strong⟩⟩
  · rintro ⟨l,mem,conflict⟩
    obtain ⟨other,⟨b,inside,within⟩,strong⟩ :=
      (Lock.conflicts_iff (sound.proper l mem).2 whole.some_).mp conflict
    exact ⟨l.holder,b,l.ty,other,whole.covers.mpr within,sound.held_iff.mpr ⟨l,mem,⟨rfl,inside⟩,rfl⟩,strong⟩
lemma Sound.try_set (granted : try_set bucket req = .ok next) : Sound next := by
  have swap : ∀ {l m : Lock}, l.dropped_by m = m.dropped_by l := by
    intro l m
    rw [Bool.eq_iff_iff,Lock.dropped_by_iff,Lock.dropped_by_iff]
    grind
  constructor
  · intro l mem
    rcases (mem_of_try_set granted).mp mem with ⟨old,_⟩ | ⟨rfl,lock⟩
    · exact sound.proper l old
    · exact ⟨lock,whole.some_⟩
  · intro l mem m member' overlap
    rcases (mem_of_try_set granted).mp mem with ⟨old,kept⟩ | ⟨rfl,_⟩ <;>
      rcases (mem_of_try_set granted).mp member' with ⟨old',kept'⟩ | ⟨rfl,_⟩
    · exact sound.apart l old m old' overlap
    · rw [kept] at overlap; cases overlap
    · rw [swap,kept'] at overlap; cases overlap
    · rfl
/-- A granted request that splits no lock changes its own bytes for its own owner; one that splits a lock loses
    the bytes left over. -/
lemma Sound.held_try_set (granted : RecordLocks.try_set bucket req = .ok next) : held next = (held bucket).set req ↔ Inside bucket req := by
  have sound' := sound.try_set whole granted
  constructor
  · intro same l mem dropped
    by_contra out
    obtain ⟨b,inside,outside⟩ : ∃ b, (l.start ≤ b ∧ b ≤ l.last) ∧ ¬req.Covers b := by
      have range := (sound.proper l mem).2
      by_cases low : req.start ≤ l.start
      · exact ⟨l.last,by omega,by rw [whole.covers]; omega⟩
      · exact ⟨l.start,by omega,by rw [whole.covers]; omega⟩
    have before : held bucket l.holder b = some l.ty := sound.held_iff.mpr ⟨l,mem,⟨rfl,inside⟩,rfl⟩
    have after : held next l.holder b = some l.ty := by rw [same,ByteLocks.set,if_neg (outside ·.2),before]
    obtain ⟨m,member',⟨owner,inside'⟩,_⟩ := sound'.held_iff.mp after
    rcases (mem_of_try_set granted).mp member' with ⟨old,kept⟩ | ⟨rfl,_⟩
    · have equal : m = l := sound.apart m old l mem (Lock.dropped_by_iff.mpr ⟨owner,by omega,by omega⟩)
      rw [equal,dropped] at kept
      cases kept
    · exact outside (whole.covers.mpr inside')
  · intro inside
    funext o b
    refine Option.ext fun ty => ?_
    rw [sound'.held_iff,ByteLocks.set]
    by_cases own : o = req.holder ∧ req.Covers b
    · have within := whole.covers.mp own.2
      have only : ∀ l ∈ next, l.Holds o b → l = req ∧ req.ty ≠ .F_UNLCK := by
        rintro l mem ⟨owner,range⟩
        rcases (mem_of_try_set granted).mp mem with ⟨_,kept⟩ | new
        · rw [Lock.dropped_by_iff.mpr ⟨owner.trans own.1,by omega,by omega⟩] at kept
          cases kept
        · exact new
      rw [if_pos own]
      by_cases unlock : req.ty = .F_UNLCK
      · rw [if_pos unlock]
        exact ⟨fun ⟨l,mem,holds,_⟩ => absurd unlock (only l mem holds).2,fun none => by cases none⟩
      · rw [if_neg unlock]
        constructor
        · rintro ⟨l,mem,holds,rfl⟩
          rw [(only l mem holds).1]
        · rintro ⟨⟩
          exact ⟨req,(mem_of_try_set granted).mpr (.inr ⟨rfl,unlock⟩),⟨own.1.symm,within⟩,rfl⟩
    · rw [if_neg own,sound.held_iff]
      refine exists_congr fun l => ?_
      rw [mem_of_try_set granted]
      constructor
      · rintro ⟨⟨old,_⟩ | ⟨rfl,_⟩,holds,mode⟩
        · exact ⟨old,holds,mode⟩
        · exact absurd ⟨holds.1.symm,whole.covers.mpr holds.2⟩ own
      · rintro ⟨old,⟨owner,range⟩,mode⟩
        refine ⟨.inl ⟨old,?_⟩,⟨owner,range⟩,mode⟩
        -- A lock that is dropped lies inside the request, and the byte does not.
        by_contra drop
        have dropped : req.dropped_by l := by simpa using drop
        have bounds := inside l old dropped
        exact own ⟨owner.symm.trans (Lock.dropped_by_iff.mp dropped).1,whole.covers.mpr (by omega)⟩

omit whole
lemma Sound.right_iff {r : Request} (accepted : r.lock = .ok req) (exact_ : r.is_getlk ∨ req.Exact) :
    Right bucket r req ↔ Allowed bucket r req := by
  unfold Right Allowed fcntl
  rw [accepted]
  by_cases get : r.is_getlk
  · simp only [get,if_true,refused_iff,probe]
    cases found : bucket.find? (·.conflicts req) with
    | none =>
      have free : ∀ l ∈ bucket, l.conflicts req = false := by simpa using found
      simpa using fun _ => free
    | some l =>
      have conflict : ∃ l ∈ bucket, l.conflicts req :=
        ⟨l,mem_of_find?_eq_some found,by simpa using List.find?_some found⟩
      simp [conflict]
  · replace exact_ := exact_.resolve_left get
    have whole := exact_.whole (Request.lock_start accepted)
    have refuses := sound.refuses_iff whole
    simp only [get,if_false,Bool.false_eq_true,exact_,true_and,ByteLocks.after]
    unfold refused at refuses ⊢
    cases granted : RecordLocks.try_set bucket req with
    | error b =>
      have yes : (held bucket).Refuses req := by simpa [granted] using refuses
      simp [yes]
    | ok next => simpa [granted,refuses] using sound.held_try_set whole granted
end
/-- Every accepted request of the run is allowed where it comes. -/
def AllAllowed (bucket : Bucket) (r : Request) : Prop := ∀ req ∈ r.lock.toOption, Allowed bucket r req
instance (bucket : Bucket) (r : Request) : Decidable (AllAllowed bucket r) := by unfold AllAllowed; infer_instance
lemma step_refines {bucket next : Bucket} {r : Request} (sound : Sound bucket) (allowed : AllAllowed bucket r)
    (taken : step bucket r = some next) : Sound next ∧ held next = (held bucket).request r := by
  cases taken
  unfold ByteLocks.request
  cases accepted : r.lock with
  | error e => simpa [fcntl,accepted] using sound
  | ok req =>
    have fits : Allowed bucket r req := allowed req (by rw [accepted]; rfl)
    by_cases get : r.is_getlk
    · have same : (fcntl bucket r).2 = bucket := by
        simp only [fcntl,accepted,get,if_true]
        split <;> rfl
      rw [same]
      exact ⟨sound,by simp [get]⟩
    · have exact_ : req.Exact := by
        rw [Allowed,if_neg get] at fits
        exact fits.1
      have right := (sound.right_iff accepted (.inr exact_)).mpr fits
      rw [Right,if_neg get] at right
      simp only [get,if_false,Bool.false_eq_true,right.2,and_true]
      simp only [fcntl,accepted,get,if_false,Bool.false_eq_true]
      split
      · exact sound.try_set (exact_.whole (Request.lock_start accepted)) (by assumption)
      · exact sound
/-- While every request is allowed the table stands for the map from bytes to modes; the next accepted request
    is answered as the map says exactly when it is allowed too; a lock's range is the requested one only if it is exact. -/
theorem locks_refine_bytes {es : List Request} {s : Bucket} (meets : Runs.Meets step AllAllowed [] es)
    (ran : Runs.run step [] es = some s) : held s = es.foldl ByteLocks.request (fun _ _ => none) ∧
    (∀ r req, r.lock = .ok req → (r.is_getlk = true ∨ req.Exact) → (Right s r req ↔ Allowed s r req)) ∧
    ∀ (r : Request) req, r.lock = .ok req → (req.Exact ↔ ∀ b, req.Covers b ↔ req.start ≤ b ∧ b ≤ req.last) := by
  suffices all : ∀ bucket, Sound bucket → Runs.Meets step AllAllowed bucket es → Runs.run step bucket es = some s →
      Sound s ∧ held s = es.foldl ByteLocks.request (held bucket) by
    obtain ⟨sound,same⟩ := all [] ⟨by simp,by simp⟩ meets ran
    exact ⟨same,fun r req accepted exact_ => sound.right_iff accepted exact_,
      fun r req accepted => Lock.exact_iff (Request.lock_start accepted)⟩
  clear meets ran
  induction es with
  | nil =>
    intro bucket sound _ ran
    cases ran
    exact ⟨sound,rfl⟩
  | cons r rest ih =>
    intro bucket sound meets ran
    obtain ⟨next,taken,later⟩ := Runs.run_cons.mp ran
    obtain ⟨sound',same⟩ := step_refines sound meets.head taken
    rw [foldl_cons,← same]
    exact ih next sound' (meets.tail taken) later
/-- A write lock by a process: set when `ty` is 1, cleared when it is 2. -/
def posix (ty start len : Int) : Request := ⟨false,false,1,10,0,100,true,true,ty,0,start,len,0⟩
/-- A query about clearing by an open file description. -/
def unlockQuery : Request := ⟨true,true,2,20,0,100,true,true,2,0,0,10,0⟩
theorem locks_refine_bytes_relock : ∃ s, Runs.run step [] [posix 1 5 5,posix 1 0 10] = some s ∧
    held s (.Posix,1) 7 = some .F_WRLCK ∧ ∀ r req, r.lock = .ok req → (r.is_getlk = true ∨ req.Exact) →
      (Right s r req ↔ Allowed s r req) := by
  have ran : Runs.run step [] [posix 1 5 5,posix 1 0 10] = some [⟨1,.Posix,.F_WRLCK,0,10⟩] := by decide +kernel
  exact ⟨_,ran,by decide +kernel,(locks_refine_bytes (by decide +kernel) ran).2.1⟩
lemma Right.held_set {bucket : Bucket} {r : Request} {req : Lock} (right : Right bucket r req)
    (set : r.is_getlk = false) (granted : (fcntl bucket r).1 ≠ .errno .EAGAIN) (o : LockKind × Nat) (b : Int) :
    held (fcntl bucket r).2 o b = (held bucket).set req o b := by
  rw [Right,if_neg (by simp [set])] at right
  rw [right.2,ByteLocks.after,if_neg (fun refuses => granted (right.1.mpr refuses))]
def Wrong (es : List Request) (r : Request) : Prop :=
  ∃ s req, Runs.run step [] es = some s ∧ r.lock = .ok req ∧ ¬Right s r req
/-- Clearing half of a lock clears the rest of it, a negative length and a last byte of `i64::MAX` lock
    nothing, and a query about clearing is told of a lock that clearing would not meet. -/
theorem record_locks_lose_bytes : Wrong [posix 1 0 10] (posix 2 0 5) ∧ Wrong [] (posix 1 10 (-5)) ∧
    Wrong [] (posix 1 I64_MAX 1) ∧ Wrong [posix 1 0 10] unlockQuery := by
  refine ⟨⟨_,_,rfl,rfl,fun right => ?_⟩,⟨_,_,rfl,rfl,fun right => ?_⟩,⟨_,_,rfl,rfl,fun right => ?_⟩,⟨_,_,rfl,rfl,fun right => ?_⟩⟩
  · exact absurd (right.held_set rfl (by decide +kernel) (.Posix,1) 7) (by decide +kernel)
  · exact absurd (right.held_set rfl (by decide +kernel) (.Posix,1) 7) (by decide +kernel)
  · exact absurd (right.held_set rfl (by decide +kernel) (.Posix,1) I64_MAX) (by decide +kernel)
  · exact absurd (right.mp ⟨⟨1,.Posix,.F_WRLCK,0,10⟩,by decide +kernel⟩) (by decide +kernel)

/-! ### Owners that go away -/
def release_owner_of_kind (bucket : Bucket) (owner : Nat) (kind : LockKind) : Bucket :=
  bucket.filter (fun l => !(l.kind = kind && l.owner = owner))
/-- What reaches the table: requests, and `release_owner` (kind `Posix`, a task's exit) or `release_ofd_owner`
    (kind `Ofd`, the last close of an open file description). -/
inductive Call where
  | fcntl (r : Request)
  | release (owner : Nat) (kind : LockKind)
def call (bucket : Bucket) : Call → Bucket
  | .fcntl r => (fcntl bucket r).2
  | .release owner kind => release_owner_of_kind bucket owner kind
/-- What is set has its inclusive end at its last byte. -/
def Call.Exact : Call → Prop
  | .fcntl r => r.is_getlk = true ∨ ∀ req, r.lock = .ok req → req.ty ≠ .F_UNLCK → req.Exact
  | .release _ _ => True
end Narf.Userspace.RecordLocks
