import Narf.Capabilities.Table

/-! Where authority comes from. Every capability and every table entry goes back to a mint:
it names the minted object with the minted type tag, and its right was reached along
declared edges. Table positions are written once. -/

namespace Narf.Capabilities
open List

/-! ### Writes to a table -/
/-- Filled positions are left alone, and what is new is `slot`. -/
structure CapTable.Extends (table table' : CapTable) (slot : CapSlot) : Prop where
  kept : ∀ (p : Nat) old, table.slots[p]? = some old → old ≠ CapSlot.EMPTY → table'.slots[p]? = some old
  fresh : ∀ (p : Nat) new, table'.slots[p]? = some new → new ≠ CapSlot.EMPTY → new = slot ∨ table.slots[p]? = some new

namespace CapTable
lemma put_bootstrap_extends (table : CapTable) (slot : CapSlot) (room : table.next_bootstrap < RESERVED_SLOTS) :
    table.Extends (table.put_bootstrap slot room) slot where
  kept p old found filled := by
    have elsewhere : table.next_bootstrap ≠ p := by
      rintro rfl
      exact filled (table.vacant _ old found (le_refl _) (.inl room))
    exact (getElem?_set_ne elsewhere).trans found
  fresh p new found _ := by
    by_cases here : table.next_bootstrap = p
    · subst here
      have inside : table.next_bootstrap < table.slots.length :=
        lt_of_lt_of_le room (le_trans table.beyond table.fits)
      simp only [put_bootstrap,getElem?_set_self inside,Option.some.injEq] at found
      exact .inl found.symm
    · exact .inr ((getElem?_set_ne here).symm.trans found)
lemma put_general_extends (table : CapTable) (slot : CapSlot) (room : table.next_general < table.slots.length) :
    table.Extends (table.put_general slot room) slot where
  kept p old found filled := by
    have elsewhere : table.next_general ≠ p := by
      rintro rfl
      exact filled (table.vacant _ old found (le_trans table.reserved table.beyond) (.inr (le_refl _)))
    exact (getElem?_set_ne elsewhere).trans found
  fresh p new found _ := by
    by_cases here : table.next_general = p
    · subst here
      simp only [put_general,getElem?_set_self room,Option.some.injEq] at found
      exact .inl found.symm
    · exact .inr ((getElem?_set_ne here).symm.trans found)
variable {slot : CapSlot} {table table' : CapTable} {position : BitVec 32} {t : ObjectTable}
lemma resize_kept (table : CapTable) {new_len p : Nat} (filled : slot ≠ CapSlot.EMPTY) :
    (table.resize new_len).slots[p]? = some slot ↔ table.slots[p]? = some slot := by
  simp only [resize,List.getElem?_append]
  split
  · exact Iff.rfl
  · next outside =>
    constructor
    · intro found
      exact absurd (eq_of_mem_replicate (mem_of_getElem? found)) filled
    · intro found
      exact absurd (List.getElem?_eq_some_iff.mp found).1 outside
lemma install_general_extends (done : table.install_general slot = .ok (table',position)) : table.Extends table' slot := by
  unfold install_general at done
  split at done
  · next full =>
    split at done
    · cases done
    next below =>
    cases done
    have written := put_general_extends (table.resize (min (table.slots.length * 2) MAX_SLOTS)) slot
    constructor
    · intro p old found filled
      exact (written _).kept p old ((table.resize_kept filled).mpr found) filled
    · intro p new found filled
      exact ((written _).fresh p new found filled).imp_right (table.resize_kept filled).mp
  · cases done
    exact put_general_extends table slot _
lemma install_bootstrap_extends {cap : Cap}
    (done : table.install_bootstrap t cap = .ok (table',position)) : table.Extends table' cap.slot := by
  unfold install_bootstrap at done
  cases live : cap.check_live t with
  | error e => rw [live] at done; cases done
  | ok _ =>
    simp only [live,bind,Except.bind] at done
    split at done
    · cases done
    split at done
    · cases done
      exact put_bootstrap_extends table cap.slot _
    · cases done
lemma install_transfer_extends {grant_entry cap_entry : CapSlot}
    (done : table.install_transfer grant_entry cap_entry = .ok (table',position)) : table.Extends table' cap_entry := by
  unfold install_transfer at done
  split at done
  · cases done
  split at done
  · cases done
  split at done
  · cases done
  exact install_general_extends done
lemma lookup_spec {presented entry : CapSlot} (found : table.lookup t presented = .ok entry) :
    table.slots[presented.index.toNat]? = some entry ∧ entry ≠ CapSlot.EMPTY ∧
      presented.rights &&& ~~~entry.rights = 0#32 ∧ t.current_epoch entry.index = some entry.generation := by
  unfold lookup at found
  split at found
  · cases found
  next here =>
  split at found
  · cases found
  next filled =>
  split at found
  · cases found
  split at found
  · cases found
  split at found
  · cases found
  next live =>
  split at found
  · cases found
  next rights =>
  cases found
  exact ⟨here,fun empty => filled (CapSlot.is_empty_iff.mpr empty),not_not.mp rights,not_not.mp live⟩
end CapTable

variable {t : ObjectTable} {right : Right}
lemma Cap.transfer_extends {grant cap : Cap} {table table' : CapTable} {position : BitVec 32}
    (done : grant.transfer cap t table = .ok (table',position)) : table.Extends table' cap.slot := by
  unfold Cap.transfer at done
  cases first : grant.check_live t with
  | error e => rw [first] at done; cases done
  | ok _ =>
    cases second : cap.check_live t with
    | error e => rw [first,second] at done; cases done
    | ok _ =>
      simp only [first,second,bind,Except.bind] at done
      split at done
      · cases done
      split at done
      · cases done
      exact CapTable.install_general_extends done
lemma Cap.derive_eq {cap derived : Cap} (done : cap.derive t right = .ok derived) :
    derived = ⟨{ cap.slot with rights := right.BITS },cap.kind,right⟩ := by
  unfold Cap.derive at done
  cases live : cap.check_live t with
  | error e => rw [live] at done; cases done
  | ok _ =>
    rw [live] at done
    cases done
    rfl
lemma Cap.bootstrap_with_eq {creator : Cap} {kind : CapKind}
    {made : ObjectTable × Cap} (done : creator.bootstrap_with t kind right = .ok made) : made = Cap.bootstrap t kind right := by
  unfold Cap.bootstrap_with at done
  cases live : creator.check_live t with
  | error e => rw [live] at done; cases done
  | ok _ =>
    simp only [live,bind,Except.bind] at done
    split at done
    · cases done
    split at done
    · cases done
    cases done
    rfl

/-! ### Histories -/
namespace World
/-- The slot is a copy of the minted one but for its right, reached along declared edges. -/
structure Copies (slot : CapSlot) (right : Right) (minted : Cap) : Prop where
  index : slot.index = minted.slot.index
  tag : slot.type_tag = minted.slot.type_tag
  generation : slot.generation = minted.slot.generation
  weakened : Weakened minted.right right
  rights : slot.rights = right.BITS
def Carries (w : World) (slot : CapSlot) (right : Right) : Prop := ∃ m ∈ w.minted, Copies slot right m.cap
/-- The slot is a weakened copy of a capability minted for the object it names. -/
def Issued (w : World) (slot : CapSlot) : Prop :=
  ∃ m ∈ w.minted, m.object = slot.index.toNat ∧ ∃ right, Copies slot right m.cap
/-- Minting finds an index left for its object. -/
def Room (w : World) : Op → Prop
  | .bootstrap _ _ => w.objects.length < 2 ^ 32
  | .bootstrap_with _ _ _ => w.objects.length < 2 ^ 32
  | _ => True
structure Mint.Recorded (m : Mint) (objects : ObjectTable) : Prop where
  index : m.cap.slot.index = BitVec.ofNat 32 m.object
  generation : m.cap.slot.generation = 1#32
  kind : ∃ kind, (objects[m.object]?).map (·.kind) = some kind ∧ m.cap.slot.type_tag = kind.tag
structure Confined (w : World) : Prop where
  mints : ∀ m ∈ w.minted, Mint.Recorded m w.objects
  caps : ∀ cap ∈ w.caps, w.Carries cap.slot cap.right
  resolved : ∀ entry ∈ w.resolved, ∃ right, w.Carries entry right
  entries : ∀ task (p : Nat) slot, (w.tables task).slots[p]? = some slot → slot ≠ CapSlot.EMPTY → ∃ right, w.Carries slot right

variable {w' : World} {slot : CapSlot} {right : Right} {ok : World → Op → Prop} {n : Nat}
lemma Carries.of_minted {w : World} (carries : w.Carries slot right) (more : ∀ m ∈ w.minted, m ∈ w'.minted) : w'.Carries slot right := by
  obtain ⟨m,mem,rest⟩ := carries
  exact ⟨m,more m mem,rest⟩
variable {w : World}
lemma confined_start : start.Confined where
  mints _ mem := absurd mem not_mem_nil
  caps _ mem := absurd mem not_mem_nil
  resolved _ mem := absurd mem not_mem_nil
  entries _ _ _ found filled := absurd (eq_of_mem_replicate (mem_of_getElem? found)) filled
lemma confined_mint (inv : w.Confined) (kind : CapKind) (right : Right) : (w.mint (Cap.bootstrap w.objects kind right)).Confined where
  mints m mem := by
    rcases mem_cons.mp mem with rfl | before
    · exact ⟨rfl,rfl,kind,by simp [mint,Cap.bootstrap,ObjectTable.register],rfl⟩
    · obtain ⟨index,generation,kind,recorded,tag⟩ := inv.mints m before
      refine ⟨index,generation,kind,?_,tag⟩
      obtain ⟨e,found,_⟩ := Option.map_eq_some_iff.mp recorded
      have inside := (List.getElem?_eq_some_iff.mp found).1
      simpa [mint,Cap.bootstrap,ObjectTable.register,List.getElem?_append_left inside] using recorded
  caps cap mem := by
    rcases mem_cons.mp mem with rfl | before
    · exact ⟨_,mem_cons_self,rfl,rfl,rfl,.refl,rfl⟩
    · exact (inv.caps cap before).of_minted fun m => mem_cons_of_mem _
  resolved entry mem := (inv.resolved entry mem).imp (fun _ held => held.of_minted (fun m => mem_cons_of_mem _))
  entries task p slot found filled :=
    (inv.entries task p slot found filled).imp (fun _ held => held.of_minted (fun m => mem_cons_of_mem _))
lemma confined_derive (inv : w.Confined) {cap : Cap} (held : cap ∈ w.caps) (edge : SubsetOf right cap.right) :
    ({ w with caps := ⟨{ cap.slot with rights := right.BITS },cap.kind,right⟩ :: w.caps } : World).Confined where
  mints := inv.mints
  caps other mem := by
    rcases mem_cons.mp mem with rfl | before
    · obtain ⟨m,minted,copy⟩ := inv.caps cap held
      exact ⟨m,minted,copy.index,copy.tag,copy.generation,copy.weakened.tail edge,rfl⟩
    · exact inv.caps other before
  resolved := inv.resolved
  entries := inv.entries
lemma confined_installed (inv : w.Confined) {task : Nat} (issued : ∃ right, w.Carries slot right)
    {result : Except CapError (CapTable × BitVec 32)}
    (writes : ∀ table position, result = .ok (table,position) → (w.tables task).Extends table slot) :
    (w.installed task result).Confined := by
  cases result with
  | error e => exact inv
  | ok written =>
    obtain ⟨table,position⟩ := written
    refine { inv with entries := fun other p new found filled => ?_ }
    simp only [installed,set_table] at found
    split at found
    · next same =>
      rcases (writes table position rfl).fresh p new found filled with rfl | before
      · exact issued
      · exact inv.entries _ p new before filled
    · exact inv.entries other p new found filled
lemma confined_step (inv : w.Confined) {op : Op} (allowed : w.Allowed op) : (w.step op).Confined := by
  cases op with
  | bootstrap kind right => exact confined_mint inv kind right
  | bootstrap_with creator kind right =>
    simp only [step]
    split
    · next made done => rw [Cap.bootstrap_with_eq done]; exact confined_mint inv kind right
    · exact inv
  | derive cap right =>
    simp only [step]
    split
    · next derived done => rw [Cap.derive_eq done]; exact confined_derive inv allowed.1 allowed.2
    · exact inv
  | transfer grant cap task =>
    exact confined_installed inv ⟨_,inv.caps cap allowed.2.1⟩ fun table position done => Cap.transfer_extends done
  | install_bootstrap cap task =>
    exact confined_installed inv ⟨_,inv.caps cap allowed⟩ fun table position done => CapTable.install_bootstrap_extends done
  | lookup task presented =>
    simp only [step]
    split
    · next entry done =>
      obtain ⟨found,filled,_⟩ := CapTable.lookup_spec done
      refine { inv with resolved := fun other mem => ?_ }
      rcases mem_cons.mp mem with rfl | before
      · exact inv.entries task _ _ found filled
      · exact inv.resolved other before
    · exact inv
  | install_transfer grant_entry cap_entry task =>
    exact confined_installed inv (inv.resolved cap_entry allowed.2)
      (fun table position done => CapTable.install_transfer_extends done)
  | revoke cap =>
    refine { inv with mints := fun m mem => ?_ }
    obtain ⟨index,generation,kind,recorded,tag⟩ := inv.mints m mem
    refine ⟨index,generation,kind,?_,tag⟩
    simp only [step,Cap.revoke,ObjectTable.bump_epoch,getElem?_modify] at recorded ⊢
    split
    · simpa [Option.map_map,Function.comp_def] using recorded
    · simpa using recorded
lemma step_kept (op : Op) (task p : Nat) (slot : CapSlot) (found : (w.tables task).slots[p]? = some slot)
    (filled : slot ≠ CapSlot.EMPTY) : ((w.step op).tables task).slots[p]? = some slot := by
  have installing : ∀ other new result, (∀ table position, result = .ok (table,position) → (w.tables other).Extends table new) →
        ((w.installed other result).tables task).slots[p]? = some slot := by
    intro other new result written
    cases result with
    | error e => exact found
    | ok pair =>
      simp only [installed,set_table]
      split
      · next same => subst same; exact (written _ _ rfl).kept p slot found filled
      · exact found
  cases op with
  | bootstrap | revoke => exact found
  | bootstrap_with | derive | lookup => simp only [step]; split <;> exact found
  | transfer grant cap other => exact installing other _ _ (fun table position done => Cap.transfer_extends done)
  | install_bootstrap cap other =>
    exact installing other _ _ fun table position done => CapTable.install_bootstrap_extends done
  | install_transfer grant_entry cap_entry other =>
    exact installing other _ _ fun table position done => CapTable.install_transfer_extends done
lemma run_kept (run : Run ok w w') (task p : Nat) (slot : CapSlot)
    (found : (w.tables task).slots[p]? = some slot) (filled : slot ≠ CapSlot.EMPTY) : (w'.tables task).slots[p]? = some slot := by
  induction run with
  | refl => exact found
  | tail _ last kept =>
    obtain ⟨op,_,_,rfl⟩ := last
    exact step_kept op task p slot kept filled
lemma confined_run (run : Run ok w w') (inv : w.Confined) : w'.Confined := by
  induction run with
  | refl => exact inv
  | tail _ last kept =>
    obtain ⟨op,allowed,_,rfl⟩ := last
    exact confined_step kept allowed
/-- While there is room, minted objects have the index that names them. -/
lemma numbered_run (run : Run Room start w) : ∀ m ∈ w.minted, m.object < 2 ^ 32 := by
  induction run with
  | refl => exact nofun
  | @tail w _ _ last before =>
    obtain ⟨op,_,room,rfl⟩ := last
    have minting : w.objects.length < 2 ^ 32 → ∀ made, ∀ m ∈ (w.mint made).minted, m.object < 2 ^ 32 := by
      intro few made m mem
      rcases mem_cons.mp mem with rfl | old
      · exact few
      · exact before m old
    cases op with
    | bootstrap kind right => exact minting room _
    | bootstrap_with creator kind right =>
      simp only [step]
      split
      · exact minting room _
      · exact before
    | derive | lookup => simp only [step]; split <;> exact before
    | revoke cap => exact before
    | _ => simp only [step,installed]; split <;> exact before
/-- Confinement, in every run that mints only while an index is left: entries go back to
    mints of the object they name, filled positions never change, and a lookup answers from
    the task's own table. -/
theorem confinement (run : Run Room start w) : (∀ task (p : Nat) slot, (w.tables task).slots[p]? = some slot → slot ≠ CapSlot.EMPTY →
      w.Issued slot ∧ ∃ kind, (w.objects[slot.index.toNat]?).map (·.kind) = some kind ∧ slot.type_tag = kind.tag) ∧
    (∀ w', Run Room w w' → ∀ task (p : Nat) slot, (w.tables task).slots[p]? = some slot → slot ≠ CapSlot.EMPTY →
      (w'.tables task).slots[p]? = some slot) ∧ (∀ task presented entry, (w.tables task).lookup w.objects presented = .ok entry →
      (w.tables task).slots[presented.index.toNat]? = some entry ∧ entry ≠ CapSlot.EMPTY ∧
        presented.rights &&& ~~~entry.rights = 0#32 ∧ w.objects.current_epoch entry.index = some entry.generation) := by
  have inv := confined_run run confined_start
  refine ⟨fun task p slot found filled => ?_,fun w' later => run_kept later,fun task presented entry done => CapTable.lookup_spec done⟩
  obtain ⟨right,m,minted,copy⟩ := inv.entries task p slot found filled
  obtain ⟨index,_,kind,recorded,named⟩ := inv.mints m minted
  have object : slot.index.toNat = m.object := by
    rw [copy.index,index,BitVec.toNat_ofNat]
    exact Nat.mod_eq_of_lt (numbered_run run m minted)
  exact ⟨⟨m,minted,object.symm,right,copy⟩,kind,by rw [object]; exact recorded,copy.tag.trans named⟩

def creator : Cap := (Cap.bootstrap [] .Task .Create).2
/-- A task grants read access to itself, derived from the right to grant. -/
def grantor : Cap := (Cap.bootstrap [] .Task .Grant).2
def reader : Cap := ⟨{ grantor.slot with rights := Right.Read.BITS },.Task,.Read⟩
theorem confinement_boot :
    (((start.step (.bootstrap .Task .Grant)).step (.derive grantor .Read)).step (.transfer grantor reader 1)).Issued reader.slot := by
  have boot : Run Room start (start.step (.bootstrap .Task .Grant)) :=
    .single ⟨.bootstrap .Task .Grant,trivial,Nat.two_pow_pos 32,rfl⟩
  have derived := boot.tail ⟨.derive grantor .Read,⟨mem_singleton.mpr rfl,rfl⟩,trivial,rfl⟩
  have run := derived.tail ⟨.transfer grantor reader 1,⟨mem_cons_of_mem _ (mem_singleton.mpr rfl),mem_cons_self,rfl,rfl⟩,trivial,rfl⟩
  exact ((confinement run).1 1 RESERVED_SLOTS reader.slot (by decide +kernel) (by decide)).1

/-! ### Without room

Object indices are 32 bits wide: the object minted after 2^32 others is handed out under
index 0, with a tag of its own. -/

def crowd : Nat → World
  | 0 => start.step (.bootstrap .Task .Create)
  | n + 1 => (crowd n).step (.bootstrap_with creator .Key .Read)
structure Crowded (w : World) (n : Nat) : Prop where
  objects : w.objects = ⟨1#32,.Task⟩ :: List.replicate n ⟨1#32,.Key⟩
  creator : creator ∈ w.caps
  tables : w.tables = fun _ => CapTable.new
  first : ∀ m ∈ w.minted, m.object = 0 → m.cap.slot.type_tag = CapKind.Task.tag
lemma bootstrap_with_creator (crowded : Crowded w n) (kind : CapKind) (right : Right) :
    w.step (.bootstrap_with creator kind right) = w.mint (Cap.bootstrap w.objects kind right) := by
  have live : creator.bootstrap_with w.objects kind right = .ok (Cap.bootstrap w.objects kind right) := by
    rw [crowded.objects]
    rfl
  simp [step,live]
lemma crowded_crowd (n : Nat) : Crowded (crowd n) n := by
  induction n with
  | zero =>
    refine ⟨rfl,mem_singleton.mpr rfl,rfl,fun m mem _ => ?_⟩
    rw [mem_singleton.mp mem]
    rfl
  | succ n before =>
    rw [crowd,bootstrap_with_creator before]
    refine ⟨?_,mem_cons_of_mem _ before.creator,before.tables,fun m mem zero => ?_⟩
    · simp [mint,Cap.bootstrap,ObjectTable.register,before.objects,replicate_succ']
    · rcases mem_cons.mp mem with rfl | old
      · simp [before.objects] at zero
      · exact before.first m old zero
lemma run_crowd (n : Nat) : Run (fun _ _ => True) start (crowd n) := by
  induction n with
  | zero => exact .single ⟨.bootstrap .Task .Create,trivial,trivial,rfl⟩
  | succ n before =>
    exact before.tail ⟨.bootstrap_with creator .Key .Read,⟨(crowded_crowd n).creator,rfl⟩,trivial,rfl⟩
/-- A key manager's capability that names object 0. -/
def forged : Cap := ⟨⟨1#32,0#32,Right.Grant.BITS,CapKind.KeyMgr.tag⟩,.KeyMgr,.Grant⟩
/-- A mint that finds 2^32 objects makes `forged`, which can then be installed. -/
lemma forged_installed (crowded : Crowded w n) (run : Run (fun _ _ => True) start w) (many : n + 1 = 2 ^ 32) :
    ∃ w, Run (fun _ _ => True) start w ∧ ∃ slot, (w.tables 0).slots[0]? = some slot ∧ slot ≠ CapSlot.EMPTY ∧
      (w.objects[slot.index.toNat]?).map (·.kind) = some .Task ∧ slot.type_tag = CapKind.KeyMgr.tag ∧ ¬ w.Issued slot := by
  have full : w.objects.length = 2 ^ 32 := by rw [crowded.objects,length_cons,length_replicate,many]
  have made : (Cap.bootstrap w.objects .KeyMgr .Grant).2 = forged := by
    simp only [Cap.bootstrap,ObjectTable.register,full]
    rfl
  have minting := bootstrap_with_creator crowded .KeyMgr .Grant
  have mintRun := run.tail ⟨.bootstrap_with creator .KeyMgr .Grant,⟨crowded.creator,rfl⟩,trivial,minting.symm⟩
  have objects : (w.mint (Cap.bootstrap w.objects .KeyMgr .Grant)).objects = w.objects ++ [⟨1#32,.KeyMgr⟩] := rfl
  have held : forged ∈ (w.mint (Cap.bootstrap w.objects .KeyMgr .Grant)).caps := made ▸ mem_cons_self
  have minted : ∀ m ∈ (w.mint (Cap.bootstrap w.objects .KeyMgr .Grant)).minted, m.object = 0 → m.cap.slot.type_tag = CapKind.Task.tag := by
    intro m mem zero
    rcases mem_cons.mp mem with rfl | old
    · simp [full] at zero
    · exact crowded.first m old zero
  have tables : (w.mint (Cap.bootstrap w.objects .KeyMgr .Grant)).tables = fun _ => CapTable.new := crowded.tables
  generalize w.mint (Cap.bootstrap w.objects .KeyMgr .Grant) = w' at mintRun objects held minted tables
  have installing : CapTable.new.install_bootstrap w'.objects forged =
      .ok (CapTable.new.put_bootstrap forged.slot (by decide),0#32) := by
    rw [objects,crowded.objects]
    rfl
  have stepped : w'.step (.install_bootstrap forged 0) =
      w'.set_table 0 (CapTable.new.put_bootstrap forged.slot (by decide)) := by
    simp [step,tables,installing,installed]
  refine ⟨_,mintRun.tail ⟨.install_bootstrap forged 0,held,trivial,stepped.symm⟩,forged.slot,rfl,by decide,?_,rfl,?_⟩
  · simp [set_table,objects,crowded.objects,forged]
  · rintro ⟨m,mem,object,right,copy⟩
    have tag := copy.tag.trans (minted m mem object)
    exact absurd tag (by decide)
/-- The capability minted as object 2^32 names object 0, the creator's task, as a key manager. -/
theorem index_reused : ∃ w, Run (fun _ _ => True) start w ∧ ∃ slot, (w.tables 0).slots[0]? = some slot ∧ slot ≠ CapSlot.EMPTY ∧
      (w.objects[slot.index.toNat]?).map (·.kind) = some .Task ∧ slot.type_tag = CapKind.KeyMgr.tag ∧ ¬ w.Issued slot := by
  obtain ⟨n,many⟩ : ∃ n, n + 1 = 2 ^ 32 := ⟨_,Nat.sub_add_cancel (Nat.one_le_two_pow)⟩
  exact forged_installed (crowded_crowd n) (run_crowd n) many
end World
end Narf.Capabilities
