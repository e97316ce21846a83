import Narf.Net.Cbpf

namespace Narf.Net.Cbpf
open List BitVec
open Bool hiding or_false

/-! A program that the checker accepts runs without a fault, in at most one turn per instruction. -/
variable {count pc : Nat} {insn : SockFilter} {masks masks' : Masks} {valid valid' : BitVec 16}

/-! ## Packet reads -/
lemma data_ok (skb : SkbView) : ∃ data, skb.data = .ok data := by
  unfold SkbView.data
  rw [if_pos ⟨min_le_right _ _,min_le_right _ _⟩]
  exact ⟨_,rfl⟩
variable {i k : Nat}
lemma byte_at_ok {buf : List UInt8} (inside : i < buf.length) : ∃ b, byte_at buf i = .ok b := by
  refine ⟨(buf.get ⟨i,inside⟩).toNat,?_⟩
  rw [byte_at,List.getElem?_eq_getElem inside]
  rfl
lemma nla_find_ok (buf : List UInt8) (attrtype : BitVec 32) (at_ rem : Nat) (inside : at_ + rem ≤ buf.length) :
    ∃ found, nla_find buf at_ rem attrtype = .ok found := by
  induction rem using Nat.strongRecOn generalizing at_ with
  | _ rem ih =>
    unfold nla_find
    split
    · exact ⟨none,rfl⟩
    · rename_i len header
      have bounds := nla_ok_bounds header
      obtain ⟨b₂,second⟩ := byte_at_ok (by omega : at_ + 2 < buf.length)
      obtain ⟨b₃,third⟩ := byte_at_ok (by omega : at_ + 3 < buf.length)
      rw [second,third]
      dsimp only
      split
      · exact ⟨some at_,rfl⟩
      · split
        · exact ⟨none,rfl⟩
        · exact ih _ (by omega) _ (by omega)
lemma get_nlattr_ok (skb : SkbView) (a x : BitVec 32) : ∃ v, get_nlattr skb a x = .ok v := by
  obtain ⟨data,read⟩ := data_ok skb
  rw [get_nlattr,read]
  simp only [Except.bind]
  split
  · exact ⟨0,rfl⟩
  · obtain ⟨found,search⟩ := nla_find_ok data.1 x a.toNat (data.1.length - a.toNat) (by omega)
    rw [search]
    exact ⟨_,rfl⟩
lemma get_nlattr_nest_ok (skb : SkbView) (a x : BitVec 32) : ∃ v, get_nlattr_nest skb a x = .ok v := by
  obtain ⟨data,read⟩ := data_ok skb
  rw [get_nlattr_nest,read]
  simp only [Except.bind]
  split
  · exact ⟨0,rfl⟩
  split
  · exact ⟨0,rfl⟩
  · rename_i len header
    have bounds := nla_ok_bounds header
    obtain ⟨found,search⟩ := nla_find_ok data.1 x (a.toNat + 4) (len - 4) (by omega)
    rw [search]
    exact ⟨_,rfl⟩
lemma pay_offset_ok (skb : SkbView) : ∃ v, pay_offset skb = .ok v := by
  obtain ⟨data,read⟩ := data_ok skb
  rw [pay_offset,read]
  exact ⟨_,rfl⟩
/-- The sixteen fields the checker admits all have an arm. -/
lemma ancillary_ok (env : Env) (skb : SkbView) (m : Machine) {field : Nat} (small : field < 64)
    (aligned : field % 4 = 0) : ∃ m', ancillary env skb m field = .ok m' ∧ m'.pc = m.pc ∧ m'.mem = m.mem ∧ m'.written = m.written := by
  obtain ⟨attr,first⟩ := get_nlattr_ok skb m.a m.x
  obtain ⟨nest,second⟩ := get_nlattr_nest_ok skb m.a m.x
  obtain ⟨pay,third⟩ := pay_offset_ok skb
  obtain ⟨i,bound,rfl⟩ : ∃ i < 16, field = 4 * i := ⟨field / 4,by omega,by omega⟩
  interval_cases i <;> simp [ancillary,first,second,third,Except.map]

/-! ## Masks -/
def Sub (a b : BitVec 16) : Prop := ∀ i, a.getLsbD i = true → b.getLsbD i = true
lemma Sub.trans {a b c : BitVec 16} (first : Sub a b) (second : Sub b c) : Sub a c := fun i h => second i (first i h)
lemma sub_and_left (a b : BitVec 16) : Sub (a &&& b) a := by
  intro i held
  rw [getLsbD_and,and_eq_true] at held
  exact held.1
lemma sub_and_right (a b : BitVec 16) : Sub (a &&& b) b := by
  intro i held
  rw [getLsbD_and,and_eq_true] at held
  exact held.2
lemma narrow_sub (masks : Masks) (target i : Nat) (valid : BitVec 16) : Sub (masks.narrow target valid i) (masks i) := by
  unfold Masks.narrow
  split
  · exact sub_and_left _ _
  · exact fun _ held => held
lemma narrow_target (masks : Masks) (target : Nat) (valid : BitVec 16) : Sub (masks.narrow target valid target) valid := by
  rw [Masks.narrow,if_pos rfl]
  exact sub_and_right _ _
lemma getLsbD_slot (small : k < 16) : (1#16 <<< k).getLsbD i = decide (i = k) := by
  rw [getLsbD_shiftLeft,getLsbD_one]
  by_cases same : i = k
  · subst same
    simp [small]
  · simp [same]
    omega
lemma slot_of_ne_zero (small : k < 16) (held : valid &&& (1#16 <<< k) ≠ 0) : valid.getLsbD k := by
  by_contra missing
  refine held (eq_of_getLsbD_eq (fun i _ => ?_))
  rw [getLsbD_and,getLsbD_slot small]
  by_cases same : i = k
  · subst same
    simpa using missing
  · simp [same]
/-- What an instruction that passes looks like, and what it leaves. -/
inductive Passed (count pc : Nat) (insn : SockFilter) (masks : Masks) (valid : BitVec 16) : Masks → BitVec 16 → Prop
  | store (code : insn.code = 0x02 ∨ insn.code = 0x03) (small : insn.k.toNat < BPF_MEMWORDS) :
      Passed count pc insn masks valid masks (valid ||| (1#16 <<< insn.k.toNat))
  | jump (code : insn.code = 0x05) (inside : pc + 1 + insn.k.toNat < count) :
      Passed count pc insn masks valid (masks.narrow (pc + 1 + insn.k.toNat) valid) (BitVec.allOnes 16)
  | branch (code : conditional insn.code = true) (first : pc + 1 + insn.jt < count) (second : pc + 1 + insn.jf < count) :
      Passed count pc insn masks valid
        ((masks.narrow (pc + 1 + insn.jt) valid).narrow (pc + 1 + insn.jf) valid) (BitVec.allOnes 16)
  | plain (allowed : code_allowed insn.code = true) (noStore : ¬ (insn.code = 0x02 ∨ insn.code = 0x03))
      (noJump : insn.code ≠ 0x05) (noBranch : conditional insn.code = false)
      (divisor : insn.code = 0x34 ∨ insn.code = 0x94 → insn.k ≠ 0)
      (slot : insn.code = 0x60 ∨ insn.code = 0x61 →
        insn.k.toNat < BPF_MEMWORDS ∧ valid.getLsbD insn.k.toNat = true)
      (field : insn.code = 0x20 ∨ insn.code = 0x28 ∨ insn.code = 0x30 → SKF_AD_OFF.toNat ≤ insn.k.toNat →
        (insn.k - SKF_AD_OFF).toNat < SKF_AD_MAX ∧ (insn.k - SKF_AD_OFF).toNat % 4 = 0) :
      Passed count pc insn masks valid masks valid

lemma check_insn_passed (checked : check_insn count pc insn masks valid = some (masks',valid')) :
    Passed count pc insn masks valid masks' valid' := by
  unfold check_insn at checked
  simp only [Option.ite_none_left_eq_some] at checked
  obtain ⟨allowed,divisor,-,large,missing,outside,checked⟩ := checked
  by_cases store : insn.code = 0x02 ∨ insn.code = 0x03
  · rw [if_pos store] at checked
    cases checked
    exact .store store (Nat.lt_of_not_le (fun le => outside ⟨store,le⟩))
  rw [if_neg store] at checked
  by_cases jump : insn.code = 0x05
  · rw [if_pos jump,Option.ite_none_left_eq_some] at checked
    obtain ⟨past,⟨⟩⟩ := checked
    exact .jump jump (Nat.lt_of_not_le past)
  rw [if_neg jump] at checked
  by_cases branch : conditional insn.code
  · rw [if_pos branch,Option.ite_none_left_eq_some] at checked
    obtain ⟨past,⟨⟩⟩ := checked
    exact .branch branch (by omega) (by omega)
  rw [if_neg branch] at checked
  have slot (code : insn.code = 0x60 ∨ insn.code = 0x61) :
      insn.k.toNat < BPF_MEMWORDS ∧ valid.getLsbD insn.k.toNat := by
    have inside : insn.k.toNat < BPF_MEMWORDS := Nat.lt_of_not_le fun le => large ⟨code,le⟩
    exact ⟨inside,slot_of_ne_zero inside (fun zero => missing ⟨code,zero⟩)⟩
  have plain (field : insn.code = 0x20 ∨ insn.code = 0x28 ∨ insn.code = 0x30 → SKF_AD_OFF.toNat ≤ insn.k.toNat →
      (insn.k - SKF_AD_OFF).toNat < SKF_AD_MAX ∧ (insn.k - SKF_AD_OFF).toNat % 4 = 0) :
      Passed count pc insn masks valid masks valid :=
    .plain (by simpa using allowed) store jump (by simpa using branch) (fun code zero => divisor ⟨code,zero⟩) slot field
  by_cases special : (insn.code = 0x20 ∨ insn.code = 0x28 ∨ insn.code = 0x30) ∧ SKF_AD_OFF.toNat ≤ insn.k.toNat
  · rw [if_pos special,Option.ite_none_left_eq_some] at checked
    obtain ⟨known,⟨⟩⟩ := checked
    exact plain fun _ _ => by omega
  · rw [if_neg special] at checked
    cases checked
    exact plain fun code high => absurd ⟨code,high⟩ special
lemma Passed.shrinks (passed : Passed count pc insn masks valid masks' valid') (i : Nat) : Sub (masks' i) (masks i) := by
  cases passed with
  | store | plain => exact fun _ held => held
  | jump => exact narrow_sub _ _ _ _
  | branch => exact (narrow_sub _ _ _ _).trans (narrow_sub _ _ _ _)

/-! ## The certificate -/
/-- What the loop establishes at an instruction: it passes with the slots valid on entry, and the
    entries of its successors ask for no more than it provides. -/
def Certified (count : Nat) (entry : Masks) (pc : Nat) (insn : SockFilter) : Prop :=
  ∃ masks masks' valid', Passed count pc insn masks (entry pc) masks' valid' ∧
    (∀ i, pc < i → Sub (entry i) (masks' i)) ∧ Sub (entry (pc + 1)) valid'
/-- The slots valid on entry to each instruction, read off an accepting run of the checker. -/
lemma certificate {rest : List SockFilter} (checked : check_from count pc masks valid rest) :
    ∃ entry : Masks, Sub (entry pc) valid ∧ (∀ i, pc ≤ i → Sub (entry i) (masks i)) ∧
      ∀ j insn, rest[j]? = some insn → Certified count entry (pc + j) insn := by
  induction rest generalizing pc masks valid with
  | nil => exact ⟨fun i => valid &&& masks i,sub_and_left _ _,fun i _ => sub_and_right _ _,fun j insn h => by simp at h⟩
  | cons insn rest ih =>
    rw [check_from] at checked
    split at checked
    · exact absurd checked (by simp)
    rename_i masks' valid' turn
    have passed := check_insn_passed turn
    obtain ⟨entry,first,shrinks,certified⟩ := ih checked
    -- the entry of this instruction joins the entries found for the rest
    let joined : Masks := fun i => if i = pc then valid &&& masks pc else entry i
    have here : joined pc = valid &&& masks pc := if_pos rfl
    have there (i : Nat) (above : pc < i) : joined i = entry i := if_neg (by omega)
    refine ⟨joined,?_,?_,?_⟩
    · rw [here]
      exact sub_and_left _ _
    · intro i low
      rcases Nat.eq_or_lt_of_le low with rfl | above
      · rw [here]
        exact sub_and_right _ _
      · rw [there i above]
        exact (shrinks i above).trans (passed.shrinks i)
    · intro j next found
      cases j with
      | zero =>
        obtain rfl : insn = next := by simpa using found
        refine ⟨masks,masks',valid',?_,?_,?_⟩
        · rw [add_zero,here]
          exact passed
        · intro i above
          rw [there i above]
          exact shrinks i above
        · rw [there _ (by omega)]
          exact first
      | succ j =>
        obtain ⟨m,m',v',passed',later,following⟩ := certified j next (by simpa using found)
        have shift : pc + 1 + j = pc + (j + 1) := by omega
        rw [shift] at passed' later following
        refine ⟨m,m',v',?_,?_,?_⟩
        · rw [there _ (by omega)]
          exact passed'
        · intro i above
          rw [there i (by omega)]
          exact later i above
        · rw [there _ (by omega)]
          exact following

/-! ## Runs -/
/-- The scratch memory has its size, and the slots the checker counts on at `pc` are written. -/
structure Good (entry : Masks) (m : Machine) : Prop where
  size : m.mem.length = BPF_MEMWORDS
  written : ∀ i, (entry m.pc).getLsbD i = true → i ∈ m.written
/-- A verdict, or a good state further on. -/
inductive Leads (entry : Masks) (count : Nat) (m : Machine) : Except Fault Outcome → Prop
  | next (m' : Machine) (forward : m.pc ≤ m'.pc) (inside : m'.pc = m.pc ∨ m'.pc < count) (good : Good entry m') :
      Leads entry count m (.ok (.next m'))
  | done (verdict : BitVec 32) : Leads entry count m (.ok (.done verdict))

section Exec
variable {entry : Masks} {env : Env} {skb : SkbView} {m : Machine}

section
variable (good : Good entry m)
include good
lemma Good.keeps {m' : Machine} (pc : m'.pc = m.pc) (mem : m'.mem = m.mem)
    (written : m'.written = m.written) : Leads entry count m (.ok (.next m')) := by
  refine .next m' (le_of_eq pc.symm) (.inl pc) ⟨mem ▸ good.size,?_⟩
  rw [pc,written]
  exact good.written
lemma Good.loaded (v : Option (BitVec 32)) {next : BitVec 32 → Machine}
    (keeps : ∀ v, (next v).pc = m.pc ∧ (next v).mem = m.mem ∧ (next v).written = m.written) : Leads entry count m (Cbpf.loaded v next) := by
  cases v with
  | none => exact .done 0
  | some v => exact good.keeps (keeps v).1 (keeps v).2.1 (keeps v).2.2
lemma Good.divide {divisor v : BitVec 32} (nonzero : divisor ≠ 0) : Leads entry count m (Cbpf.divide m divisor v) := by
  rw [Cbpf.divide,if_neg nonzero]
  exact good.keeps rfl rfl rfl
lemma read_ok {k : BitVec 32} (small : k.toNat < BPF_MEMWORDS) (held : k.toNat ∈ m.written) : ∃ v, m.read k = .ok v := by
  refine ⟨m.mem.get ⟨k.toNat,by rw [good.size]; exact small⟩,?_⟩
  rw [Machine.read,getElem?_eq_getElem (by rw [good.size]; exact small)]
  simp [held]
lemma exec_plain (allowed : code_allowed insn.code) (noStore : ¬ (insn.code = 0x02 ∨ insn.code = 0x03)) (noJump : insn.code ≠ 0x05)
    (noBranch : conditional insn.code = false) (divisor : insn.code = 0x34 ∨ insn.code = 0x94 → insn.k ≠ 0)
    (slot : insn.code = 0x60 ∨ insn.code = 0x61 → insn.k.toNat < BPF_MEMWORDS ∧ insn.k.toNat ∈ m.written)
    (field : insn.code = 0x20 ∨ insn.code = 0x28 ∨ insn.code = 0x30 → SKF_AD_OFF.toNat ≤ insn.k.toNat →
      (insn.k - SKF_AD_OFF).toNat < SKF_AD_MAX ∧ (insn.k - SKF_AD_OFF).toNat % 4 = 0) : Leads entry count m (exec env skb insn m) := by
  have keeps (m' : Machine) (pc : m'.pc = m.pc) (mem : m'.mem = m.mem) (written : m'.written = m.written) :
    Leads entry count m (.ok (.next m')) := good.keeps pc mem written
  have reads (code : insn.code = 0x60 ∨ insn.code = 0x61) (f : BitVec 32 → Machine)
      (same : ∀ v, (f v).pc = m.pc ∧ (f v).mem = m.mem ∧ (f v).written = m.written) :
      Leads entry count m ((m.read insn.k).map (fun v => .next (f v))) := by
    obtain ⟨v,read⟩ := read_ok good (slot code).1 (slot code).2
    rw [read]
    exact keeps _ (same v).1 (same v).2.1 (same v).2.2
  have packet (code : insn.code = 0x20 ∨ insn.code = 0x28 ∨ insn.code = 0x30) (size : Nat) :
      Leads entry count m (if SKF_AD_OFF.toNat ≤ insn.k.toNat then
        (ancillary env skb m (insn.k - SKF_AD_OFF).toNat).map .next
        else loaded (skb.load insn.k.toInt size) (fun v => { m with a := v })) := by
    by_cases high : SKF_AD_OFF.toNat ≤ insn.k.toNat
    · rw [if_pos high]
      obtain ⟨small,aligned⟩ := field code high
      obtain ⟨m',found,pc,mem,written⟩ := ancillary_ok env skb m small aligned
      rw [found]
      exact keeps m' pc mem written
    · rw [if_neg high]
      exact good.loaded _ fun _ => ⟨rfl,rfl,rfl⟩
  have divides (v : BitVec 32) : Leads entry count m (if m.x = 0 then .ok (.done 0) else divide m m.x v) := by
    by_cases zero : m.x = 0
    · rw [if_pos zero]
      exact .done 0
    · rw [if_neg zero]
      exact good.divide zero
  unfold exec
  dsimp only
  -- the arms in the order of the source; the stores, jumps and branches do not occur
  split <;> try (rename_i code; first
    | exact keeps _ rfl rfl rfl
    | exact .done _
    | exact reads (.inl code) _ (fun _ => ⟨rfl,rfl,rfl⟩)
    | exact reads (.inr code) _ (fun _ => ⟨rfl,rfl,rfl⟩)
    | exact packet (.inl code) _
    | exact packet (.inr (.inl code)) _
    | exact packet (.inr (.inr code)) _
    | exact good.loaded _ (fun _ => ⟨rfl,rfl,rfl⟩)
    | exact good.divide (divisor (.inl code))
    | exact good.divide (divisor (.inr code))
    | exact divides _
    | exact (noStore (.inl code)).elim
    | exact (noStore (.inr code)).elim
    | exact (noJump code).elim
    | (rw [code] at noBranch; exact absurd noBranch (by decide)))
  exact absurd allowed (by simp_all [code_allowed])
end
lemma exec_store {k : BitVec 32} {at_ : Nat} (v : BitVec 32) (size : m.mem.length = BPF_MEMWORDS)
    (small : k.toNat < BPF_MEMWORDS) (next : Sub (entry m.pc) (entry at_ ||| (1#16 <<< k.toNat)))
    (held : ∀ i, (entry at_).getLsbD i → i ∈ m.written) : Leads entry count m (m.write k v) := by
  rw [Machine.write,if_pos (by rw [size]; exact small)]
  refine .next _ le_rfl (.inl rfl) ⟨by simpa using size,?_⟩
  intro i counted
  have provided := next i counted
  rw [getLsbD_or,getLsbD_slot small,or_eq_true,decide_eq_true_eq] at provided
  rcases provided with old | rfl
  · exact mem_cons_of_mem _ (held i old)
  · exact mem_cons_self
/-- One turn of a checked program: no fault, and the state that follows meets what the checker
    counts on there. -/
lemma exec_leads {at_ : Nat} (size : m.mem.length = BPF_MEMWORDS) (past : m.pc = at_ + 1)
    (held : ∀ i, (entry at_).getLsbD i → i ∈ m.written) (certified : Certified count entry at_ insn) :
    Leads entry count m (exec env skb insn m) := by
  obtain ⟨masks,masks',valid',passed,later,following⟩ := certified
  rw [← past] at following
  -- a jump to a target that the masks cover
  have jumps {offset : Nat} (inside : at_ + 1 + offset < count) (covered : Sub (masks' (at_ + 1 + offset)) (entry at_)) :
      Leads entry count m (.ok (.next { m with pc := m.pc + offset })) := by
    refine .next _ (Nat.le_add_right _ _) (.inr (by rw [past]; exact inside)) ⟨size,?_⟩
    intro i counted
    rw [past] at counted
    exact held i (covered i (later _ (by omega) i counted))
  cases passed with
  | store code small =>
    rcases code with code | code
    · simpa only [exec,code] using exec_store m.a size small following held
    · simpa only [exec,code] using exec_store m.x size small following held
  | jump code inside => simpa only [exec,code] using jumps inside (narrow_target _ _ _)
  | branch code first second =>
    have either (test : Bool) :
        Leads entry count m (.ok (.next { m with pc := m.pc + if test then insn.jt else insn.jf })) := by
      cases test
      · exact jumps second (narrow_target _ _ _)
      · exact jumps first ((narrow_sub _ _ _ _).trans (narrow_target _ _ _))
    simp only [conditional,mem_cons,not_mem_nil,or_false,decide_eq_true_eq] at code
    rcases code with code | code | code | code | code | code | code | code <;>
      · simp only [exec,code]
        exact either _
  | plain allowed noStore noJump noBranch divisor slot field =>
    have good : Good entry m := ⟨size,fun i counted => held i (following i counted)⟩
    exact exec_plain good allowed noStore noJump noBranch divisor (fun code => ⟨(slot code).1,held _ (slot code).2⟩) field
end Exec
lemma run_from_ok {insns : List SockFilter} {entry : Masks} {env : Env} {skb : SkbView}
    (certified : ∀ i insn, insns[i]? = some insn → Certified insns.length entry i insn)
    (returns : insns.getLast?.any (fun insn => insn.code = 0x06 || insn.code = 0x16)) (steps : Nat) (m : Machine)
    (inside : m.pc < insns.length) (enough : insns.length ≤ m.pc + steps) (good : Good entry m) :
    ∃ verdict, run_from insns env skb steps m = .ok verdict := by
  induction steps generalizing m with
  | zero => omega
  | succ steps ih =>
    have fetched : insns[m.pc]? = some (insns.get ⟨m.pc,inside⟩) := getElem?_eq_getElem inside
    rw [run_from,fetched]
    generalize insns.get ⟨m.pc,inside⟩ = insn at fetched
    dsimp only
    by_cases ret : insn.code = 0x06 ∨ insn.code = 0x16
    · rcases ret with ret | ret
      · exact ⟨insn.k,by simp only [exec,ret]; rfl⟩
      · exact ⟨m.a,by simp only [exec,ret]; rfl⟩
    · -- the last instruction returns, so this one is not the last
      have more : m.pc + 1 < insns.length := by
        by_contra last
        have final : insns.getLast? = some insn := by
          rw [List.getLast?_eq_getElem?]
          have : insns.length - 1 = m.pc := by omega
          rw [this]
          exact fetched
        rw [final] at returns
        exact ret (by simpa using returns)
      have leads : Leads entry insns.length { m with pc := m.pc + 1 } (exec env skb insn { m with pc := m.pc + 1 }) :=
        exec_leads good.size rfl good.written
        (certified _ _ fetched)
      generalize exec env skb insn { m with pc := m.pc + 1 } = outcome at leads
      cases leads with
      | done verdict => exact ⟨verdict,rfl⟩
      | next m' forward inside' good' =>
        have beyond : m.pc + 1 ≤ m'.pc := forward
        refine ih m' ?_ (by omega) good'
        rcases inside' with same | below
        · exact same ▸ more
        · exact below
/-- A program that the checker accepts reaches a verdict, on every packet, within one turn per
    instruction and without a fault. -/
theorem run_checked (insns : List SockFilter) (checked : check_classic insns = true) (env : Env) (skb : SkbView) :
    ∃ verdict, run insns env skb = .ok verdict := by
  simp only [check_classic,and_eq_true,not_eq_true',or_eq_false_iff,decide_eq_false_iff_not] at checked
  obtain ⟨⟨⟨some_,_⟩,passes⟩,returns⟩ := checked
  obtain ⟨entry,first,_,certified⟩ := certificate passes
  refine @run_from_ok insns entry env skb (fun i insn found => ?_) returns insns.length .start ?_ ?_ ?_
  · simpa using certified i insn found
  · exact Nat.pos_of_ne_zero some_
  · exact Nat.le_add_left _ _
  · refine ⟨length_replicate,fun i counted => ?_⟩
    have none_ := first i counted
    simp at none_
/-- A filter that keeps the accumulator in a scratch slot over a branch. -/
theorem run_checked_scratch : ∃ verdict, run [⟨0x20,0,0,0xfffff000⟩,⟨0x02,0,0,3⟩,⟨0x15,0,1,0x800⟩,⟨0x60,0,0,3⟩,⟨0x16,0,0,0⟩]
    ⟨0,fun _ => 0⟩ ⟨⟨[],by decide⟩,0,0,0,0,0x0800,0,0,0,none⟩ = .ok verdict :=
  run_checked _ (by decide) _ _
end Narf.Net.Cbpf
