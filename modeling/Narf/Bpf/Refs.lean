import Narf.Bpf.State

/-! Which references a state holds after each operation on the reference list. -/
namespace Narf.Bpf
lemma holds_insert_ref (r : Ref) (refs : List Ref) (id : Nat) : holds_ref (insert_ref r refs) id = (holds_ref refs id || r.id == id) := by
  induction refs with
  | nil => simp [insert_ref,holds_ref]
  | cons first rest later =>
    unfold insert_ref
    split
    · simp [holds_ref,Bool.or_comm]
    · simp only [holds_ref,List.any_cons] at later ⊢
      rw [later,Bool.or_assoc]
lemma holds_acquire_ref (refs : List Ref) (r : Ref) (id : Nat) : holds_ref (acquire_ref refs r) id = (holds_ref refs id || r.id == id) := by
  unfold acquire_ref
  split
  · next held =>
    by_cases same : r.id = id
    · subst same
      simp [held]
    · simp [same]
  · exact holds_insert_ref r refs id
lemma holds_union_refs (refs other : List Ref) (id : Nat) :
    holds_ref (union_refs refs other) id = (holds_ref refs id || holds_ref other id) := by
  unfold union_refs
  induction other generalizing refs with
  | nil => simp [holds_ref]
  | cons first rest later =>
    rw [List.foldl_cons,later,holds_acquire_ref]
    simp [holds_ref,Bool.or_assoc]

namespace AbsState
lemma holds_join (st other : AbsState) (id : Nat) : (st.join other).holds id = (st.holds id || other.holds id) :=
  holds_union_refs st.refs other.refs id
lemma holds_widen (st next : AbsState) (thresholds : List I64) (precise : BitVec 16) (id : Nat) :
    (st.widen next thresholds precise).holds id = (st.holds id || next.holds id) :=
  holds_union_refs st.refs next.refs id
lemma holds_of_subset {st other : AbsState} (subset : st.is_subset_of other) {id : Nat} (held : st.holds id) : other.holds id := by
  simp only [is_subset_of,Bool.and_eq_true] at subset
  obtain ⟨r,mem,same⟩ := List.any_eq_true.mp held
  have found := List.all_eq_true.mp subset.2 r mem
  rwa [beq_iff_eq.mp same] at found
end AbsState
end Narf.Bpf
