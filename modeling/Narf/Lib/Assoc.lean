import Mathlib

/-! Finite maps as association lists read by first match: the part of a keyed map's
interface that does not depend on the order of its entries. -/

namespace Narf.Lib
open List

abbrev Assoc (κ α : Type) := List (κ × α)

namespace Assoc
variable {κ α : Type} [DecidableEq κ]
def get? : Assoc κ α → κ → Option α
  | [],_ => none
  | (key,value) :: rest,wanted => if wanted = key then some value else get? rest wanted
def insert : Assoc κ α → κ → α → Assoc κ α
  | [],key,value => [(key,value)]
  | (first,old) :: rest,key,value =>
    if key = first then (key,value) :: rest else (first,old) :: insert rest key value
def mapValues (f : κ → α → α) (entries : Assoc κ α) : Assoc κ α :=
  entries.map (fun entry => (entry.1,f entry.1 entry.2))
/-- Rebuild the map from its keys, dropping those sent to `none`. -/
def collect (f : κ → Option α) (entries : Assoc κ α) : Assoc κ α :=
  entries.filterMap (fun entry => (f entry.1).map (fun value => (entry.1,value)))
@[simp] lemma get?_nil (wanted : κ) : get? ([] : Assoc κ α) wanted = none := rfl
lemma get?_insert (entries : Assoc κ α) (key wanted : κ) (value : α) :
    (entries.insert key value).get? wanted = if wanted = key then some value else entries.get? wanted := by
  induction entries with
  | nil => simp [insert,get?]
  | cons entry rest later =>
    obtain ⟨first,old⟩ := entry
    by_cases same : key = first
    · subst same
      simp only [insert,if_true,get?]
      split <;> rfl
    · simp only [insert,if_neg same,get?,later]
      split
      · next here => rw [if_neg (fun there => same (there.symm.trans here))]
      · rfl
lemma get?_mapValues (f : κ → α → α) (entries : Assoc κ α) (wanted : κ) :
    (entries.mapValues f).get? wanted = (entries.get? wanted).map (f wanted) := by
  induction entries with
  | nil => rfl
  | cons entry rest later =>
    obtain ⟨first,old⟩ := entry
    simp only [mapValues,map_cons,get?] at later ⊢
    split
    · next here => simp [here]
    · exact later
lemma get?_collect (f : κ → Option α) (entries : Assoc κ α) (wanted : κ) :
    (entries.collect f).get? wanted = if (entries.get? wanted).isSome then f wanted else none := by
  induction entries with
  | nil => rfl
  | cons entry rest later =>
    obtain ⟨first,old⟩ := entry
    by_cases same : wanted = first
    · subst same
      cases kept : f wanted with
      | some value => simp [collect,get?,kept]
      | none =>
        have later' := later
        simp only [collect,filterMap_cons,kept,Option.map_none,get?] at later' ⊢
        simp [later']
    · cases kept : f first with
      | some value =>
        simp only [collect,filterMap_cons,kept,Option.map_some,get?,if_neg same] at later ⊢
        exact later
      | none =>
        simp only [collect,filterMap_cons,kept,Option.map_none,get?,if_neg same] at later ⊢
        exact later
lemma mem_of_get? {entries : Assoc κ α} {wanted : κ} {value : α} (found : entries.get? wanted = some value) : (wanted,value) ∈ entries := by
  induction entries with
  | nil => simp at found
  | cons entry rest later =>
    obtain ⟨first,old⟩ := entry
    simp only [get?] at found
    split at found
    · next same =>
      cases found
      rw [same]
      exact mem_cons_self
    · exact mem_cons_of_mem _ (later found)
end Assoc
end Narf.Lib
