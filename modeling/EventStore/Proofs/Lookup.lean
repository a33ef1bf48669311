import Std.Data.ExtTreeMap

/-!
# Looking up keys

What a map holds when an entry has been put in or taken out, by equality of the keys.
-/

namespace EventStore

open Std

variable {κ : Type u} {α : Type v} {cmp : κ → κ → Ordering} [TransCmp cmp] [LawfulEqCmp cmp]
  {m : ExtTreeMap κ α cmp} {k k' : κ} {a b : α}

theorem getElem?_insert_of_ne (h : k' ≠ k) (a : α) : (m.insert k a)[k']? = m[k']? := by
  rw [ExtTreeMap.getElem?_insert, if_neg fun hc => h (LawfulEqCmp.eq_of_compare hc).symm]

theorem getElem?_insert_eq_some :
    (m.insert k a)[k']? = some b ↔ k' = k ∧ b = a ∨ k' ≠ k ∧ m[k']? = some b := by
  by_cases h : k' = k
  · subst h
    simp [eq_comm]
  · simp [getElem?_insert_of_ne h, h]

theorem getElem?_insert_eq_none : (m.insert k a)[k']? = none ↔ k' ≠ k ∧ m[k']? = none := by
  by_cases h : k' = k
  · simp [h]
  · simp [getElem?_insert_of_ne h, h]

theorem getElem?_erase_of_ne (h : k' ≠ k) : (m.erase k)[k']? = m[k']? := by
  rw [ExtTreeMap.getElem?_erase, if_neg fun hc => h (LawfulEqCmp.eq_of_compare hc).symm]

theorem getElem?_erase_eq_some : (m.erase k)[k']? = some b ↔ k' ≠ k ∧ m[k']? = some b := by
  by_cases h : k' = k
  · simp [h]
  · simp [getElem?_erase_of_ne h, h]

end EventStore
