import ClassScope.Table
import Mathlib.Data.Set.Card

/-!
# Keys of tables

Which keys stand in a table after an operation, and how many.
-/

namespace ClassScope.Table

variable {κ α : Type} [DecidableEq κ] {t : Table κ α} {k j : κ} {v : α}

theorem has_iff : t.has k = true ↔ ∃ v, t.get? k = some v := by
  rw [has, Option.isSome_iff_exists]

theorem has_of_get? (h : t.get? k = some v) : t.has k = true :=
  has_iff.mpr ⟨v, h⟩

@[simp] theorem has_empty (k : κ) : (∅ : Table κ α).has k = false := rfl

theorem has_put : (t.put k v).has j = true ↔ j = k ∨ t.has j = true := by
  by_cases h : j = k
  · subst h
    simp [has]
  · simp [has, get?_put_of_ne h, h]

theorem has_iff_mem_keys : t.has k = true ↔ k ∈ t.entries.map (·.1) := by
  simp [has_iff, get?_eq_some_iff]

/-- Each key of a table counts once. -/
theorem size_eq_ncard (t : Table κ α) : t.size = Set.ncard {k | t.has k = true} := by
  have keys : {k | t.has k = true} = ((t.entries.map (·.1)).toFinset : Set κ) := by
    ext k
    rw [Set.mem_ofPred_eq, has_iff_mem_keys, Finset.mem_coe, List.mem_toFinset]
  rw [keys, Set.ncard_coe_finset, List.toFinset_card_of_nodup t.unique, List.length_map, size]

/-- Where each value stands under one key only, each value counts once. -/
theorem size_eq_ncard_values (one : ∀ {k j v}, t.get? k = some v → t.get? j = some v → k = j) :
    t.size = Set.ncard {v | ∃ k, t.get? k = some v} := by
  classical
  have nodup : (t.entries.map (·.2)).Nodup := by
    refine t.unique.of_map.map_on ?_
    rintro ⟨k, v⟩ hk ⟨j, w⟩ hj rfl
    rw [one (get?_eq_some_iff.mpr hk) (get?_eq_some_iff.mpr hj)]
  have values : {v | ∃ k, t.get? k = some v} = ((t.entries.map (·.2)).toFinset : Set α) := by
    ext v
    rw [Set.mem_ofPred_eq, ← mem_values, Finset.mem_coe, List.mem_toFinset]
  rw [values, Set.ncard_coe_finset, List.toFinset_card_of_nodup nodup, List.length_map, size]

/-! ## Filters that keep all or nothing -/

variable {p : κ → α → Bool}

theorem filter_eq_self (h : ∀ {k v}, t.get? k = some v → p k v = true) : t.filter p = t := by
  obtain ⟨entries, unique⟩ := t
  rw [filter, mk.injEq, List.filter_eq_self]
  exact fun _ he => h (get?_eq_some_iff.mpr he)

theorem filter_eq_empty (h : ∀ {k v}, t.get? k = some v → p k v = false) : t.filter p = ∅ := by
  obtain ⟨entries, unique⟩ := t
  refine (mk.injEq _ _ _ _).mpr (List.filter_eq_nil_iff.mpr ?_)
  exact fun _ he => Bool.eq_false_iff.mp (h (get?_eq_some_iff.mpr he))

end ClassScope.Table
