/-!
Finite tables from keys to values, in which each key stands once.
-/
namespace ClassScope

structure Table (κ α : Type) where
  entries : List (κ × α)
  unique : (entries.map (·.1)).Nodup

namespace Table

variable {κ α : Type} [DecidableEq κ]

def empty : Table κ α :=
  ⟨[], .nil⟩

instance : EmptyCollection (Table κ α) := ⟨empty⟩

instance : Inhabited (Table κ α) := ⟨empty⟩

def get? (t : Table κ α) (k : κ) : Option α :=
  t.entries.lookup k

def has (t : Table κ α) (k : κ) : Bool :=
  (t.get? k).isSome

def size (t : Table κ α) : Nat :=
  t.entries.length

def isEmpty (t : Table κ α) : Bool :=
  t.entries.isEmpty

def filter (p : κ → α → Bool) (t : Table κ α) : Table κ α :=
  ⟨t.entries.filter fun (k, v) => p k v,
    t.unique.sublist ((List.filter_sublist (l := t.entries)).map _)⟩

def erase (t : Table κ α) (k : κ) : Table κ α :=
  t.filter fun k' _ => k' ≠ k

/-- Puts a value under a key, in the place of the one that is there. -/
def put (t : Table κ α) (k : κ) (v : α) : Table κ α :=
  ⟨(k, v) :: (t.erase k).entries, by
    refine List.nodup_cons.mpr ⟨?_, (t.erase k).unique⟩
    simp [erase, filter]⟩

/-! ## Looking up -/

theorem lookup_eq_some_iff {es : List (κ × α)} (h : (es.map (·.1)).Nodup) {k : κ} {v : α} :
    es.lookup k = some v ↔ (k, v) ∈ es := by
  induction es with
  | nil => simp
  | cons e es ih =>
    obtain ⟨k', v'⟩ := e
    obtain ⟨hk, hes⟩ := List.nodup_cons.mp h
    rw [List.lookup_cons]
    by_cases hkk : k = k'
    · subst hkk
      simp only [beq_self_eq_true, Option.some.injEq, List.mem_cons, Prod.mk.injEq, true_and]
      constructor
      · exact fun hv => .inl hv.symm
      · rintro (hv | hm)
        · exact hv.symm
        · exact absurd (List.mem_map_of_mem hm) hk
    · rw [beq_false_of_ne hkk]
      simpa [hkk] using ih hes

theorem get?_eq_some_iff {t : Table κ α} {k : κ} {v : α} : t.get? k = some v ↔ (k, v) ∈ t.entries :=
  lookup_eq_some_iff t.unique

@[simp] theorem get?_empty (k : κ) : (∅ : Table κ α).get? k = none := rfl

theorem get?_filter {t : Table κ α} {p : κ → α → Bool} {k : κ} :
    (t.filter p).get? k = (t.get? k).filter (p k) := by
  ext v
  simp [get?_eq_some_iff, filter, Option.filter_eq_some_iff]

theorem get?_filter_eq_some_iff {t : Table κ α} {p : κ → α → Bool} {k : κ} {v : α} :
    (t.filter p).get? k = some v ↔ t.get? k = some v ∧ p k v = true := by
  rw [get?_filter, Option.filter_eq_some_iff]

theorem get?_erase {t : Table κ α} {k j : κ} :
    (t.erase k).get? j = if j = k then none else t.get? j := by
  rw [erase, get?_filter]
  by_cases h : j = k
  · simp [h]
  · cases t.get? j <;> simp [h, Option.filter]

@[simp] theorem get?_put_self {t : Table κ α} {k : κ} {v : α} : (t.put k v).get? k = some v := by
  simp [get?, put]

theorem get?_put_of_ne {t : Table κ α} {k j : κ} {v : α} (h : j ≠ k) :
    (t.put k v).get? j = t.get? j := by
  have : (t.put k v).get? j = (t.erase k).get? j := by
    simp [get?, put, List.lookup_cons, beq_false_of_ne h]
  rw [this, get?_erase, if_neg h]

theorem put_erase {t : Table κ α} {k : κ} {v : α} : (t.erase k).put k v = t.put k v := by
  simp [put, erase, filter]

theorem mem_values {t : Table κ α} {v : α} : v ∈ t.entries.map (·.2) ↔ ∃ k, t.get? k = some v := by
  simp [get?_eq_some_iff]

end Table

end ClassScope
