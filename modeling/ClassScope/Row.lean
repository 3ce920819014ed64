/-!
Rows of values that are only ever added to: a number given out for a value stays its number.
-/
namespace ClassScope

/-- Values by the number they were given when they were added. -/
structure Row (α : Type) where
  items : List α := []
  deriving Repr

namespace Row

variable {α : Type}

instance : Inhabited (Row α) := ⟨⟨[]⟩⟩

def size (r : Row α) : Nat :=
  r.items.length

def get? (r : Row α) (i : Nat) : Option α :=
  r.items[i]?

/-- The value with a number that was given out. -/
def get [Inhabited α] (r : Row α) (i : Nat) : α :=
  (r.get? i).getD default

/-- Adds a value; its number is the size before. -/
def push (r : Row α) (a : α) : Row α :=
  ⟨r.items ++ [a]⟩

def modify (r : Row α) (i : Nat) (f : α → α) : Row α :=
  ⟨r.items.modify i f⟩

@[simp] theorem size_push (r : Row α) (a : α) : (r.push a).size = r.size + 1 := by
  simp [size, push]

@[simp] theorem size_modify (r : Row α) (i : Nat) (f : α → α) : (r.modify i f).size = r.size := by
  simp [size, modify]

@[simp] theorem get?_push_self (r : Row α) (a : α) : (r.push a).get? r.size = some a := by
  simp [get?, push, size]

theorem get?_push_of_lt {r : Row α} {a : α} {i : Nat} (h : i < r.size) :
    (r.push a).get? i = r.get? i := by
  simp [get?, push, List.getElem?_append_left (show i < r.items.length from h)]

theorem lt_of_get? {r : Row α} {i : Nat} {a : α} (h : r.get? i = some a) : i < r.size :=
  (List.getElem?_eq_some_iff.mp h).1

theorem get?_push_of_ne {r : Row α} {a : α} {i : Nat} (h : i ≠ r.size) :
    (r.push a).get? i = r.get? i := by
  rcases Nat.lt_or_gt_of_ne h with hlt | hgt
  · exact get?_push_of_lt hlt
  · rw [get?, get?, List.getElem?_eq_none (Nat.le_of_lt hgt), List.getElem?_eq_none]
    simp only [push, List.length_append, List.length_singleton]
    exact hgt

theorem get?_modify {r : Row α} {i j : Nat} {f : α → α} :
    (r.modify i f).get? j = if i = j then (r.get? j).map f else r.get? j := by
  simp only [get?, modify, List.getElem?_modify]
  split <;> simp

/-! ## Values by number -/

section

variable [Inhabited α]

theorem get_eq_of_get? {r : Row α} {i : Nat} {a : α} (h : r.get? i = some a) : r.get i = a := by
  simp [get, h]

theorem get?_eq_get {r : Row α} {i : Nat} (h : i < r.size) : r.get? i = some (r.get i) := by
  have hi : r.get? i = some r.items[i] := List.getElem?_eq_getElem h
  rw [hi, get_eq_of_get? hi]

theorem get_of_size_le {r : Row α} {i : Nat} (h : r.size ≤ i) : r.get i = default := by
  simp [get, get?, List.getElem?_eq_none (show r.items.length ≤ i from h)]

@[simp] theorem get_push_self (r : Row α) (a : α) : (r.push a).get r.size = a :=
  get_eq_of_get? (get?_push_self r a)

theorem get_push_of_ne {r : Row α} {a : α} {i : Nat} (h : i ≠ r.size) :
    (r.push a).get i = r.get i := by
  rw [get, get, get?_push_of_ne h]

theorem get_modify {r : Row α} {i j : Nat} {f : α → α} (h : j < r.size) :
    (r.modify i f).get j = if i = j then f (r.get j) else r.get j := by
  apply get_eq_of_get?
  rw [get?_modify, get?_eq_get h]
  split <;> rfl

theorem get_modify_of_ne {r : Row α} {i j : Nat} {f : α → α} (h : i ≠ j) :
    (r.modify i f).get j = r.get j := by
  rw [get, get, get?_modify, if_neg h]

/-- Whatever a change does to an element it is made on, it does to each one or leaves it as it is. -/
theorem get_modify_rel {r : Row α} {f : α → α} {R : α → α → Prop} (refl : ∀ a, R a a)
    (change : ∀ a, R a (f a)) (i j : Nat) : R (r.get j) ((r.modify i f).get j) := by
  rcases Nat.lt_or_ge j r.size with hj | hj
  · rw [get_modify hj]
    split
    · exact change _
    · exact refl _
  · have hj' : (r.modify i f).size ≤ j := by
      rw [size_modify]
      exact hj
    rw [get_of_size_le hj, get_of_size_le hj']
    exact refl _

/-- A change keeps what it keeps of the element it is made on. -/
theorem apply_get_modify {β : Type} (g : α → β) {r : Row α} {f : α → α} {i j : Nat}
    (kept : i = j → ∀ a, g (f a) = g a) : g ((r.modify i f).get j) = g (r.get j) := by
  by_cases h : i = j
  · exact get_modify_rel (R := fun a b => g b = g a) (fun _ => rfl) (kept h) i j
  · rw [get_modify_of_ne h]

theorem modify_push_of_lt {r : Row α} {a : α} {i : Nat} {f : α → α} (h : i < r.size) :
    (r.push a).modify i f = (r.modify i f).push a := by
  have hi : i < r.items.length := h
  simp only [push, modify, mk.injEq]
  rw [List.modify_eq_set, List.modify_eq_set, List.set_append_left _ _ hi,
    List.getElem?_append_left hi]

end

end Row

end ClassScope
