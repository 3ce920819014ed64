/-!
Sets of class names. A set is the strictly ascending list of its names, so equal sets are equal lists and
every order of building one gives the same value. Names ascend by code points.
-/
namespace ClassScope

structure ClassNameSet where
  names : List String
  ascending : names.Pairwise (· < ·)
  deriving DecidableEq

namespace ClassNameSet

/-- The list with `name` put in its place, unchanged when it is there already. -/
def place (name : String) : List String → List String
  | [] => [name]
  | n :: ns =>
      if name < n then name :: n :: ns
      else if name = n then n :: ns
      else n :: place name ns

theorem mem_place {name x : String} {ns : List String} : x ∈ place name ns ↔ x = name ∨ x ∈ ns := by
  induction ns with
  | nil => simp [place]
  | cons n ns ih =>
    rw [place]
    split
    · simp
    · split
      · rename_i he
        subst he
        simp
      · simp [ih, or_left_comm]

theorem pairwise_place {name : String} {ns : List String} (h : ns.Pairwise (· < ·)) :
    (place name ns).Pairwise (· < ·) := by
  induction ns with
  | nil => simp [place]
  | cons n ns ih =>
    obtain ⟨hn, hns⟩ := List.pairwise_cons.mp h
    rw [place]
    split
    · rename_i hlt
      refine List.pairwise_cons.mpr ⟨fun x hx => ?_, h⟩
      rcases List.mem_cons.mp hx with rfl | hx
      · exact hlt
      · exact String.lt_trans hlt (hn x hx)
    · split
      · exact h
      · rename_i hlt hne
        refine List.pairwise_cons.mpr ⟨fun x hx => ?_, ih hns⟩
        rcases mem_place.mp hx with rfl | hx
        · exact Std.lt_of_le_of_ne (String.not_lt.mp hlt) (Ne.symm hne)
        · exact hn x hx

/-- Whether `name` is missing from an ascending list. What stands behind its place is not looked at. -/
def lacks (name : String) : List String → Bool
  | [] => true
  | n :: ns =>
      if name < n then true
      else if name = n then false
      else lacks name ns

theorem lacks_eq_true_iff {name : String} {ns : List String} (h : ns.Pairwise (· < ·)) :
    lacks name ns = true ↔ name ∉ ns := by
  induction ns with
  | nil => simp [lacks]
  | cons n ns ih =>
    obtain ⟨hn, hns⟩ := List.pairwise_cons.mp h
    rw [lacks]
    split
    · rename_i hlt
      have habsent : name ∉ n :: ns := by
        intro hmem
        rcases List.mem_cons.mp hmem with rfl | hmem
        · exact String.lt_irrefl name hlt
        · exact String.lt_irrefl name (String.lt_trans hlt (hn name hmem))
      simp [habsent]
    · split
      · rename_i he
        simp [he]
      · rename_i hne
        rw [ih hns, List.mem_cons, or_iff_right hne]

/-! ## Operations -/

def empty : ClassNameSet :=
  ⟨[], .nil⟩

instance : EmptyCollection ClassNameSet := ⟨empty⟩

instance : Inhabited ClassNameSet := ⟨empty⟩

instance : Membership String ClassNameSet := ⟨fun s name => name ∈ s.names⟩

instance (name : String) (s : ClassNameSet) : Decidable (name ∈ s) :=
  inferInstanceAs (Decidable (name ∈ s.names))

def insert (name : String) (s : ClassNameSet) : ClassNameSet :=
  ⟨place name s.names, pairwise_place s.ascending⟩

/-- Adds a name, and says whether it was missing. -/
def add (name : String) (s : ClassNameSet) : Bool × ClassNameSet :=
  (lacks name s.names, s.insert name)

/-- The set of the listed names, in any order and with any repetition. -/
def ofList (names : List String) : ClassNameSet :=
  names.foldr insert empty

def toList (s : ClassNameSet) : List String :=
  s.names

def size (s : ClassNameSet) : Nat :=
  s.names.length

def isEmpty (s : ClassNameSet) : Bool :=
  s.names.isEmpty

def contains (s : ClassNameSet) (name : String) : Bool :=
  decide (name ∈ s)

def extend (s : ClassNameSet) (names : List String) : ClassNameSet :=
  names.foldr insert s

/-- Adds the names of `other`; an empty set takes it over as it is. -/
def merge (s other : ClassNameSet) : ClassNameSet :=
  if s.isEmpty then other else s.extend other.names

def union (sets : List ClassNameSet) : ClassNameSet :=
  sets.foldl merge empty

/-! ## Membership -/

theorem mem_def {name : String} {s : ClassNameSet} : name ∈ s ↔ name ∈ s.names := Iff.rfl

@[simp] theorem not_mem_empty (name : String) : ¬ name ∈ empty := by
  simp [mem_def, empty]

@[simp] theorem mem_insert {name x : String} {s : ClassNameSet} :
    x ∈ s.insert name ↔ x = name ∨ x ∈ s :=
  mem_place

theorem add_fst_eq_true_iff {name : String} {s : ClassNameSet} : (s.add name).1 = true ↔ name ∉ s :=
  lacks_eq_true_iff s.ascending

@[simp] theorem mem_extend {x : String} {s : ClassNameSet} {names : List String} :
    x ∈ s.extend names ↔ x ∈ names ∨ x ∈ s := by
  induction names with
  | nil => simp [extend]
  | cons n ns ih =>
    have : s.extend (n :: ns) = (s.extend ns).insert n := rfl
    simp [this, ih, or_assoc]

@[simp] theorem mem_ofList {x : String} {names : List String} : x ∈ ofList names ↔ x ∈ names := by
  have : ofList names = empty.extend names := rfl
  simp [this]

@[simp] theorem mem_merge {x : String} {s other : ClassNameSet} :
    x ∈ s.merge other ↔ x ∈ s ∨ x ∈ other := by
  unfold merge
  split
  · rename_i h
    have : s.names = [] := List.isEmpty_iff.mp h
    simp [mem_def, this]
  · rw [mem_extend, mem_def (s := other)]
    exact or_comm

theorem mem_union {x : String} {sets : List ClassNameSet} : x ∈ union sets ↔ ∃ s ∈ sets, x ∈ s := by
  have h (t : ClassNameSet) : x ∈ sets.foldl merge t ↔ x ∈ t ∨ ∃ s ∈ sets, x ∈ s := by
    induction sets generalizing t with
    | nil => simp
    | cons s sets ih =>
      rw [List.foldl_cons, ih, mem_merge, or_assoc]
      simp only [List.mem_cons, exists_eq_or_imp]
  rw [union, h]
  exact or_iff_right (not_mem_empty x)

theorem eq_of_mem_iff {s t : ClassNameSet} (h : ∀ x, x ∈ s ↔ x ∈ t) : s = t := by
  obtain ⟨xs, hxs⟩ := s
  obtain ⟨ys, hys⟩ := t
  have hperm : xs.Perm ys :=
    (List.perm_ext_iff_of_nodup (hxs.imp String.ne_of_lt) (hys.imp String.ne_of_lt)).mpr h
  have hanti (x y : String) (_ : x ∈ xs) (_ : y ∈ ys) (hxy : x < y) (hyx : y < x) : x = y :=
    absurd (String.lt_trans hxy hyx) (String.lt_irrefl x)
  obtain rfl := hperm.eq_of_pairwise hanti hxs hys
  rfl

end ClassNameSet

end ClassScope
