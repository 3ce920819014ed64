import ClassScope.Path.Basic

/-!
Sets of paths in their order. Of several spellings of one path a set keeps one: the first one added, or
the last, as the caller needs it.
-/
namespace ClassScope

namespace Path

/-- The list with `p` put in its place. Where another spelling stands, `p` replaces it if `latest` says
so. -/
def place (latest : Bool) (p : Path) : List Path → List Path
  | [] => [p]
  | q :: qs =>
      if p.code < q.code then p :: q :: qs
      else if p.code = q.code then (if latest then p else q) :: qs
      else q :: place latest p qs

theorem code_mem_place {latest : Bool} {p : Path} {ps : List Path} {c : List (List Nat)} :
    c ∈ (place latest p ps).map code ↔ c = p.code ∨ c ∈ ps.map code := by
  induction ps with
  | nil => simp [place]
  | cons q qs ih =>
    rw [place]
    split
    · simp
    · split
      · rename_i he
        cases latest <;> simp [he]
      · simp only [List.map_cons, List.mem_cons, ih]
        exact or_left_comm

theorem pairwise_place {latest : Bool} {p : Path} {ps : List Path}
    (h : (ps.map code).Pairwise (· < ·)) : ((place latest p ps).map code).Pairwise (· < ·) := by
  induction ps with
  | nil => simp [place]
  | cons q qs ih =>
    rw [List.map_cons] at h
    obtain ⟨hq, hqs⟩ := List.pairwise_cons.mp h
    rw [place]
    split
    · rename_i hlt
      refine List.pairwise_cons.mpr ⟨fun x hx => ?_, h⟩
      rcases List.mem_cons.mp hx with rfl | hx
      · exact hlt
      · exact Std.lt_trans hlt (hq x hx)
    · split
      · rename_i he
        cases latest
        · exact h
        · simp only [reduceIte, List.map_cons, he]
          exact h
      · rename_i hlt hne
        refine List.pairwise_cons.mpr ⟨fun x hx => ?_, ih hqs⟩
        rcases code_mem_place.mp hx with rfl | hx
        · exact Std.lt_of_le_of_ne (Std.not_lt.mp hlt) (Ne.symm hne)
        · exact hq x hx

end Path

/-- Paths in ascending order, each in one spelling. -/
structure PathSet where
  paths : List Path
  ascending : (paths.map Path.code).Pairwise (· < ·)
  deriving DecidableEq

namespace PathSet

def empty : PathSet :=
  ⟨[], .nil⟩

instance : EmptyCollection PathSet := ⟨empty⟩

instance : Inhabited PathSet := ⟨empty⟩

def insert (latest : Bool) (p : Path) (s : PathSet) : PathSet :=
  ⟨Path.place latest p s.paths, Path.pairwise_place s.ascending⟩

/-- The set of the listed paths, each in the spelling listed first. -/
def ofFirst (paths : List Path) : PathSet :=
  paths.foldl (fun s p => s.insert false p) empty

/-- The set of the listed paths, each in the spelling listed last. -/
def ofLast (paths : List Path) : PathSet :=
  paths.foldl (fun s p => s.insert true p) empty

def toList (s : PathSet) : List Path :=
  s.paths

def size (s : PathSet) : Nat :=
  s.paths.length

/-- Both sets together, in the spelling of the first where they share a path. -/
def union (s t : PathSet) : PathSet :=
  t.paths.foldl (fun s p => s.insert false p) s

/-- Whether a path is in a set, in whatever spelling. -/
def Names (s : PathSet) (p : Path) : Prop :=
  ∃ q ∈ s.paths, p.Same q

/-- What tells two sets apart: the paths they name, whatever the spelling. -/
def key (s : PathSet) : List (List Path.Component) :=
  s.paths.map Path.components

theorem names_iff_code {s : PathSet} {p : Path} : s.Names p ↔ p.code ∈ s.paths.map Path.code := by
  simp only [Names, Path.same_iff_code, List.mem_map]
  constructor
  · rintro ⟨q, hq, h⟩
    exact ⟨q, hq, h.symm⟩
  · rintro ⟨q, hq, h⟩
    exact ⟨q, hq, h.symm⟩

theorem names_insert {latest : Bool} {s : PathSet} {p q : Path} :
    (s.insert latest q).Names p ↔ p.Same q ∨ s.Names p := by
  rw [names_iff_code, names_iff_code, Path.same_iff_code]
  exact Path.code_mem_place

theorem names_foldl_insert {latest : Bool} {ps : List Path} {s : PathSet} {p : Path} :
    (ps.foldl (fun s p => s.insert latest p) s).Names p ↔ s.Names p ∨ ∃ q ∈ ps, p.Same q := by
  induction ps generalizing s with
  | nil => simp
  | cons q ps ih =>
      rw [List.foldl_cons, ih, names_insert, or_comm (a := p.Same q), or_assoc]
      simp only [List.mem_cons, exists_eq_or_imp]

theorem names_ofFirst {ps : List Path} {p : Path} : (ofFirst ps).Names p ↔ ∃ q ∈ ps, p.Same q := by
  rw [ofFirst, names_foldl_insert]
  exact or_iff_right fun ⟨_, hq, _⟩ => nomatch hq

theorem names_ofLast {ps : List Path} {p : Path} : (ofLast ps).Names p ↔ ∃ q ∈ ps, p.Same q := by
  rw [ofLast, names_foldl_insert]
  exact or_iff_right fun ⟨_, hq, _⟩ => nomatch hq

end PathSet

end ClassScope
