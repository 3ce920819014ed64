import ClassScope.Proofs.Scan.Caches
import Mathlib.Data.List.Induction
import Mathlib.Data.List.Nodup

/-!
# How entries are listed

Of several spellings of a path one is kept, and only that one is scanned: the first one listed, or the last one
where a file context has kept the paths before. What can be read under another spelling only is missed.
-/

namespace ClassScope

variable {d : Disk} {ps qs : List Path} {p q r : Path}

/-! ## The spellings that are kept -/

namespace Path

/-- Those paths of a list that no other spelling of stands before. -/
def firsts (ps : List Path) : List Path :=
  ps.filter fun p => ps.find? (fun q => p.Same q) = some p

/-- Those paths of a list that no other spelling of stands after. -/
def lasts (ps : List Path) : List Path :=
  firsts ps.reverse

theorem mem_firsts : p ∈ firsts ps ↔ ps.find? (fun q => p.Same q) = some p := by
  rw [firsts, List.mem_filter, decide_eq_true_iff]
  exact and_iff_right_of_imp List.mem_of_find?_eq_some

theorem mem_of_mem_firsts (h : p ∈ firsts ps) : p ∈ ps :=
  (List.mem_filter.mp h).1

theorem find?_same (h : p.Same q) : ps.find? (fun r => p.Same r) = ps.find? (fun r => q.Same r) := by
  have hc : p.components = q.components := h
  have hfun : (fun r => decide (p.Same r)) = fun r => decide (q.Same r) := by
    funext r
    rw [decide_eq_decide, Same, Same, hc]
  rw [hfun]

/-- Every path of a list has a first spelling. -/
theorem exists_first (hp : p ∈ ps) : ∃ q ∈ firsts ps, p.Same q := by
  have hsome : (ps.find? fun q => p.Same q).isSome := by
    rw [List.find?_isSome]
    exact ⟨p, hp, decide_eq_true rfl⟩
  obtain ⟨q, hq⟩ := Option.isSome_iff_exists.mp hsome
  have hpq : p.Same q := by simpa using List.find?_some hq
  exact ⟨q, mem_firsts.mpr (find?_same hpq ▸ hq), hpq⟩

/-- In an ascending list the path goes where no other spelling of it is, or in the place of one. -/
theorem mem_place (latest : Bool) (p q : Path) (h : (ps.map code).Pairwise (· < ·)) :
    q ∈ place latest p ps ↔
      q = p ∧ (latest = true ∨ ∀ r ∈ ps, ¬ p.Same r) ∨ q ∈ ps ∧ (latest = false ∨ ¬ p.Same q) := by
  induction ps with
  | nil => simp [place]
  | cons r rs ih =>
      rw [List.map_cons] at h
      obtain ⟨hr, hrs⟩ := List.pairwise_cons.mp h
      have later (hle : p.code ≤ r.code) : ∀ x ∈ rs, ¬ p.Same x := by
        intro x hx hsame
        have hlt := hr x.code (List.mem_map_of_mem hx)
        rw [← same_iff_code.mp hsame] at hlt
        exact Std.not_lt.mpr hle hlt
      rw [place]
      split
      case isTrue hlt =>
          have hle := Std.le_of_lt hlt
          have hpr : ¬ p.Same r := by
            intro hsame
            rw [same_iff_code.mp hsame] at hlt
            exact Std.lt_irrefl hlt
          have all : ∀ x ∈ r :: rs, ¬ p.Same x := List.forall_mem_cons.mpr ⟨hpr, later hle⟩
          rw [List.mem_cons]
          constructor
          · rintro (hq | hq)
            · exact Or.inl ⟨hq, Or.inr all⟩
            · exact Or.inr ⟨hq, Or.inr (all q hq)⟩
          · exact Or.imp And.left And.left
      case isFalse hlt =>
          split
          case isTrue he =>
              have hpr : p.Same r := same_iff_code.mpr he
              have hrs := later (Std.le_of_eq he)
              cases latest with
              | true =>
                  simp only [reduceIte, List.mem_cons, true_or, and_true, Bool.true_eq_false, false_or]
                  constructor
                  · rintro (hq | hq)
                    · exact Or.inl hq
                    · exact Or.inr ⟨Or.inr hq, hrs q hq⟩
                  · rintro (hq | ⟨rfl | hq, hne⟩)
                    · exact Or.inl hq
                    · exact absurd hpr hne
                    · exact Or.inr hq
              | false =>
                  have some : ¬ ∀ x ∈ r :: rs, ¬ p.Same x := fun hall => hall r List.mem_cons_self hpr
                  simp only [some, Bool.false_eq_true, reduceIte, or_self, and_false, true_or, and_true, false_or]
          case isFalse hne =>
              have hpr : ¬ p.Same r := fun hsame => hne (same_iff_code.mp hsame)
              rw [List.mem_cons, ih hrs, List.forall_mem_cons, List.mem_cons]
              constructor
              · rintro (rfl | ⟨hq, hw⟩ | ⟨hq, hw⟩)
                · exact Or.inr ⟨Or.inl rfl, Or.inr hpr⟩
                · exact Or.inl ⟨hq, hw.imp_right fun hall => ⟨hpr, hall⟩⟩
                · exact Or.inr ⟨Or.inr hq, hw⟩
              · rintro (⟨hq, hw⟩ | ⟨rfl | hq, hw⟩)
                · exact Or.inr (Or.inl ⟨hq, hw.imp_right And.right⟩)
                · exact Or.inl rfl
                · exact Or.inr (Or.inr ⟨hq, hw⟩)

end Path

namespace PathSet

theorem ofFirst_concat (ps : List Path) (q : Path) : ofFirst (ps ++ [q]) = (ofFirst ps).insert false q :=
  List.foldl_append

theorem ofLast_concat (ps : List Path) (q : Path) : ofLast (ps ++ [q]) = (ofLast ps).insert true q :=
  List.foldl_append

theorem mem_ofFirst_iff : p ∈ (ofFirst ps).toList ↔ p ∈ Path.firsts ps := by
  rw [Path.mem_firsts]
  induction ps using List.reverseRecOn with
  | nil => simp [ofFirst, toList, empty]
  | append_singleton ps q ih =>
      have hplace : p ∈ (ofFirst (ps ++ [q])).toList ↔
          p = q ∧ (∀ r ∈ (ofFirst ps).paths, ¬ q.Same r) ∨ p ∈ (ofFirst ps).toList := by
        have h := Path.mem_place false q p (ofFirst ps).ascending
        simp only [Bool.false_eq_true, false_or, true_or, and_true] at h
        rw [ofFirst_concat]
        exact h
      have hnone : (∀ r ∈ (ofFirst ps).paths, ¬ q.Same r) ↔ ps.find? (fun r => q.Same r) = none := by
        have hnames : (∃ r ∈ (ofFirst ps).paths, q.Same r) ↔ ∃ r ∈ ps, q.Same r := names_ofFirst
        simp only [List.find?_eq_none, decide_eq_true_eq]
        constructor
        · intro hall r hr hsame
          obtain ⟨t, ht, hqt⟩ := hnames.mpr ⟨r, hr, hsame⟩
          exact hall t ht hqt
        · intro hall r hr hsame
          obtain ⟨t, ht, hqt⟩ := hnames.mp ⟨r, hr, hsame⟩
          exact hall t ht hqt
      rw [hplace, hnone, ih, List.find?_append]
      cases hfind : ps.find? (fun r => p.Same r) with
      | some t =>
          simp only [Option.some_or, Option.some.injEq]
          refine or_iff_right ?_
          rintro ⟨rfl, hq⟩
          rw [hfind] at hq
          cases hq
      | none =>
          simp only [Option.none_or, reduceCtorEq, or_false]
          by_cases hpq : p = q
          · subst hpq
            have hself : p.Same p := rfl
            simp only [hfind, and_self, hself, decide_true, List.find?_singleton, if_true]
          · by_cases hsame : p.Same q
            · simp [hpq, hsame, Ne.symm hpq]
            · simp [hpq, hsame]

theorem mem_ofLast_iff : p ∈ (ofLast ps).toList ↔ p ∈ Path.lasts ps := by
  rw [Path.lasts, Path.mem_firsts]
  induction ps using List.reverseRecOn with
  | nil => simp [ofLast, toList, empty]
  | append_singleton ps q ih =>
      have hplace : p ∈ (ofLast (ps ++ [q])).toList ↔ p = q ∨ p ∈ (ofLast ps).toList ∧ ¬ q.Same p := by
        have h := Path.mem_place true q p (ofLast ps).ascending
        simp only [true_or, and_true, Bool.true_eq_false, false_or] at h
        rw [ofLast_concat]
        exact h
      rw [hplace, ih, List.reverse_append, List.reverse_singleton, List.singleton_append, List.find?_cons]
      by_cases hsame : p.Same q
      · have hqp : q.Same p := Eq.symm hsame
        simp [hsame, hqp, eq_comm]
      · have hne : p ≠ q := fun he => hsame (congrArg Path.components he)
        have hqp : ¬ q.Same p := fun h => hsame (Eq.symm h)
        simp [hsame, hne, hqp]

theorem oneSpelling_toList (s : PathSet) : Path.OneSpelling s.toList := by
  have hinj : ∀ {a b : Path}, a ∈ s.paths → b ∈ s.paths → a.code = b.code → a = b :=
    fun ha hb => List.inj_on_of_nodup_map (s.ascending.imp Std.ne_of_lt) ha hb
  intro p hp q hq hsame
  exact hinj hp hq (Path.same_iff_code.mp hsame)

theorem firsts_toList (s : PathSet) : p ∈ Path.firsts s.toList ↔ p ∈ s.toList := by
  constructor
  · exact Path.mem_of_mem_firsts
  · intro hp
    obtain ⟨q, hq, hsame⟩ := Path.exists_first hp
    rwa [oneSpelling_toList s p hp q (Path.mem_of_mem_firsts hq) hsame]

end PathSet

/-! ## What the kept spellings hold -/

namespace Scan

/-- Whether the spellings of a path in a list can be read if one of them can. -/
def ReadAlike (d : Disk) (ps : List Path) : Prop :=
  ∀ p ∈ ps, ∀ q ∈ ps, p.Same q → (found? d p).isSome → (found? d q).isSome

/-- Some spelling of each path of `ps` stands in `kept`, and nothing else does. -/
structure Represents (kept ps : List Path) : Prop where
  listed : kept ⊆ ps
  covers : ∀ p ∈ ps, ∃ q ∈ kept, p.Same q

theorem represents_firsts (ps : List Path) : Represents (Path.firsts ps) ps :=
  ⟨fun _ => Path.mem_of_mem_firsts, fun _ => Path.exists_first⟩

theorem represents_lasts (ps : List Path) : Represents (Path.lasts ps) ps := by
  have h := represents_firsts ps.reverse
  exact ⟨fun _ hp => List.mem_reverse.mp (h.listed hp), fun p hp => h.covers p (List.mem_reverse.mpr hp)⟩

variable {kept : List Path}

theorem Represents.classesOf_subset (h : Represents kept ps) {name : String} (hname : name ∈ classesOf d kept) :
    name ∈ classesOf d ps := by
  obtain ⟨p, hp, c, hc, hn⟩ := mem_classesOf.mp hname
  exact mem_classesOf.mpr ⟨p, h.listed hp, c, hc, hn⟩

/-- What is kept holds all exactly if it holds what only other spellings can be read for. -/
theorem Represents.classesOf_eq_iff (h : Represents kept ps) : classesOf d kept = classesOf d ps ↔
    ∀ p ∈ ps, ∀ q ∈ kept, p.Same q → found? d q = none →
      ∀ c, found? d p = some c → ∀ name ∈ c, name ∈ classesOf d kept := by
  constructor
  · intro he p hp _ _ _ _ c hc name hn
    rw [he]
    exact mem_classesOf.mpr ⟨p, hp, c, hc, hn⟩
  · intro hall
    apply ClassNameSet.eq_of_mem_iff
    intro name
    refine ⟨h.classesOf_subset, fun hname => ?_⟩
    obtain ⟨p, hp, c, hc, hn⟩ := mem_classesOf.mp hname
    obtain ⟨q, hq, hsame⟩ := h.covers p hp
    cases hf : found? d q with
    | none => exact hall p hp q hq hsame hf c hc name hn
    | some x =>
        rw [found?_eq_of_same hsame hc hf] at hn
        exact mem_classesOf.mpr ⟨q, hq, x, hf, hn⟩

theorem Represents.classesOf_eq (h : Represents kept ps) (alike : ReadAlike d ps) :
    classesOf d kept = classesOf d ps := by
  refine h.classesOf_eq_iff.mpr fun p hp q hq hsame hnone c hc => ?_
  have hsome := alike p hp q (h.listed hq) hsame (by rw [hc]; rfl)
  rw [hnone] at hsome
  cases hsome

end Scan

/-! ## Dependency sets -/

namespace Dependencies

variable {ds : Dependencies}

/-- What is not known yet is scanned, each path in its first spelling. -/
theorem classes_of_unknown (hi : ds.index = none) (hk : ds.known = ∅) (ps : List Path) (d : Disk) :
    (ds.classes ps d).1.1.classes = Scan.classesOf d (Path.firsts ps) := by
  have hnone : ds.known.get? (PathSet.ofFirst ps).key = none := by rw [hk]; rfl
  have he : (ds.classes ps d).1.1.classes = (Scan.all none (PathSet.ofFirst ps).toList d).1.classes := by
    simp only [classes, hnone, hi]
    rfl
  rw [he, Scan.classes_all_none]
  exact Scan.classesOf_congr fun p => PathSet.mem_ofFirst_iff

/-- From a file context the paths come in their last spellings. -/
theorem classes_of_context (hi : ds.index = none) (hk : ds.known = ∅) (ps : List Path) (d : Disk) :
    (ds.classes (PathSet.ofLast ps).toList d).1.1.classes = Scan.classesOf d (Path.lasts ps) := by
  rw [classes_of_unknown hi hk]
  exact Scan.classesOf_congr fun p => (PathSet.firsts_toList _).trans PathSet.mem_ofLast_iff

/-- As long as nothing is known, a request gives the union of what plain scans find under the first spellings of the
paths, and under the last ones for a service. The first ones give all that is listed exactly if they give what is
found under other spellings of those that cannot be read; and if no path can be read in one spelling only, neither
order nor repetition nor the way through a service counts. -/
theorem classes_eq_union_iff (hi : ds.index = none) (hk : ds.known = ∅) (ps : List Path) (d : Disk) :
    (ds.classes ps d).1.1.classes = Scan.classesOf d (Path.firsts ps) ∧
    (ds.classes (PathSet.ofLast ps).toList d).1.1.classes = Scan.classesOf d (Path.lasts ps) ∧
    ((ds.classes ps d).1.1.classes = Scan.classesOf d ps ↔
      ∀ p ∈ ps, ∀ q ∈ Path.firsts ps, p.Same q → Scan.found? d q = none →
        ∀ c, Scan.found? d p = some c → ∀ name ∈ c, name ∈ Scan.classesOf d (Path.firsts ps)) ∧
    (Scan.ReadAlike d ps → ∀ qs : List Path, (∀ q, q ∈ qs ↔ q ∈ ps) →
      (ds.classes qs d).1.1.classes = Scan.classesOf d ps ∧
      (ds.classes (PathSet.ofLast qs).toList d).1.1.classes = Scan.classesOf d ps) := by
  refine ⟨classes_of_unknown hi hk ps d, classes_of_context hi hk ps d, ?_, ?_⟩
  · rw [classes_of_unknown hi hk]
    exact (Scan.represents_firsts ps).classesOf_eq_iff
  · intro alike qs hqs
    have alike : Scan.ReadAlike d qs := by
      intro p hp q hq
      exact alike p ((hqs p).mp hp) q ((hqs q).mp hq)
    have hall : Scan.classesOf d qs = Scan.classesOf d ps := Scan.classesOf_congr hqs
    rw [classes_of_unknown hi hk, classes_of_context hi hk, ← hall]
    exact ⟨(Scan.represents_firsts qs).classesOf_eq alike, (Scan.represents_lasts qs).classesOf_eq alike⟩

/-! ### A slash after a file -/

/-- A disk that holds nothing but a class file. -/
def viewFile : Disk :=
  { Disk.empty 0 with
    entries := (Disk.empty 0).entries ++
      [([[0], Utf8.encode "View.class"], .file (ClassFile.encode "View") 0 false)] }

def viewPath : Path :=
  .ofString "View.class"

/-- The same path, in a spelling that leads nowhere because no directory stands there. -/
def viewSlash : Path :=
  .ofString "View.class/"

theorem viewFile_found : Scan.found? viewFile viewPath = some (.ofList ["View"]) := by
  decide +kernel

theorem viewFile_slash : Scan.found? viewFile viewSlash = none := by
  decide +kernel

/-- The slash listed first hides the class; listed last it does so for a service. Without it nothing is missed. -/
theorem classes_missed_by_spelling :
    (({} : Dependencies).classes [viewSlash, viewPath] viewFile).1.1.classes ≠
      Scan.classesOf viewFile [viewSlash, viewPath] ∧
    (({} : Dependencies).classes (PathSet.ofLast [viewPath, viewSlash]).toList viewFile).1.1.classes = ∅ ∧
    (({} : Dependencies).classes [viewPath, viewPath] viewFile).1.1.classes =
      Scan.classesOf viewFile [viewPath] := by
  obtain ⟨hfirst, -, hiff, -⟩ :=
    @classes_eq_union_iff {} rfl rfl [viewSlash, viewPath] viewFile
  obtain ⟨-, hlast, -, -⟩ := @classes_eq_union_iff {} rfl rfl [viewPath, viewSlash] viewFile
  obtain ⟨-, -, -, halike⟩ := @classes_eq_union_iff {} rfl rfl [viewPath] viewFile
  have hempty : Scan.classesOf viewFile [viewSlash] = ∅ := by
    rw [Scan.classesOf, List.filterMap_cons_none viewFile_slash]
    rfl
  refine ⟨fun he => ?_, ?_, ?_⟩
  · have hmem := hiff.mp he viewPath (by decide) viewSlash (by decide) (by decide) viewFile_slash _ viewFile_found
      "View" (by decide)
    rw [show Path.firsts [viewSlash, viewPath] = [viewSlash] by decide, hempty] at hmem
    exact ClassNameSet.not_mem_empty _ hmem
  · rw [hlast, show Path.lasts [viewPath, viewSlash] = [viewSlash] by decide, hempty]
  · refine (halike ?_ [viewPath, viewPath] (by simp)).1
    intro p hp q hq _ hsome
    rwa [List.mem_singleton.mp hq, ← List.mem_singleton.mp hp]

end Dependencies

end ClassScope
