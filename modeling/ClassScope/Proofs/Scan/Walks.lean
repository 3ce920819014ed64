import ClassScope.Proofs.Scan.Plain
import Mathlib.Data.List.Induction
import Mathlib.Logic.Hydra

/-!
# Walks through directories

A directory can be scanned by opening one directory after the other, the one found last first, each listing what
stands in it in whatever order. Every such walk ends, and it comes to what the scan comes to.
-/

namespace ClassScope

variable {d : Disk} {p : Path} {loc : Disk.Location} {dir names : List Bytes} {name : Bytes} {e : Disk.Entry}

/-! ## What stands in a directory -/

namespace Disk

theorem mem_below : (names, e) ∈ d.below loc ↔ names ≠ [] ∧ (loc ++ names, e) ∈ d.entries := by
  rw [below, List.mem_filterMap]
  constructor
  · rintro ⟨⟨l, e'⟩, hmem, h⟩
    dsimp only at h
    split at h
    case isTrue hl =>
        obtain ⟨rest, rfl⟩ := List.isPrefixOf_iff_prefix.mp hl.1
        simp only [List.drop_left, Option.some.injEq, Prod.mk.injEq] at h
        obtain ⟨rfl, rfl⟩ := h
        exact ⟨fun hnil => hl.2 (by rw [hnil, List.append_nil]), hmem⟩
    case isFalse => cases h
  · rintro ⟨hne, hmem⟩
    have hl : loc.isPrefixOf (loc ++ names) ∧ loc ≠ loc ++ names :=
      ⟨List.isPrefixOf_iff_prefix.mpr (List.prefix_append loc names), by simpa using Ne.symm hne⟩
    refine ⟨(loc ++ names, e), hmem, ?_⟩
    dsimp only
    rw [if_pos hl, List.drop_left]

/-- What stands directly in a directory, by its name there. -/
def children (d : Disk) (dir : Location) : List (Bytes × Entry) :=
  (d.below dir).filterMap fun
    | ([name], e) => some (name, e)
    | _ => none

theorem mem_children : (name, e) ∈ d.children loc ↔ ([name], e) ∈ d.below loc := by
  rw [children, List.mem_filterMap]
  constructor
  · rintro ⟨⟨names, e'⟩, hmem, h⟩
    split at h
    case h_1 heq =>
        cases heq
        cases h
        exact hmem
    case h_2 => cases h
  · exact fun hmem => ⟨_, hmem, rfl⟩

theorem mem_children_append : (name, e) ∈ d.children (loc ++ dir) ↔ (dir ++ [name], e) ∈ d.below loc := by
  rw [mem_children, mem_below, mem_below, List.append_assoc]
  simp

/-- Whatever stands below a location stands in a directory that does, or directly at the location. -/
def Closed (d : Disk) (loc : Location) : Prop :=
  ∀ names e, (names, e) ∈ d.below loc → names.dropLast = [] ∨ ∃ m, (names.dropLast, .dir m) ∈ d.below loc

theorem Closed.dir_above (h : d.Closed loc) {rest : List Bytes} (hrest : rest ≠ [])
    (hmem : (dir ++ name :: rest, e) ∈ d.below loc) : ∃ m, (dir ++ [name], .dir m) ∈ d.below loc := by
  induction rest using List.reverseRecOn generalizing e with
  | nil => exact absurd rfl hrest
  | append_singleton rest last ih =>
      have hdrop : (dir ++ name :: (rest ++ [last])).dropLast = dir ++ name :: rest := by
        rw [← List.cons_append, ← List.append_assoc, List.dropLast_concat]
      rcases h _ _ hmem with hnil | ⟨m, hdir⟩
      · rw [hdrop] at hnil
        simp at hnil
      · rw [hdrop] at hdir
        by_cases hr : rest = []
        · rw [hr] at hdir
          exact ⟨m, hdir⟩
        · exact ih hr hdir

theorem Entry.isDir_iff : e.isDir = true ↔ ∃ m, e = .dir m := by
  cases e with
  | dir m => exact ⟨fun _ => ⟨m, rfl⟩, fun _ => rfl⟩
  | file content m executable => exact ⟨nofun, nofun⟩
  | link target m => exact ⟨nofun, nofun⟩

theorem length_le_of_stat {x : Location × Entry} (h : d.stat p = .ok x) : p.bytes.length ≤ longestPath := by
  have hl := stat_eq_ok_iff.mp h
  unfold locate at hl
  split at hl
  · cases hl
  split at hl
  · cases hl
  split at hl
  case isTrue => cases hl
  case isFalse hlong => exact Nat.not_lt.mp hlong

theorem unopened?_eq_none_iff : d.unopened? p loc = none ↔
    ∀ names m, (names, .dir m) ∈ d.below loc → (p.descend names).bytes.length ≤ longestPath := by
  rw [unopened?, List.find?_eq_none]
  constructor
  · intro h names m hmem
    have hq := h (p.descend names) (List.mem_map.mpr ⟨_, List.mem_filter.mpr ⟨hmem, rfl⟩, rfl⟩)
    simpa using hq
  · intro h q hq
    obtain ⟨⟨names, e⟩, hmem, rfl⟩ := List.mem_map.mp hq
    obtain ⟨hmem, he⟩ := List.mem_filter.mp hmem
    obtain ⟨m, rfl⟩ := Entry.isDir_iff.mp he
    simpa using h names m hmem

theorem unopened?_eq_some {q : Path} (h : d.unopened? p loc = some q) :
    ∃ names m, (names, .dir m) ∈ d.below loc ∧ q = p.descend names ∧ longestPath < q.bytes.length := by
  rw [unopened?] at h
  obtain ⟨⟨names, e⟩, hmem, rfl⟩ := List.mem_map.mp (List.mem_of_find?_eq_some h)
  obtain ⟨hmem, he⟩ := List.mem_filter.mp hmem
  obtain ⟨m, rfl⟩ := Entry.isDir_iff.mp he
  exact ⟨names, m, hmem, rfl, by simpa using List.find?_some h⟩

end Disk

namespace Scan

/-! ## Steps -/

/-- Where a walk is: the directories that are still to be opened, and the files found so far, by their names from the
start. -/
structure Walk where
  pending : List (List Bytes) := [[]]
  files : List (List Bytes) := []

namespace Walk

variable {w w' : Walk} {found : List (Bytes × Disk.Entry)}

/-- Notes one entry of a directory. -/
def add (dir : List Bytes) (w : Walk) : Bytes × Disk.Entry → Walk
  | (name, e) =>
      if e.isDir then { w with pending := (dir ++ [name]) :: w.pending }
      else { w with files := w.files ++ [dir ++ [name]] }

/-- Opens the directory found last, if its path allows, and notes what it lists. -/
inductive Step (d : Disk) (p : Path) (loc : Disk.Location) : Walk → Walk → Prop where
  | list {dir dirs files} {found : List (Bytes × Disk.Entry)}
      (opened : (p.descend dir).bytes.length ≤ Disk.longestPath)
      (listed : found.Perm (d.children (loc ++ dir))) :
      Step d p loc ⟨dir :: dirs, files⟩ (found.foldl (add dir) ⟨dirs, files⟩)

/-- The walks that are on the way. -/
def Reaches (d : Disk) (p : Path) (loc : Disk.Location) (w : Walk) : Prop :=
  Relation.ReflTransGen (Step d p loc) {} w

/-- The next directory has a path that is too long. -/
def Stuck (p : Path) (w : Walk) : Prop :=
  ∃ dir dirs, w.pending = dir :: dirs ∧ Disk.longestPath < (p.descend dir).bytes.length

theorem pending_foldl_add (dir : List Bytes) (found : List (Bytes × Disk.Entry)) (w : Walk) :
    ∃ new, (found.foldl (add dir) w).pending = new ++ w.pending ∧
      ∀ x, x ∈ new ↔ ∃ name e, (name, e) ∈ found ∧ e.isDir = true ∧ x = dir ++ [name] := by
  induction found generalizing w with
  | nil => exact ⟨[], rfl, by simp⟩
  | cons entry found ih =>
      obtain ⟨name, e⟩ := entry
      obtain ⟨new, hnew, hmem⟩ := ih (add dir w (name, e))
      cases he : e.isDir with
      | true =>
          refine ⟨new ++ [dir ++ [name]], ?_, fun x => ?_⟩
          · rw [List.foldl_cons, hnew]
            simp [add, he]
          · rw [List.mem_append, List.mem_singleton, hmem]
            constructor
            · rintro (⟨n, f, hin, hdir, rfl⟩ | rfl)
              · exact ⟨n, f, List.mem_cons_of_mem _ hin, hdir, rfl⟩
              · exact ⟨name, e, List.mem_cons_self, he, rfl⟩
            · rintro ⟨n, f, hin, hdir, rfl⟩
              rcases List.mem_cons.mp hin with heq | hin
              · cases heq
                exact Or.inr rfl
              · exact Or.inl ⟨n, f, hin, hdir, rfl⟩
      | false =>
          refine ⟨new, ?_, fun x => ?_⟩
          · rw [List.foldl_cons, hnew]
            simp [add, he]
          · rw [hmem]
            constructor
            · rintro ⟨n, f, hin, hdir, rfl⟩
              exact ⟨n, f, List.mem_cons_of_mem _ hin, hdir, rfl⟩
            · rintro ⟨n, f, hin, hdir, rfl⟩
              rcases List.mem_cons.mp hin with heq | hin
              · cases heq
                rw [he] at hdir
                cases hdir
              · exact ⟨n, f, hin, hdir, rfl⟩

theorem mem_files_foldl_add (names dir : List Bytes) (found : List (Bytes × Disk.Entry)) (w : Walk) :
    names ∈ (found.foldl (add dir) w).files ↔
      names ∈ w.files ∨ ∃ name e, (name, e) ∈ found ∧ e.isDir = false ∧ names = dir ++ [name] := by
  induction found generalizing w with
  | nil => simp
  | cons entry found ih =>
      obtain ⟨name, e⟩ := entry
      rw [List.foldl_cons, ih]
      cases he : e.isDir with
      | true =>
          simp only [add, he, reduceIte, List.mem_cons, Prod.mk.injEq]
          constructor
          · rintro (h | ⟨n, f, hin, hdir, rfl⟩)
            · exact Or.inl h
            · exact Or.inr ⟨n, f, Or.inr hin, hdir, rfl⟩
          · rintro (h | ⟨n, f, ⟨rfl, rfl⟩ | hin, hdir, rfl⟩)
            · exact Or.inl h
            · rw [he] at hdir
              cases hdir
            · exact Or.inr ⟨n, f, hin, hdir, rfl⟩
      | false =>
          simp only [add, he, Bool.false_eq_true, reduceIte, List.mem_append, List.mem_cons, List.not_mem_nil,
            or_false, Prod.mk.injEq]
          constructor
          · rintro ((h | rfl) | ⟨n, f, hin, hdir, rfl⟩)
            · exact Or.inl h
            · exact Or.inr ⟨name, e, Or.inl ⟨rfl, rfl⟩, he, rfl⟩
            · exact Or.inr ⟨n, f, Or.inr hin, hdir, rfl⟩
          · rintro (h | ⟨n, f, ⟨rfl, rfl⟩ | hin, hdir, rfl⟩)
            · exact Or.inl (Or.inl h)
            · exact Or.inl (Or.inr rfl)
            · exact Or.inr ⟨n, f, hin, hdir, rfl⟩

/-! ## What a walk keeps -/

/-- What is found and what is still to be opened make up all that stands below the location. -/
structure Covers (d : Disk) (p : Path) (loc : Disk.Location) (w : Walk) : Prop where
  pending : ∀ dir ∈ w.pending, dir = [] ∨ ∃ m, (dir, .dir m) ∈ d.below loc
  files : ∀ names ∈ w.files, ∃ e, (names, e) ∈ d.below loc ∧ e.isDir = false
  all : ∀ names e, (names, e) ∈ d.below loc →
    (e.isDir = false ∧ names ∈ w.files) ∨
    (e.isDir = true ∧ (p.descend names).bytes.length ≤ Disk.longestPath) ∨
    ∃ dir ∈ w.pending, ∃ rest, names = dir ++ rest ∧ (e.isDir = false → rest ≠ [])

theorem covers_start : Covers d p loc {} where
  pending _ hdir := Or.inl (List.mem_singleton.mp hdir)
  files _ h := nomatch h
  all names _ hmem := Or.inr (Or.inr ⟨[], List.mem_singleton_self [], names, rfl, fun _ =>
    (Disk.mem_below.mp hmem).1⟩)

theorem Covers.step (closed : d.Closed loc) (h : Covers d p loc w) (hs : Step d p loc w w') :
    Covers d p loc w' := by
  cases hs with
  | @list dir dirs files found opened listed =>
      have hfound {name : Bytes} {e : Disk.Entry} : (name, e) ∈ found ↔ (dir ++ [name], e) ∈ d.below loc :=
        listed.mem_iff.trans Disk.mem_children_append
      obtain ⟨new, hpending, hnew⟩ := pending_foldl_add dir found ⟨dirs, files⟩
      have hfiles (names : List Bytes) := mem_files_foldl_add names dir found ⟨dirs, files⟩
      refine ⟨?_, ?_, ?_⟩
      · intro x hx
        rw [hpending, List.mem_append] at hx
        rcases hx with hx | hx
        · obtain ⟨name, e, hin, hdir, rfl⟩ := (hnew x).mp hx
          obtain ⟨m, rfl⟩ := Disk.Entry.isDir_iff.mp hdir
          exact Or.inr ⟨m, hfound.mp hin⟩
        · exact h.pending x (List.mem_cons_of_mem dir hx)
      · intro names hnames
        rcases (hfiles _).mp hnames with hold | ⟨name, e, hin, hdir, rfl⟩
        · exact h.files names hold
        · exact ⟨e, hfound.mp hin, hdir⟩
      · intro names e hmem
        rcases h.all names e hmem with ⟨hdir, hold⟩ | hfits | ⟨q, hq, rest, rfl, hrest⟩
        · exact Or.inl ⟨hdir, (hfiles _).mpr (Or.inl hold)⟩
        · exact Or.inr (Or.inl hfits)
        · rcases List.mem_cons.mp hq with rfl | hq
          · -- what stood below the directory just opened is now found or stands below one of its directories
            cases rest with
            | nil =>
                cases he : e.isDir with
                | true =>
                    rw [List.append_nil]
                    exact Or.inr (Or.inl ⟨rfl, opened⟩)
                | false => exact absurd rfl (hrest he)
            | cons name rest =>
                by_cases hnil : rest = []
                · subst hnil
                  have hin : (name, e) ∈ found := hfound.mpr hmem
                  cases he : e.isDir with
                  | true =>
                      have hx : q ++ [name] ∈ new := (hnew _).mpr ⟨name, e, hin, he, rfl⟩
                      refine Or.inr (Or.inr ⟨q ++ [name], ?_, [], (List.append_nil _).symm, nofun⟩)
                      rw [hpending]
                      exact List.mem_append_left dirs hx
                  | false => exact Or.inl ⟨rfl, (hfiles _).mpr (Or.inr ⟨name, e, hin, he, rfl⟩)⟩
                · obtain ⟨m, hdir⟩ := closed.dir_above hnil hmem
                  have hx : q ++ [name] ∈ new := (hnew _).mpr ⟨name, _, hfound.mpr hdir, rfl, rfl⟩
                  refine Or.inr (Or.inr ⟨q ++ [name], ?_, rest, by simp, fun _ => hnil⟩)
                  rw [hpending]
                  exact List.mem_append_left dirs hx
          · refine Or.inr (Or.inr ⟨q, ?_, rest, rfl, hrest⟩)
            rw [hpending]
            exact List.mem_append_right new hq

theorem Reaches.covers (closed : d.Closed loc) (h : Reaches d p loc w) : Covers d p loc w := by
  induction h with
  | refl => exact covers_start
  | tail _ hs ih => exact ih.step closed hs

/-! ## Where walks end -/

/-- A walk that has opened all directories has found what the scan finds. -/
theorem Reaches.complete (closed : d.Closed loc) (h : Reaches d p loc w) (done : w.pending = []) :
    ofDirectory d p loc = .ok (ofEntries (w.files.map relativePath)) := by
  have hc := h.covers closed
  have hall {names : List Bytes} {e : Disk.Entry} (hmem : (names, e) ∈ d.below loc) :
      (e.isDir = false ∧ names ∈ w.files) ∨
        (e.isDir = true ∧ (p.descend names).bytes.length ≤ Disk.longestPath) := by
    rcases hc.all names e hmem with hfile | hdir | ⟨dir, hdir, -⟩
    · exact Or.inl hfile
    · exact Or.inr hdir
    · rw [done] at hdir
      cases hdir
  refine ofDirectory_eq_ok_iff.mpr ⟨?_, ?_⟩
  · refine Disk.unopened?_eq_none_iff.mpr fun names m hmem => ?_
    rcases hall hmem with ⟨hfile, -⟩ | ⟨-, hfits⟩
    · cases hfile
    · exact hfits
  · have hfiles (entry : String) : entry ∈ w.files.map relativePath ↔ entry ∈ filesBelow d loc := by
      rw [filesBelow, List.mem_map, List.mem_map]
      constructor
      · rintro ⟨names, hnames, rfl⟩
        obtain ⟨e, hmem, he⟩ := hc.files names hnames
        exact ⟨(names, e), List.mem_filter.mpr ⟨hmem, by simp [he]⟩, rfl⟩
      · rintro ⟨⟨names, e⟩, hmem, rfl⟩
        obtain ⟨hmem, he⟩ := List.mem_filter.mp hmem
        rcases hall hmem with ⟨-, hfile⟩ | ⟨hdir, -⟩
        · exact ⟨names, hfile, rfl⟩
        · simp [hdir] at he
    apply ClassNameSet.eq_of_mem_iff
    intro name
    rw [ofEntries, ofEntries, ClassNameSet.mem_ofList, ClassNameSet.mem_ofList, List.mem_filterMap,
      List.mem_filterMap]
    simp only [hfiles]

/-- A walk that comes to a directory that cannot be opened fails as the scan does. -/
theorem Reaches.stuck (closed : d.Closed loc) (h : Reaches d p loc w) (hp : p.bytes.length ≤ Disk.longestPath)
    (hw : w.Stuck p) : ∃ q, ofDirectory d p loc = .error (.unreadable q .nameTooLong) := by
  obtain ⟨dir, dirs, hpending, hlong⟩ := hw
  have hdir : dir ∈ w.pending := by
    rw [hpending]
    exact List.mem_cons_self
  rcases (h.covers closed).pending dir hdir with rfl | ⟨m, hmem⟩
  · exact absurd hp (Nat.not_le.mpr hlong)
  · cases hu : d.unopened? p loc with
    | some q =>
        refine ⟨q, ?_⟩
        rw [ofDirectory, hu]
    | none => exact absurd (Disk.unopened?_eq_none_iff.mp hu dir m hmem) (Nat.not_le.mpr hlong)

/-- One directory is below the other, and it is there. -/
def Deeper (d : Disk) (loc : Disk.Location) (x dir : List Bytes) : Prop :=
  ∃ name e, x = dir ++ [name] ∧ (x, e) ∈ d.below loc

/-- No directory is deeper than the longest location, so that going down ends. -/
theorem wellFounded_deeper : WellFounded (Deeper d loc) := by
  obtain ⟨bound, hbound⟩ : ∃ bound, ∀ names e, (names, e) ∈ d.below loc → names.length ≤ bound := by
    refine ⟨((d.below loc).map fun x => x.1.length).sum, fun names e hmem => ?_⟩
    exact List.single_le_sum (fun _ _ => Nat.zero_le _) _ (List.mem_map_of_mem hmem)
  refine Subrelation.wf ?_ (measure fun x : List Bytes => bound - x.length).wf
  rintro x dir ⟨name, e, rfl, hmem⟩
  have hle := hbound _ _ hmem
  simp only [List.length_append, List.length_singleton] at hle
  change bound - (dir ++ [name]).length < bound - dir.length
  rw [List.length_append, List.length_singleton]
  omega

theorem Step.cutExpand (hs : Step d p loc w w') :
    Relation.CutExpand (Deeper d loc) (w'.pending : Multiset (List Bytes)) w.pending := by
  cases hs with
  | @list dir dirs files found opened listed =>
      obtain ⟨new, hpending, hnew⟩ := pending_foldl_add dir found ⟨dirs, files⟩
      refine ⟨(new : Multiset (List Bytes)), dir, fun x hx => ?_, ?_⟩
      · obtain ⟨name, e, hin, -, rfl⟩ := (hnew x).mp hx
        exact ⟨name, e, rfl, Disk.mem_children_append.mp (listed.mem_iff.mp hin)⟩
      · rw [hpending, ← Multiset.coe_add, ← Multiset.cons_coe, ← Multiset.singleton_add]
        exact (add_comm _ _).trans ((add_assoc _ _ _).symm.trans (by rw [add_right_comm]))

/-- No walk goes on forever. -/
theorem wellFounded_step (d : Disk) (p : Path) (loc : Disk.Location) : WellFounded fun w' w => Step d p loc w w' :=
  Subrelation.wf (fun hs => Step.cutExpand hs)
    (InvImage.wf (fun w : Walk => (w.pending : Multiset (List Bytes))) wellFounded_deeper.cutExpand)

/-- Every walk can be taken to its end. -/
theorem exists_end (d : Disk) (p : Path) (loc : Disk.Location) (w : Walk) :
    ∃ w', Relation.ReflTransGen (Step d p loc) w w' ∧ (w'.pending = [] ∨ w'.Stuck p) := by
  induction w using (wellFounded_step d p loc).induction with
  | _ w ih =>
      obtain ⟨pending, files⟩ := w
      cases pending with
      | nil => exact ⟨_, .refl, Or.inl rfl⟩
      | cons dir dirs =>
          by_cases hlong : Disk.longestPath < (p.descend dir).bytes.length
          · exact ⟨_, .refl, Or.inr ⟨dir, dirs, rfl, hlong⟩⟩
          · have hs : Step d p loc ⟨dir :: dirs, files⟩
                ((d.children (loc ++ dir)).foldl (add dir) ⟨dirs, files⟩) :=
              .list (Nat.not_lt.mp hlong) (List.Perm.refl _)
            obtain ⟨w', hw, hend⟩ := ih _ hs
            exact ⟨w', .head hs hw, hend⟩

end Walk

end Scan

end ClassScope
