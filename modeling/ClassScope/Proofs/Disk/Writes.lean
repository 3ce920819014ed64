import ClassScope.Disk.Edit
import ClassScope.Proofs.Disk.Places

/-!
# What making directories and writing a file change

Making directories adds directories where nothing was, and writing a file changes what stands at one
location. Apart from that, only times move.
-/

namespace ClassScope.Disk

variable {d d' d'' : Disk} {loc l : Location} {e : Entry}

/-! ## Single entries -/

theorem entry?_of_ne_nil (h : loc ≠ []) : d.entry? loc = d.entries.lookup loc :=
  if_neg h

theorem ne_nil_of_entry (h : d.entry? loc = some e) (he : e.isDir = false) : loc ≠ [] := by
  rintro rfl
  cases h
  cases he

theorem mem_of_entry (h : d.entry? loc = some e) (he : e.isDir = false) : (loc, e) ∈ d.entries := by
  rw [entry?_of_ne_nil (ne_nil_of_entry h he)] at h
  obtain ⟨before, after, hs, -⟩ := List.lookup_eq_some_iff.mp h
  rw [hs]
  exact List.mem_append_right _ List.mem_cons_self

theorem lookup_replace (entries : List (Location × Entry)) :
    (entries.map fun (k, old) => if k = loc then (k, e) else (k, old)).lookup l =
      if l = loc then (entries.lookup l).map fun _ => e else entries.lookup l := by
  induction entries with
  | nil => simp
  | cons x entries ih =>
      obtain ⟨k, old⟩ := x
      rw [List.map_cons, List.lookup_cons, List.lookup_cons, ih]
      by_cases hl : l = k
      · subst hl
        by_cases hloc : l = loc <;> simp [hloc]
      · have hb : (l == k) = false := beq_false_of_ne hl
        by_cases hk : k = loc
        · subst hk
          simp [hb, hl]
        · simp [hk, hb]

theorem lookup_filter (keep : Location → Bool) (entries : List (Location × Entry)) :
    (entries.filter fun x => keep x.1).lookup l = if keep l then entries.lookup l else none := by
  induction entries with
  | nil => simp
  | cons x entries ih =>
      obtain ⟨k, old⟩ := x
      by_cases hl : l = k
      · subst hl
        cases hk : keep l with
        | true => simp [hk]
        | false => simp [hk, ih]
      · have hb : (l == k) = false := beq_false_of_ne hl
        rw [List.lookup_cons, hb, ← ih, List.filter_cons]
        split
        · rw [List.lookup_cons, hb]
        · rfl

theorem entry?_put (hloc : loc ≠ []) : entry? (d.put loc e) l = if l = loc then some e else d.entry? l := by
  by_cases hl : l = []
  · subst hl
    rw [if_neg (Ne.symm hloc)]
    rfl
  rw [entry?_of_ne_nil hl, entry?_of_ne_nil hl, put]
  cases hk : d.entries.lookup loc with
  | some old =>
      simp only [Option.isSome_some, if_true, lookup_replace]
      split
      · rename_i h
        rw [h, hk]
        rfl
      · rfl
  | none =>
      simp only [Option.isSome_none, Bool.false_eq_true, if_false, List.lookup_append]
      split
      · rename_i h
        rw [h, hk]
        simp
      · rename_i h
        have hb : (l == loc) = false := beq_false_of_ne h
        simp [List.lookup_cons, hb]

@[simp] theorem base_put : (d.put loc e).base = d.base := by
  rw [put]
  split <;> rfl

@[simp] theorem base_stamp : (d.stamp loc).base = d.base := by
  rw [stamp]
  split
  · exact base_put
  · rfl

@[simp] theorem room_put : (d.put loc e).room = d.room := by
  rw [put]
  split <;> rfl

@[simp] theorem room_stamp : (d.stamp loc).room = d.room := by
  rw [stamp]
  split
  · exact room_put
  · rfl

@[simp] theorem refused_put : (d.put loc e).refused = d.refused := by
  rw [put]
  split <;> rfl

@[simp] theorem refused_stamp : (d.stamp loc).refused = d.refused := by
  rw [stamp]
  split
  · exact refused_put
  · rfl

/-- What stands at a location, whatever its time. -/
def still (d : Disk) (loc : Location) : Option Entry :=
  Option.map (Entry.withModified 0) (d.entry? loc)

@[simp] theorem still_stamp : (d.stamp loc).still l = d.still l := by
  by_cases hloc : loc = []
  · subst hloc
    by_cases hl : l = []
    · subst hl
      rfl
    · rw [still, still, entry?_of_ne_nil hl, entry?_of_ne_nil hl, stamp]
      cases hk : d.entries.lookup [] with
      | none => rfl
      | some old =>
          simp only [put, hk, Option.isSome_some, if_true, lookup_replace, if_neg hl]
  · rw [still, still, stamp]
    cases hk : d.entries.lookup loc with
    | none => rfl
    | some old =>
        simp only [entry?_put hloc]
        split
        · rename_i h
          rw [h, entry?_of_ne_nil hloc, hk]
          cases old <;> rfl
        · rfl

theorem still_eq_none_iff : d.still loc = none ↔ d.entry? loc = none :=
  Option.map_eq_none_iff

theorem still_eq_file_iff {content : Bytes} {x : Bool} :
    d.still loc = some (.file content 0 x) ↔ ∃ m, d.entry? loc = some (.file content m x) := by
  rw [still]
  cases d.entry? loc with
  | none => simp
  | some e => cases e <;> simp [Entry.withModified]

/-! ## Where walks end -/

def Spot.On (d : Disk) : Spot → Prop
  | .found loc e => d.entry? loc = some e
  | .vacant dir name => d.entry? (dir ++ [name]) = none

theorem advance_on {goal : Goal} {dir : Location} {ts : List Token} {s : Spot}
    (h : d.advance goal dir ts = .spot s) : s.On d := by
  induction ts generalizing dir with
  | nil =>
      rw [advance] at h
      split at h
      · cases h
        assumption
      · cases h
  | cons t ts ih =>
      cases t with
      | here => exact ih h
      | slash => exact ih h
      | up => exact ih h
      | name n =>
          rw [advance] at h
          split at h
          · cases h
          split at h
          · cases h
          split at h
          · split at h
            · cases h
              assumption
            · cases h
          · exact ih h
          · split at h
            · cases h
              assumption
            · cases h
          · split at h
            · cases h
              assumption
            · cases h

theorem walk_on {goal : Goal} {links : Nat} {dir : Location} {ts : List Token} {s : Spot}
    (h : d.walk goal links dir ts = .ok s) : s.On d := by
  induction links generalizing dir ts with
  | zero =>
      rw [walk] at h
      split at h
      · cases h
        exact advance_on (by assumption)
      · cases h
      · cases h
  | succ links ih =>
      rw [walk] at h
      split at h
      · cases h
        exact advance_on (by assumption)
      · cases h
      · exact ih h

theorem locate_on {goal : Goal} {p : Path} {s : Spot} (h : d.locate goal p = .ok s) : s.On d := by
  rw [locate] at h
  split at h
  · cases h
  split at h
  · cases h
  split at h
  · cases h
  exact walk_on h

/-! ## Disks with more directories -/

/-- The second disk has what the first one has, times apart, and perhaps more directories. -/
structure Grown (d d' : Disk) : Prop where
  base : d'.base = d.base
  room : d'.room = d.room
  entries : ∀ loc, d'.still loc = d.still loc ∨ d.still loc = none ∧ d'.still loc = some (.dir 0)

theorem Grown.refl (d : Disk) : Grown d d :=
  ⟨rfl, rfl, fun _ => Or.inl rfl⟩

theorem grown_refuse (d : Disk) : Grown d d.refuse :=
  ⟨rfl, rfl, fun _ => Or.inl rfl⟩

theorem Grown.trans (h : Grown d d') (h' : Grown d' d'') : Grown d d'' := by
  refine ⟨h'.base.trans h.base, h'.room.trans h.room, fun loc => ?_⟩
  rcases h'.entries loc with he' | ⟨hn', hd'⟩
  · rw [he']
    exact h.entries loc
  · rcases h.entries loc with he | ⟨-, hd⟩
    · exact Or.inr ⟨he ▸ hn', hd'⟩
    · rw [hn'] at hd
      cases hd

/-- Files are never made by growing. -/
theorem Grown.file_before {content : Bytes} {m : Int} {x : Bool} (h : Grown d d')
    (hfile : d'.entry? loc = some (.file content m x)) : ∃ m, d.entry? loc = some (.file content m x) := by
  have hstill : d'.still loc = some (.file content 0 x) := still_eq_file_iff.mpr ⟨m, hfile⟩
  rcases h.entries loc with he | ⟨-, hd⟩
  · exact still_eq_file_iff.mp (he.symm.trans hstill)
  · cases hstill.symm.trans hd

/-- Files stay where they are. -/
theorem Grown.file_after {content : Bytes} {m : Int} {x : Bool} (h : Grown d d')
    (hfile : d.entry? loc = some (.file content m x)) : ∃ m, d'.entry? loc = some (.file content m x) := by
  rcases h.entries loc with he | ⟨hn, -⟩
  · exact still_eq_file_iff.mp (he.trans (still_eq_file_iff.mpr ⟨m, hfile⟩))
  · cases hfile.symm.trans (still_eq_none_iff.mp hn)

theorem grown_create_dir {dir : Location} {name : Bytes} (h : d.entry? (dir ++ [name]) = none) (m : Int) :
    Grown d (d.create dir name (.dir m)) := by
  refine ⟨by rw [create, base_put, base_stamp], by rw [create, room_put, room_stamp], fun loc => ?_⟩
  rw [create]
  by_cases hl : loc = dir ++ [name]
  · right
    rw [hl]
    refine ⟨still_eq_none_iff.mpr h, ?_⟩
    rw [still, entry?_put (by simp), if_pos rfl]
    rfl
  · left
    rw [still, entry?_put (by simp), if_neg hl]
    exact still_stamp

/-- A directory is made where nothing is. -/
theorem exists_vacant_of_makeDir {p : Path} (h : makeDir p d = .ok d') : ∃ dir name,
    d.locate .entry (withoutSlash p) = .ok (.vacant dir name) ∧ d' = d.create dir name (.dir d.now) := by
  unfold makeDir at h
  cases hs : d.locate .entry (withoutSlash p) with
  | error e =>
      rw [hs] at h
      cases h
  | ok s =>
      rw [hs] at h
      cases s with
      | found loc e => cases h
      | vacant dir name =>
          cases h
          exact ⟨dir, name, rfl, rfl⟩

theorem makeDir_grown {p : Path} (h : makeDir p d = .ok d') : Grown d d' := by
  obtain ⟨dir, name, hs, rfl⟩ := exists_vacant_of_makeDir h
  exact grown_create_dir (locate_on hs) _

theorem Edit.bind_run {α β : Type} (x : Edit α) (f : α → Edit β) (d : Disk) :
    (x >>= f).run.run d = match x.run.run d with
      | (.ok a, d') => (f a).run.run d'
      | (.error e, d') => (.error e, d') := by
  have h : (x >>= f).run.run d = (ExceptT.bindCont f (x.run.run d).1).run (x.run.run d).2 := rfl
  rw [h]
  obtain ⟨r, d'⟩ := x.run.run d
  cases r <;> rfl

theorem Edit.get_bind {α : Type} (f : Disk → Edit α) (d : Disk) :
    ((get : Edit Disk) >>= f).run.run d = (f d).run.run d := rfl

/-- What making one directory keeps, making several of them does. -/
theorem makeLineage_induction {R : Disk → Disk → Prop} (refl : ∀ d, R d d)
    (trans : ∀ {d d' d''}, R d d' → R d' d'' → R d d'')
    (made : ∀ {p : Path} {d d'}, makeDir p d = .ok d' → R d d') (ps : List Path) (d : Disk) :
    R d ((makeLineage ps).run.run d).2 := by
  -- what is done where a directory could not be made changes nothing
  have settled (p : Path) (e : FileError) (d : Disk) :
      ((do if (← get).isDir p then pure () else throw e : Edit Unit).run.run d).2 = d := by
    rw [Edit.get_bind]
    split <;> rfl
  induction ps generalizing d with
  | nil => exact refl d
  | cons p above ih =>
      rw [makeLineage, Edit.get_bind]
      split
      · exact made (by assumption)
      · have hr := ih d
        rw [Edit.bind_run]
        generalize (makeLineage above).run.run d = x at hr
        obtain ⟨r, d'⟩ := x
        cases r with
        | error e => exact hr
        | ok u =>
            dsimp only
            rw [Edit.get_bind]
            split
            · exact trans hr (made (by assumption))
            · rw [settled]
              exact hr
      · rw [settled]
        exact refl d

theorem makeDirs_grown (p : Path) (d : Disk) : Grown d ((makeDirs p).run.run d).2 :=
  makeLineage_induction Grown.refl Grown.trans makeDir_grown _ d

theorem refused_create {dir : Location} {name : Bytes} : (d.create dir name e).refused = d.refused := by
  rw [create, refused_put, refused_stamp]

theorem makeDirs_refused (p : Path) (d : Disk) : ((makeDirs p).run.run d).2.refused = d.refused := by
  refine makeLineage_induction (R := fun d d' => d'.refused = d.refused) (fun _ => rfl) (fun h h' => h'.trans h) ?_ _ d
  intro p d d' h
  obtain ⟨dir, name, -, rfl⟩ := exists_vacant_of_makeDir h
  exact refused_create

/-! ## Disks with one file more -/

/-- At one location the second disk has a file of that content. Elsewhere it has what the first one has,
times apart. -/
structure Written (loc : Location) (content : Bytes) (d d' : Disk) : Prop where
  base : d'.base = d.base
  room : d'.room = d.room
  file : ∃ m x, d'.entry? loc = some (.file content m x)
  other : ∀ l ≠ loc, d'.still l = d.still l

theorem writeFile_run (p : Path) (content : Bytes) (m : Int) (x : Bool) (d : Disk) :
    (writeFile p content m x).run.run d = match d.locate .file p with
      | .error e => (.error e, d)
      | .ok (.vacant dir name) => (.ok (), d.create dir name (.file content m x))
      | .ok (.found loc (.file _ _ before)) => (.ok (), d.put loc (.file content m (before || x)))
      | .ok (.found _ _) => (.error .isDirectory, d) := by
  rw [writeFile, Edit.get_bind]
  cases d.locate .file p with
  | error e => rfl
  | ok s =>
      cases s with
      | vacant dir name => rfl
      | found loc e => cases e <;> rfl

theorem written_put {m : Int} {x : Bool} {content : Bytes} (hloc : loc ≠ []) :
    Written loc content d (d.put loc (.file content m x)) where
  base := base_put
  room := room_put
  file := ⟨m, x, by rw [entry?_put hloc, if_pos rfl]⟩
  other := fun l hl => by rw [still, entry?_put hloc, if_neg hl, still]

/-- A directory was stamped before. -/
theorem Written.of_stamp {content : Bytes} (h : Written loc content (d.stamp l) d') : Written loc content d d' where
  base := h.base.trans base_stamp
  room := h.room.trans room_stamp
  file := h.file
  other k hk := (h.other k hk).trans still_stamp

theorem writeFile_written (p : Path) (content : Bytes) (m : Int) (x : Bool) (d : Disk) :
    ((writeFile p content m x).run.run d).2 = d ∨
      ∃ loc, Written loc content d ((writeFile p content m x).run.run d).2 := by
  rw [writeFile_run]
  split
  · exact Or.inl rfl
  · rename_i dir name _
    have hw : Written (dir ++ [name]) content (d.stamp dir) (d.create dir name (.file content m x)) :=
      written_put (by simp)
    exact Or.inr ⟨_, hw.of_stamp⟩
  · rename_i h
    exact Or.inr ⟨_, written_put (ne_nil_of_entry (locate_on h) rfl)⟩
  · exact Or.inl rfl

theorem writeFile_refused (p : Path) (content : Bytes) (m : Int) (x : Bool) (d : Disk) :
    ((writeFile p content m x).run.run d).2.refused = d.refused := by
  rw [writeFile_run]
  split
  · rfl
  · exact refused_create
  · exact refused_put
  · rfl

/-- A step that writes makes the directories above the file, then the file. -/
theorem step_write (p : Path) (content : Bytes) (modified : Option Int) (executable : Bool) (d : Disk) :
    ∃ made, Grown d made ∧ ((d.step (.write p content modified executable)).2 = made ∨
      ∃ loc, Written loc content made (d.step (.write p content modified executable)).2) := by
  have hclock : Grown d { d with now := d.now + tick } := ⟨rfl, rfl, fun _ => Or.inl rfl⟩
  have hparent : Grown d ((makeParent p).run.run { d with now := d.now + tick }).2 := by
    rw [makeParent]
    split
    · exact hclock.trans (makeDirs_grown _ _)
    · exact hclock
  rw [step, perform, Edit.bind_run]
  generalize (makeParent p).run.run { d with now := d.now + tick } = x at hparent
  obtain ⟨r, made⟩ := x
  refine ⟨made, hparent, ?_⟩
  cases r with
  | error e => exact Or.inl rfl
  | ok u =>
      dsimp only
      rw [Edit.get_bind]
      exact writeFile_written _ _ _ _ _

/-! ## Walks past a file -/

section Past

variable {content : Bytes} {m : Int} {x : Bool}

/-- A walk that neither ends at the file nor fails does not see it: no walk leads on from a file. -/
theorem advance_past (hfile : d.entry? loc = some (.file content m x))
    (same : ∀ l ≠ loc, d'.entry? l = d.entry? l) (goal : Goal) (dir : Location) (ts : List Token) :
    d'.advance goal dir ts = d.advance goal dir ts ∨
      (∃ e, d.advance goal dir ts = .spot (.found loc e)) ∨ ∃ e, d.advance goal dir ts = .failed e := by
  induction ts generalizing dir with
  | nil =>
      by_cases hl : dir = loc
      · subst hl
        have hd : d.advance goal dir [] = .spot (.found dir (.file content m x)) := by
          rw [advance, hfile]
        exact Or.inr (Or.inl ⟨_, hd⟩)
      · rw [advance, advance, same dir hl]
        exact Or.inl rfl
  | cons t ts ih =>
      cases t with
      | here => exact ih dir
      | slash => exact ih dir
      | up => exact ih dir.dropLast
      | name n =>
          rw [advance, advance]
          by_cases hs : goal = .file ∧ ts = [.slash]
          · rw [if_pos hs, if_pos hs]
            exact Or.inl rfl
          rw [if_neg hs, if_neg hs]
          by_cases hn : n.length > longestName
          · rw [if_pos hn, if_pos hn]
            exact Or.inl rfl
          rw [if_neg hn, if_neg hn]
          by_cases hl : dir ++ [n] = loc
          · rw [hl, hfile]
            cases ts with
            | nil => exact Or.inr (Or.inl ⟨_, rfl⟩)
            | cons t ts => exact Or.inr (Or.inr ⟨_, rfl⟩)
          · rw [same _ hl]
            cases d.entry? (dir ++ [n]) with
            | none => exact Or.inl rfl
            | some e =>
                cases e with
                | dir m => exact ih (dir ++ [n])
                | file content m x => exact Or.inl rfl
                | link target m => exact Or.inl rfl

theorem walk_past (hfile : d.entry? loc = some (.file content m x))
    (same : ∀ l ≠ loc, d'.entry? l = d.entry? l) (goal : Goal) (links : Nat) (dir : Location)
    (ts : List Token) :
    d'.walk goal links dir ts = d.walk goal links dir ts ∨
      (∃ e, d.walk goal links dir ts = .ok (.found loc e)) ∨ ∃ e, d.walk goal links dir ts = .error e := by
  induction links generalizing dir ts with
  | zero =>
      rw [walk, walk]
      rcases advance_past hfile same goal dir ts with h | ⟨e, h⟩ | ⟨e, h⟩
      · rw [h]
        exact Or.inl rfl
      · rw [h]
        exact Or.inr (Or.inl ⟨e, rfl⟩)
      · rw [h]
        exact Or.inr (Or.inr ⟨e, rfl⟩)
  | succ links ih =>
      rw [walk, walk]
      rcases advance_past hfile same goal dir ts with h | ⟨e, h⟩ | ⟨e, h⟩
      · rw [h]
        cases d.advance goal dir ts with
        | spot s => exact Or.inl rfl
        | failed e => exact Or.inl rfl
        | link start target rest => exact ih _ _
      · rw [h]
        exact Or.inr (Or.inl ⟨e, rfl⟩)
      · rw [h]
        exact Or.inr (Or.inr ⟨e, rfl⟩)

theorem stat_past (hfile : d.entry? loc = some (.file content m x)) (base : d'.base = d.base)
    (same : ∀ l ≠ loc, d'.entry? l = d.entry? l) {p : Path} {l : Location} {e : Entry}
    (h : d.stat p = .ok (l, e)) : l = loc ∨ d'.stat p = .ok (l, e) := by
  rw [stat_eq_ok_iff] at h
  rw [stat_eq_ok_iff]
  rw [locate] at h ⊢
  split at h
  · cases h
  split at h
  · cases h
  split at h
  · cases h
  rw [if_neg (by assumption), if_neg (by assumption), if_neg (by assumption), base]
  generalize (if p.isAbsolute then [] else d.base) = start at h
  rcases walk_past hfile same .target mostLinks start (tokens p.bytes) with hp | ⟨e', he⟩ | ⟨e', he⟩
  · exact Or.inr (hp.trans h)
  · rw [he] at h
    cases h
    exact Or.inl rfl
  · rw [he] at h
    cases h

end Past

/-! ### Without the file -/

/-- A disk with what another one has at a location. -/
def restore (old : Disk) (loc : Location) (d : Disk) : Disk :=
  { d with entries := (old.entries.filter fun x => x.1 = loc) ++ d.entries.filter fun x => x.1 ≠ loc }

theorem entry?_restore {old : Disk} :
    entry? (old.restore loc d) l = if l = loc then old.entry? l else d.entry? l := by
  by_cases hl : l = []
  · subst hl
    split <;> rfl
  rw [entry?_of_ne_nil hl, entry?_of_ne_nil hl, entry?_of_ne_nil hl, restore, List.lookup_append,
    lookup_filter (fun k => decide (k = loc)), lookup_filter (fun k => decide (k ≠ loc))]
  by_cases h : l = loc
  · simp [h]
  · simp [h]

/-- A file found after one was written, and after directories were made, is the one written, or it would be
found without the writing. -/
theorem Written.stat_grown {content found : Bytes} {m : Int} {x : Bool} {p : Path}
    (hw : Written loc content d d') (hg : Grown d' d'') (h : d''.stat p = .ok (l, .file found m x)) :
    found = content ∨ ∃ without, Grown d without ∧ without.stat p = .ok (l, .file found m x) := by
  obtain ⟨m', x', hfile⟩ := hw.file
  obtain ⟨m', hfile⟩ := hg.file_after hfile
  have same (k : Location) (hk : k ≠ loc) : entry? (d.restore loc d'') k = d''.entry? k := by
    rw [entry?_restore, if_neg hk]
  have base : (d.restore loc d'').base = d''.base := rfl
  rcases stat_past hfile base same h with hl | hs
  · have hon := locate_on (stat_eq_ok_iff.mp h)
    rw [hl] at hon
    cases hfile.symm.trans hon
    exact Or.inl rfl
  · refine Or.inr ⟨d.restore loc d'', ⟨hg.base.trans hw.base, hg.room.trans hw.room, fun k => ?_⟩, hs⟩
    by_cases hk : k = loc
    · left
      rw [still, entry?_restore, if_pos hk, still]
    · have he : (d.restore loc d'').still k = d''.still k := by
        rw [still, same k hk]
        rfl
      rw [he, ← hw.other k hk]
      exact hg.entries k

end ClassScope.Disk
