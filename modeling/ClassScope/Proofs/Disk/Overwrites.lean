import ClassScope.Proofs.Disk.Writes

/-!
# Where paths lead after a file was written

A path leads to the file just written, or it leads where it led before. Making directories for it changes nothing
where there is one already.
-/

namespace ClassScope.Disk

variable {d d' : Disk} {loc l : Location} {content : Bytes} {p : Path}

/-! ## Entries apart from their times -/

/-- Two entries that differ at most in their times. -/
def Entry.Alike (e e' : Entry) : Prop :=
  e.withModified 0 = e'.withModified 0

theorem Entry.Alike.kinds {e e' : Entry} (h : e.Alike e') :
    (∃ m m', e = .dir m ∧ e' = .dir m') ∨ (∃ bs m m' x, e = .file bs m x ∧ e' = .file bs m' x) ∨
      ∃ target m m', e = .link target m ∧ e' = .link target m' := by
  cases e with
  | dir m =>
      cases e' with
      | dir m' => exact Or.inl ⟨m, m', rfl, rfl⟩
      | file _ _ _ => cases h
      | link _ _ => cases h
  | file bs m x =>
      cases e' with
      | dir _ => cases h
      | file _ m' _ =>
          obtain ⟨rfl, -, rfl⟩ := Entry.file.inj h
          exact Or.inr (Or.inl ⟨bs, m, m', x, rfl, rfl⟩)
      | link _ _ => cases h
  | link target m =>
      cases e' with
      | dir _ => cases h
      | file _ _ _ => cases h
      | link _ m' =>
          obtain ⟨rfl, -⟩ := Entry.link.inj h
          exact Or.inr (Or.inr ⟨target, m, m', rfl, rfl⟩)

theorem still_eq_some {e : Entry} (h : d.entry? loc = some e) : d.still loc = some (e.withModified 0) := by
  rw [still, h, Option.map_some]

/-- Apart from the place that was written, entries only change in their times. -/
theorem Written.entry?_cases (hw : Written loc content d d') (l : Location) :
    l = loc ∨ (d.entry? l = none ∧ d'.entry? l = none) ∨
      ∃ e e', d.entry? l = some e ∧ d'.entry? l = some e' ∧ e.Alike e' := by
  by_cases hl : l = loc
  · exact Or.inl hl
  have hs := hw.other l hl
  cases he : d.entry? l with
  | none => exact Or.inr (Or.inl ⟨rfl, still_eq_none_iff.mp (hs.trans (still_eq_none_iff.mpr he))⟩)
  | some e =>
      rw [still_eq_some he, still, Option.map_eq_some_iff] at hs
      obtain ⟨e', he', alike⟩ := hs
      exact Or.inr (Or.inr ⟨e, e', rfl, he', alike.symm⟩)

/-! ## Walks before and after -/

/-- How a walk before a file was written compares with the same walk afterwards. -/
inductive Beside (loc : Location) : Reach → Reach → Prop where
  | written (r : Reach) (e : Entry) : Beside loc r (.spot (.found loc e))
  | found (l : Location) {e e' : Entry} (h : e.Alike e') : Beside loc (.spot (.found l e)) (.spot (.found l e'))
  | vacant (dir : Location) (name : Bytes) : Beside loc (.spot (.vacant dir name)) (.spot (.vacant dir name))
  | failed (e e' : FileError) : Beside loc (.failed e) (.failed e')
  | link (dir : Location) (target : Bytes) (rest : List Token) :
      Beside loc (.link dir target rest) (.link dir target rest)

/-- A file, or nothing, stands where a file is about to be written. -/
def Clear (d : Disk) (loc : Location) : Prop :=
  ∀ e, d.entry? loc = some e → ∃ content m x, e = .file content m x

theorem Written.advance (hw : Written loc content d d') (clear : d.Clear loc) (goal : Goal) (dir : Location)
    (ts : List Token) : Beside loc (d.advance goal dir ts) (d'.advance goal dir ts) := by
  obtain ⟨m, x, hfile⟩ := hw.file
  induction ts generalizing dir with
  | nil =>
      rw [Disk.advance, Disk.advance]
      rcases hw.entry?_cases dir with rfl | ⟨hnone, hnone'⟩ | ⟨e, e', he, he', alike⟩
      · rw [hfile]
        exact .written _ _
      · rw [hnone, hnone']
        exact .failed _ _
      · rw [he, he']
        exact .found dir alike
  | cons t ts ih =>
      cases t with
      | here => exact ih dir
      | slash => exact ih dir
      | up => exact ih dir.dropLast
      | name n =>
          rw [Disk.advance, Disk.advance]
          by_cases hs : goal = .file ∧ ts = [.slash]
          · rw [if_pos hs, if_pos hs]
            exact .failed _ _
          rw [if_neg hs, if_neg hs]
          by_cases hn : n.length > longestName
          · rw [if_pos hn, if_pos hn]
            exact .failed _ _
          rw [if_neg hn, if_neg hn]
          rcases hw.entry?_cases (dir ++ [n]) with hl | ⟨hnone, hnone'⟩ | ⟨e, e', he, he', alike⟩
          · rw [hl, hfile]
            cases ts with
            | nil => exact .written _ _
            | cons t ts =>
                -- before, the walk could not lead on from here either
                cases he : d.entry? loc with
                | none => exact .failed _ _
                | some e =>
                    obtain ⟨before, m', x', rfl⟩ := clear e he
                    exact .failed _ _
          · rw [hnone, hnone']
            cases ts with
            | nil => exact .vacant _ _
            | cons t ts => exact .failed _ _
          · rw [he, he']
            rcases alike.kinds with ⟨m, m', rfl, rfl⟩ | ⟨bs, m, m', x, rfl, rfl⟩ | ⟨target, m, m', rfl, rfl⟩
            · exact ih (dir ++ [n])
            · cases ts with
              | nil => exact .found _ alike
              | cons t ts => exact .failed _ _
            · dsimp only
              split
              · exact .found _ alike
              · exact .link _ _ _

/-- What a walk comes to before and after a file was written. -/
inductive Leads (loc : Location) : Except FileError Spot → Except FileError Spot → Prop where
  | written (r : Except FileError Spot) (e : Entry) : Leads loc r (.ok (.found loc e))
  | found (l : Location) {e e' : Entry} (h : e.Alike e') : Leads loc (.ok (.found l e)) (.ok (.found l e'))
  | vacant (dir : Location) (name : Bytes) : Leads loc (.ok (.vacant dir name)) (.ok (.vacant dir name))
  | failed (e e' : FileError) : Leads loc (.error e) (.error e')

theorem Written.walk (hw : Written loc content d d') (clear : d.Clear loc) (goal : Goal) (links : Nat)
    (dir : Location) (ts : List Token) : Leads loc (d.walk goal links dir ts) (d'.walk goal links dir ts) := by
  induction links generalizing dir ts with
  | zero =>
      rw [Disk.walk, Disk.walk]
      have ha := hw.advance clear goal dir ts
      generalize d.advance goal dir ts = r at ha
      generalize d'.advance goal dir ts = r' at ha
      cases ha with
      | written r e => exact .written _ e
      | found l h => exact .found l h
      | vacant dir name => exact .vacant dir name
      | failed e e' => exact .failed e e'
      | link dir target rest => exact .failed _ _
  | succ links ih =>
      rw [Disk.walk, Disk.walk]
      have ha := hw.advance clear goal dir ts
      generalize d.advance goal dir ts = r at ha
      generalize d'.advance goal dir ts = r' at ha
      cases ha with
      | written r e => exact .written _ e
      | found l h => exact .found l h
      | vacant dir name => exact .vacant dir name
      | failed e e' => exact .failed e e'
      | link dir target rest => exact ih _ _

theorem Written.locate (hw : Written loc content d d') (clear : d.Clear loc) (goal : Goal) (p : Path) :
    Leads loc (d.locate goal p) (d'.locate goal p) := by
  rw [Disk.locate, Disk.locate]
  split
  · exact .failed _ _
  split
  · exact .failed _ _
  split
  · exact .failed _ _
  rw [hw.base]
  exact hw.walk clear goal _ _ _

/-! ## The file just written -/

/-- A walk that may write ends where one that only looks does, unless it fails. -/
theorem advance_target_of_file (d : Disk) (dir : Location) (ts : List Token) :
    d.advance .file dir ts = .failed .isDirectory ∨ d.advance .file dir ts = d.advance .target dir ts := by
  induction ts generalizing dir with
  | nil => exact Or.inr rfl
  | cons t ts ih =>
      cases t with
      | here => exact ih dir
      | slash => exact ih dir
      | up => exact ih dir.dropLast
      | name n =>
          rw [advance_name, Disk.advance]
          by_cases hs : Goal.file = .file ∧ ts = [.slash]
          · rw [if_pos hs]
            exact Or.inl rfl
          rw [if_neg hs]
          by_cases hn : n.length > longestName
          · rw [if_pos hn, if_pos hn]
            exact Or.inr rfl
          rw [if_neg hn, if_neg hn]
          cases d.entry? (dir ++ [n]) with
          | none => exact Or.inr rfl
          | some e =>
              cases e with
              | dir m => exact ih (dir ++ [n])
              | file content m x => exact Or.inr rfl
              | link target m => exact Or.inr (if_neg (by simp))

theorem walk_target_of_file {links : Nat} {dir : Location} {ts : List Token} {s : Spot}
    (h : d.walk .file links dir ts = .ok s) : d.walk .target links dir ts = .ok s := by
  induction links generalizing dir ts with
  | zero =>
      rw [Disk.walk] at h ⊢
      rcases advance_target_of_file d dir ts with ha | ha
      · rw [ha] at h
        cases h
      · rw [← ha]
        exact h
  | succ links ih =>
      rw [Disk.walk] at h ⊢
      rcases advance_target_of_file d dir ts with ha | ha
      · rw [ha] at h
        cases h
      · rw [ha] at h
        cases hr : d.advance .target dir ts with
        | spot s =>
            rw [hr] at h
            exact h
        | failed e =>
            rw [hr] at h
            cases h
        | link start target rest =>
            rw [hr] at h
            exact ih h

theorem stat_of_locate_file {e : Entry} (h : d.locate .file p = .ok (.found loc e)) :
    d.stat p = .ok (loc, e) := by
  rw [stat_eq_ok_iff]
  rw [Disk.locate] at h ⊢
  split at h
  · cases h
  split at h
  · cases h
  split at h
  · cases h
  rw [if_neg (by assumption), if_neg (by assumption), if_neg (by assumption)]
  exact walk_target_of_file h

/-- A path that led to the place of the file leads to the file. -/
theorem Written.locate_file (hw : Written loc content d d') (clear : d.Clear loc) {s : Spot}
    (hs : d.locate .file p = .ok s) (place : (∃ e, s = .found loc e) ∨ ∃ dir name, s = .vacant dir name ∧
      dir ++ [name] = loc) : ∃ m x, d'.locate .file p = .ok (.found loc (.file content m x)) := by
  obtain ⟨m, x, hfile⟩ := hw.file
  suffices found : ∃ e, d'.locate .file p = .ok (.found loc e) by
    obtain ⟨e, hf⟩ := found
    have on : d'.entry? loc = some e := locate_on hf
    cases hfile.symm.trans on
    exact ⟨m, x, hf⟩
  have hl := hw.locate clear .file p
  rw [hs] at hl
  generalize hr : d'.locate .file p = r at hl
  cases hl with
  | written r e => exact ⟨e, rfl⟩
  | @found l e e' h =>
      obtain ⟨e'', he⟩ | ⟨dir, name, he, -⟩ := place
      · cases he
        exact ⟨e', rfl⟩
      · cases he
  | vacant dir name =>
      obtain ⟨e, he⟩ | ⟨dir', name', he, hloc⟩ := place
      · cases he
      · cases he
        have gone : d'.entry? (dir ++ [name]) = none := locate_on hr
        rw [hloc, hfile] at gone
        cases gone

/-- Writing a file succeeds where a file or nothing stands, and then the path leads to that file. -/
theorem written_of_writeFile {m : Int} {x : Bool}
    (h : (writeFile p content m x).run.run d = (.ok (), d')) : ∃ loc m' x',
      Written loc content d d' ∧ d.Clear loc ∧ d'.locate .file p = .ok (.found loc (.file content m' x')) := by
  rw [writeFile_run] at h
  cases hs : d.locate .file p with
  | error e =>
      rw [hs] at h
      cases h
  | ok s =>
      rw [hs] at h
      cases s with
      | vacant dir name =>
          cases h
          have vacant : d.entry? (dir ++ [name]) = none := locate_on hs
          have hput : Written (dir ++ [name]) content (d.stamp dir) (d.create dir name (.file content m x)) :=
            written_put (by simp)
          have hw : Written (dir ++ [name]) content d (d.create dir name (.file content m x)) := hput.of_stamp
          have clear : d.Clear (dir ++ [name]) := fun e he => by cases vacant.symm.trans he
          obtain ⟨m', x', hfound⟩ := hw.locate_file clear hs (Or.inr ⟨dir, name, rfl, rfl⟩)
          exact ⟨_, m', x', hw, clear, hfound⟩
      | found loc e =>
          cases e with
          | dir _ => cases h
          | link _ _ => cases h
          | file old m' before =>
              cases h
              have on : d.entry? loc = some (.file old m' before) := locate_on hs
              have hw : Written loc content d (d.put loc (.file content m (before || x))) :=
                written_put (ne_nil_of_entry on rfl)
              have clear : d.Clear loc := fun e he => by
                cases on.symm.trans he
                exact ⟨old, m', before, rfl⟩
              obtain ⟨m'', x', hfound⟩ := hw.locate_file clear hs (Or.inl ⟨_, rfl⟩)
              exact ⟨loc, m'', x', hw, clear, hfound⟩

/-! ## Directories that are there already -/

/-- The steps that the parts between slashes prescribe. -/
def parts (bytes : Bytes) : List Token :=
  ((Path.split bytes).filter (· ≠ [])).map Token.ofPart

end ClassScope.Disk
