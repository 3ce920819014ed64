import ClassScope.Proofs.ClassIndex.Announced
import ClassScope.Proofs.ClassIndex.Stores
import ClassScope.Proofs.Scan.Indexed

/-!
# Damaged index files

An index file counts only when its bytes start with a record of the right version for the very fingerprint.
Whatever else it holds, a scan answers as one without an index; and once that scan has stored what it found, the
next one finds it there. The one exception is a text whose length, as the file tells it, is greater than the room for
it: the reader asks for a buffer of that length all the same, and with that the program ends.
-/

namespace ClassScope

theorem Disk.read_eq_ok_iff {d : Disk} {p : Path} {content : Bytes} :
    d.read p = .ok content ↔ ∃ loc m x, d.stat p = .ok (loc, .file content m x) := by
  rw [Disk.read]
  cases d.stat p with
  | error e =>
      refine ⟨fun h => ?_, ?_⟩
      · cases h
      · rintro ⟨loc, m, x, h⟩
        cases h
  | ok found =>
      obtain ⟨loc, e⟩ := found
      constructor
      · intro h
        cases e with
        | file content m x =>
            cases h
            exact ⟨loc, m, x, rfl⟩
        | dir m => cases h
        | link target m => cases h
      · rintro ⟨loc, m, x, h⟩
        cases h
        rfl

namespace ClassIndex

variable {root : Path} {d d' : Disk} {f : Fingerprint} {r : Record} {classes : ClassNameSet} {elapsedNs : Nat}

theorem load_of_read {content : Bytes} (h : d.read (filePath root f) = .ok content) :
    load root f d = (recordFor d.room f content).map some := by
  obtain ⟨loc, m, x, hs⟩ := Disk.read_eq_ok_iff.mp h
  exact load_of_file hs

/-- What is loaded is the record that the file starts with. -/
theorem load_eq_some_iff_starts : load root f d = .ok (some r) ↔ ∃ content,
    d.read (filePath root f) = .ok content ∧ r.Starts d.room content ∧ r.version = currentVersion ∧
      r.fingerprint = f := by
  rw [load_eq_some_iff]
  constructor
  · rintro ⟨loc, content, m, x, hs, hr⟩
    exact ⟨content, Disk.read_eq_ok_iff.mpr ⟨loc, m, x, hs⟩, recordFor_eq_ok_iff.mp hr⟩
  · rintro ⟨content, hread, hr⟩
    obtain ⟨loc, m, x, hs⟩ := Disk.read_eq_ok_iff.mp hread
    exact ⟨loc, content, m, x, hs, recordFor_eq_ok_iff.mpr hr⟩

theorem load_eq_none_iff : load root f d = .ok none ↔ d.has (filePath root f) = false := by
  unfold load Disk.has
  cases d.stat (filePath root f) with
  | error e => exact ⟨fun _ => rfl, fun _ => rfl⟩
  | ok found =>
      obtain ⟨loc, e⟩ := found
      refine ⟨fun h => ?_, fun h => by cases h⟩
      cases e with
      | file content m x =>
          dsimp only at h
          cases hr : recordFor d.room f content with
          | error e => rw [hr] at h; cases h
          | ok r => rw [hr] at h; cases h
      | dir m => cases h
      | link target m => cases h

theorem load_eq_memory_iff {n : Nat} : load root f d = .error (.encoding (.memory n)) ↔ ∃ content,
    d.read (filePath root f) = .ok content ∧ Announces d.room n content ∧ d.room < n := by
  simp only [← recordFor_eq_memory_iff (g := f)]
  constructor
  · intro h
    unfold load at h
    split at h
    · rename_i loc content m x hs
      refine ⟨content, Disk.read_eq_ok_iff.mpr ⟨loc, m, x, hs⟩, ?_⟩
      cases hr : recordFor d.room f content with
      | error e =>
          rw [hr] at h
          cases h
          rfl
      | ok r =>
          rw [hr] at h
          cases h
    · cases h
    · cases h
  · rintro ⟨content, hread, hr⟩
    rw [load_of_read hread, hr]
    rfl

/-- Whoever reads the index file comes to no length that is greater than the room for it. -/
def LengthsFit (root : Path) (f : Fingerprint) (d : Disk) : Prop :=
  ∀ content, d.read (filePath root f) = .ok content → ∀ n, Announces d.room n content → n ≤ d.room

theorem lengthsFit_iff : LengthsFit root f d ↔ ∀ n, load root f d ≠ .error (.encoding (.memory n)) := by
  constructor
  · intro fit n h
    obtain ⟨content, hread, announced, much⟩ := load_eq_memory_iff.mp h
    exact Nat.not_le_of_lt much (fit content hread n announced)
  · intro h content hread n announced
    by_contra much
    exact h n (load_eq_memory_iff.mpr ⟨content, hread, announced, Nat.lt_of_not_le much⟩)

/-- A file that is there and holds no record is an error. -/
theorem load_cases (hl : ∀ r, load root f d ≠ .ok (some r)) :
    load root f d = .ok none ∧ d.has (filePath root f) = false ∨
      d.has (filePath root f) = true ∧ ∃ e, load root f d = .error e := by
  cases h : d.has (filePath root f) with
  | false => exact .inl ⟨load_eq_none_iff.mpr h, rfl⟩
  | true =>
      refine .inr ⟨rfl, ?_⟩
      cases hload : load root f d with
      | error e => exact ⟨e, rfl⟩
      | ok found =>
          cases found with
          | none =>
              rw [load_eq_none_iff, h] at hload
              cases hload
          | some r => exact absurd hload (hl r)

/-! ## What a store leaves -/

theorem read_of_store (h : (store root f classes elapsedNs).run.run d = (.ok (), d')) :
    ∃ now, d'.read (filePath root f) = .ok (recordOf f classes elapsedNs now).encode := by
  obtain ⟨loc, m, x, -, -, hfound⟩ := written_of_store h
  exact ⟨_, Disk.read_eq_ok_iff.mpr ⟨loc, m, x, Disk.stat_of_locate_file hfound⟩⟩

/-- The program goes on after a store, whether it succeeds or not. -/
theorem refused_store : ((store root f classes elapsedNs).run.run d).2.refused = d.refused := by
  have made := Disk.makeDirs_refused root d
  rw [store_run]
  generalize (Disk.makeDirs root).run.run d = r at made ⊢
  obtain ⟨done, d'⟩ := r
  cases done with
  | error e => exact made
  | ok u =>
      dsimp only at made ⊢
      rw [Disk.writeFile_refused, made]

end ClassIndex

namespace Scan

open ClassIndex (Record Announces LengthsFit load store filePath)

variable {root : Path} {d d' : Disk} {p : Path} {f : Fingerprint}

/-! ## Scans by what is loaded -/

theorem entry_of_load {r : Record} (hp : d.has p = true) (hf : Fingerprint.capture d p = .ok f)
    (hl : load root f d = .ok (some r)) : entry (some root) p d = (.ok r.classes, d) := by
  rw [entry_some, hp, hf]
  dsimp only
  rw [hl]
  rfl

theorem entry_of_memory {n : Nat} (hp : d.has p = true) (hf : Fingerprint.capture d p = .ok f)
    (hl : load root f d = .error (.encoding (.memory n))) : entry (some root) p d = (plain d p, d.refuse) := by
  rw [entry_some, hp, hf]
  dsimp only
  rw [hl]
  rfl

theorem entry_of_no_load (hp : d.has p = true) (hf : Fingerprint.capture d p = .ok f)
    (hl : ∀ r, load root f d ≠ .ok (some r)) (fit : LengthsFit root f d) : entry (some root) p d =
      match plain d p with
      | .error e => (.error e, d)
      | .ok classes => (.ok classes, ((store root f classes 0).run.run d).2) := by
  rw [entry_some, hp, hf]
  dsimp only
  split
  · rename_i h
    cases h
  · split
    · rename_i r hr
      exact absurd hr (hl r)
    · rename_i n hn
      exact absurd hn (ClassIndex.lengthsFit_iff.mp fit n)
    · rfl

theorem seen_none (going : d.refused = false) : Disk.seen (entry none p) d = some (plain d p) := by
  show (if (entry none p d).2.refused then none else some (entry none p d).1) = _
  rw [entry_none, going]
  rfl

theorem seen_of_no_load (going : d.refused = false) (hp : d.has p = true) (hf : Fingerprint.capture d p = .ok f)
    (hl : ∀ r, load root f d ≠ .ok (some r)) (fit : LengthsFit root f d) :
    Disk.seen (entry (some root) p) d = some (plain d p) := by
  show (if (entry (some root) p d).2.refused then none else some (entry (some root) p d).1) = _
  rw [entry_of_no_load hp hf hl fit]
  cases plain d p with
  | error e =>
      dsimp only
      rw [going]
      rfl
  | ok classes =>
      dsimp only
      rw [ClassIndex.refused_store, going]
      rfl

theorem seen_of_not_fit (hp : d.has p = true) (hf : Fingerprint.capture d p = .ok f)
    (fit : ¬ LengthsFit root f d) : Disk.seen (entry (some root) p) d = none := by
  rw [ClassIndex.lengthsFit_iff] at fit
  obtain ⟨n, hn⟩ := not_forall_not.mp fit
  show (if (entry (some root) p d).2.refused then none else some (entry (some root) p d).1) = _
  rw [entry_of_memory hp hf hn]
  rfl

/-- A load gives what the index file starts with, if that is a record for the fingerprint and there is room for its
texts, and else none or an error, or the program ends: it does so where the reader comes to a length that is greater
than its room. If it does not, a scan of a path with the fingerprint answers as one without an index, and what it could
store answers the next scan of the path under the fingerprint, for as long as the index file stays. -/
theorem damaged_index_ignored_iff (root : Path) (f : Fingerprint) (d : Disk) (going : d.refused = false) :
    (∀ r, load root f d = .ok (some r) ↔ ∃ content, d.read (filePath root f) = .ok content ∧
      r.Starts d.room content ∧ r.version = 1 ∧ r.fingerprint = f) ∧
    (∀ n, load root f d = .error (.encoding (.memory n)) ↔ ∃ content, d.read (filePath root f) = .ok content ∧
      Announces d.room n content ∧ d.room < n) ∧
    ∀ p, d.has p = true → Fingerprint.capture d p = .ok f → (∀ r, load root f d ≠ .ok (some r)) →
      (load root f d = .ok none ∧ d.has (filePath root f) = false ∨
        d.has (filePath root f) = true ∧ ∃ e, load root f d = .error e) ∧
      (Disk.seen (entry (some root) p) d = Disk.seen (entry none p) d ↔ LengthsFit root f d) ∧
      (¬ LengthsFit root f d → Disk.seen (entry (some root) p) d = none) ∧
      ∀ classes d', (entry none p d).1 = .ok classes → (store root f classes 0).run.run d = (.ok (), d') →
        f.Fits d.room → classes.Fits d.room → LengthsFit root f d → (entry (some root) p d).2 = d' ∧
        ∀ d'', d''.refused = false → d''.room = d.room →
          d''.read (filePath root f) = d'.read (filePath root f) → d''.has p = true →
          Fingerprint.capture d'' p = .ok f → Disk.seen (entry (some root) p) d'' = some (.ok classes) := by
  refine ⟨fun r => ClassIndex.load_eq_some_iff_starts, fun n => ClassIndex.load_eq_memory_iff, fun p hp hf hl => ?_⟩
  refine ⟨ClassIndex.load_cases hl, ⟨fun same => ?_, fun fit => ?_⟩, seen_of_not_fit hp hf, ?_⟩
  · by_contra unfit
    rw [seen_of_not_fit hp hf unfit, seen_none going] at same
    cases same
  · rw [seen_of_no_load going hp hf hl fit, seen_none going]
  · intro classes d' hc hstore ff fc fit
    have hplain : plain d p = .ok classes := by rwa [entry_none] at hc
    rw [entry_of_no_load hp hf hl fit, hplain]
    dsimp only
    rw [hstore]
    refine ⟨rfl, fun d'' going' room hread hp' hf' => ?_⟩
    obtain ⟨now, hnow⟩ := ClassIndex.read_of_store hstore
    have hload := ClassIndex.load_of_read (hread.trans hnow)
    rw [room, ClassIndex.recordFor_recordOf ff fc] at hload
    show (if (entry (some root) p d'').2.refused then none else some (entry (some root) p d'').1) = _
    rw [entry_of_load hp' hf' hload, going']
    rfl

/-! ### Files with other bytes -/

def damagedIndex : Path :=
  Path.ofString "index"

/-- The fingerprint of a directory with one empty class file. -/
def oneFile : Fingerprint :=
  ⟨1, "a", .classTree 1 0 (some 0)⟩

def classDirectory : Path :=
  Path.ofString "a"

/-- The disk with the directory and an index file for it that holds these bytes. -/
def damaged (bytes : Bytes) : Disk :=
  ((Disk.makeDirs damagedIndex >>= fun _ =>
    Disk.writeFile (filePath damagedIndex oneFile) bytes 0 false).run.run
      { Disk.empty 0 with
        entries := (Disk.empty 0).entries ++ [([[0], Utf8.encode "a"], .dir 0),
          ([[0], Utf8.encode "a", Utf8.encode "A.class"], .file [] 0 false)] }).2

/-- Bytes that end before the length of a text. -/
def broken : Disk :=
  damaged (Utf8.encode "broken")

/-- Two versions and the length of a path that no memory holds. -/
def endless : Disk :=
  damaged [1, 0, 0, 0, 1, 0, 0, 0, 0xFF, 0xFF, 0xFF, 0xFF, 0xFF, 0xFF, 0xFF, 0xFF]

/-- The disk after the classes of the directory were stored. -/
def repaired : Except FileError Unit × Disk :=
  (store damagedIndex oneFile (.ofList ["A"]) 0).run.run broken

/-- The broken file is passed over and written anew. The one with the endless path ends the program. -/
theorem damaged_index_ignored_of_broken :
    ((∃ e, load damagedIndex oneFile broken = .error e) ∧
      Disk.seen (entry (some damagedIndex) classDirectory) broken = Disk.seen (entry none classDirectory) broken ∧
      (entry (some damagedIndex) classDirectory broken).2 = repaired.2 ∧
      Disk.seen (entry (some damagedIndex) classDirectory) repaired.2 = some (.ok (.ofList ["A"]))) ∧
    Disk.seen (entry none classDirectory) endless = some (.ok (.ofList ["A"])) ∧
    Disk.seen (entry (some damagedIndex) classDirectory) endless = none := by
  have print : oneFile.Fits broken.room := by
    refine ⟨by decide, by decide +kernel, by decide, by decide, fun ms hms => ?_⟩
    cases hms
    decide
  have before : broken.refused = false ∧ broken.has classDirectory = true ∧
      Fingerprint.capture broken classDirectory = .ok oneFile ∧
      (entry none classDirectory broken).1 = .ok (.ofList ["A"]) ∧
      load damagedIndex oneFile broken = .error (.encoding .cutOff) := by decide +kernel
  have after : repaired.1 = .ok () ∧ repaired.2.refused = false ∧ repaired.2.room = broken.room ∧
      repaired.2.has classDirectory = true ∧ Fingerprint.capture repaired.2 classDirectory = .ok oneFile := by
    decide +kernel
  have ended : endless.refused = false ∧ endless.has classDirectory = true ∧
      Fingerprint.capture endless classDirectory = .ok oneFile ∧
      (entry none classDirectory endless).1 = .ok (.ofList ["A"]) ∧
      load damagedIndex oneFile endless = .error (.encoding (.memory 0xFFFFFFFFFFFFFFFF)) := by decide +kernel
  constructor
  · obtain ⟨going, has, captured, found, short⟩ := before
    obtain ⟨stored, going', room, has', captured'⟩ := after
    have run : (store damagedIndex oneFile (.ofList ["A"]) 0).run.run broken = (.ok (), repaired.2) := by
      rw [← repaired, ← stored]
    have fit : LengthsFit damagedIndex oneFile broken := by
      rw [ClassIndex.lengthsFit_iff, short]
      intro n h
      cases h
    obtain ⟨-, -, scans⟩ := damaged_index_ignored_iff damagedIndex oneFile broken going
    obtain ⟨-, same, -, next⟩ := scans classDirectory has captured fun r h => by cases short.symm.trans h
    obtain ⟨left, again⟩ :=
      next _ _ found run print (ClassNameSet.fits_singleton (by decide +kernel)) fit
    exact ⟨⟨_, short⟩, same.mpr fit, left, again repaired.2 going' room rfl has' captured'⟩
  · obtain ⟨going, has, captured, found, much⟩ := ended
    obtain ⟨-, ends, scans⟩ := damaged_index_ignored_iff damagedIndex oneFile endless going
    obtain ⟨content, hread, announced, much'⟩ := (ends _).mp much
    obtain ⟨-, -, unseen, -⟩ := scans classDirectory has captured fun r h => by cases much.symm.trans h
    refine ⟨?_, unseen fun fit => Nat.not_le_of_lt much' (fit content hread _ announced)⟩
    rw [seen_none going, ← found, entry_none]

end Scan

end ClassScope
