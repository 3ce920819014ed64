import ClassScope.Proofs.ClassIndex.Layout
import ClassScope.Proofs.Disk.Writes

/-!
# What an index keeps

The records that a load can find. Storing what a scan found adds at most the one record for its fingerprint
to them, wherever the paths of the index lead.
-/

namespace ClassScope.ClassIndex

variable {root : Path} {d d' : Disk} {f g : Fingerprint} {r : Record}

/-- A load finds the record, at once or after directories that are missing were made. -/
def Kept (root : Path) (d : Disk) (f : Fingerprint) (r : Record) : Prop :=
  ∃ d', Disk.Grown d d' ∧ load root f d' = .ok (some r)

theorem load_eq_some_iff : load root f d = .ok (some r) ↔ ∃ loc content m x,
    d.stat (filePath root f) = .ok (loc, .file content m x) ∧ recordFor d.room f content = .ok r := by
  unfold load
  constructor
  · intro h
    split at h
    · rename_i loc content m x hs
      refine ⟨loc, content, m, x, hs, ?_⟩
      cases hr : recordFor d.room f content with
      | error e =>
          rw [hr] at h
          cases h
      | ok r' =>
          rw [hr] at h
          cases h
          rfl
    · cases h
    · cases h
  · rintro ⟨loc, content, m, x, hs, hr⟩
    rw [hs]
    dsimp only
    rw [hr]
    rfl

theorem Kept.of_load (h : load root f d = .ok (some r)) : Kept root d f r :=
  ⟨d, .refl d, h⟩

theorem Kept.of_grown (hg : Disk.Grown d d') (h : Kept root d' f r) : Kept root d f r := by
  obtain ⟨d'', hg', hl⟩ := h
  exact ⟨d'', hg.trans hg', hl⟩

/-- What is kept is in some file of the disk. -/
theorem Kept.exists_file (h : Kept root d f r) : ∃ loc content m x room,
    d.entry? loc = some (.file content m x) ∧ recordFor room f content = .ok r := by
  obtain ⟨d', hg, hl⟩ := h
  obtain ⟨loc, content, m, x, hs, hr⟩ := load_eq_some_iff.mp hl
  have hfile : d'.entry? loc = some (.file content m x) := Disk.locate_on (Disk.stat_eq_ok_iff.mp hs)
  obtain ⟨m', hfile⟩ := hg.file_before hfile
  exact ⟨loc, content, m', x, _, hfile, hr⟩

/-- What is found after a file was written is in that file, or was kept before. -/
theorem Kept.of_written {loc : Disk.Location} {content : Bytes} (hw : Disk.Written loc content d d')
    (h : Kept root d' f r) : Kept root d f r ∨ ∃ room, recordFor room f content = .ok r := by
  obtain ⟨d'', hg, hl⟩ := h
  obtain ⟨l, found, m, x, hs, hr⟩ := load_eq_some_iff.mp hl
  rcases hw.stat_grown hg hs with he | ⟨without, hgw, hsw⟩
  · exact Or.inr ⟨_, he ▸ hr⟩
  · have room : without.room = d''.room := hgw.room.trans (hg.room.trans hw.room).symm
    exact Or.inl ⟨without, hgw, load_eq_some_iff.mpr ⟨l, found, m, x, hsw, room ▸ hr⟩⟩

theorem store_run (classes : ClassNameSet) (elapsedNs : Nat) :
    (store root f classes elapsedNs).run.run d = match (Disk.makeDirs root).run.run d with
      | (.ok _, d') => (Disk.writeFile (filePath root f)
          (recordOf f classes elapsedNs d'.now.toNat).encode d'.now false).run.run d'
      | (.error e, d') => (.error e, d') := by
  unfold store
  rw [Disk.Edit.bind_run]
  obtain ⟨done, d'⟩ := (Disk.makeDirs root).run.run d
  cases done with
  | error e => rfl
  | ok u => exact Disk.Edit.get_bind _ d'

theorem Kept.of_store {classes : ClassNameSet} {elapsedNs : Nat} (hf : f.Fits (Bytes.capacity 8))
    (hc : classes.Fits (Bytes.capacity 8)) (h : Kept root ((store root f classes elapsedNs).run.run d).2 g r) :
    Kept root d g r ∨ g = f ∧ r.classes = classes := by
  have hg := Disk.makeDirs_grown root d
  rw [store_run] at h
  generalize (Disk.makeDirs root).run.run d = made at hg h
  obtain ⟨done, d'⟩ := made
  cases done with
  | error e => exact Or.inl (h.of_grown hg)
  | ok u =>
      rcases Disk.writeFile_written (filePath root f)
        (recordOf f classes elapsedNs d'.now.toNat).encode d'.now false d' with he | ⟨loc, hw⟩
      · rw [he] at h
        exact Or.inl (h.of_grown hg)
      · rcases h.of_written hw with h | ⟨room, hr⟩
        · exact Or.inl (h.of_grown hg)
        · exact Or.inr (recordFor_encode hf hc hr)

/-- Writing files that are no records, and making directories for them, leaves the index alone. -/
theorem Kept.of_write {p : Path} {content : Bytes} {modified : Option Int} {executable : Bool}
    (hno : ∀ room g r, recordFor room g content ≠ .ok r)
    (h : Kept root (d.step (.write p content modified executable)).2 f r) : Kept root d f r := by
  obtain ⟨made, hg, hw⟩ := Disk.step_write p content modified executable d
  rcases hw with he | ⟨loc, hw⟩
  · rw [he] at h
    exact h.of_grown hg
  · rcases h.of_written hw with h | ⟨room, hr⟩
    · exact h.of_grown hg
    · exact absurd hr (hno room f r)

end ClassScope.ClassIndex
