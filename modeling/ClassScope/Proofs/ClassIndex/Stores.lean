import ClassScope.Proofs.ClassIndex.Kept
import ClassScope.Proofs.ClassIndex.Prefixes
import ClassScope.Proofs.Disk.Overwrites

/-!
# What a store changes

A stored record is loaded as it was stored, and not at all once its file is cut off. Loads for other fingerprints
give what they gave before, unless their path leads to the very file that was written.
-/

namespace ClassScope.ClassIndex

variable {root : Path} {d d' : Disk} {f g : Fingerprint} {classes : ClassNameSet} {elapsedNs : Nat}

theorem load_of_file {loc : Disk.Location} {content : Bytes} {m : Int} {x : Bool}
    (h : d.stat (filePath root f) = .ok (loc, .file content m x)) :
    load root f d = (recordFor d.room f content).map some := by
  unfold load
  rw [h]

/-- A store that succeeds writes the record to the file that the fingerprint's path leads to, once the directory
is made. -/
theorem written_of_store (h : (store root f classes elapsedNs).run.run d = (.ok (), d')) :
    let made := ((Disk.makeDirs root).run.run d).2
    ∃ loc m x, Disk.Written loc (recordOf f classes elapsedNs made.now.toNat).encode made d' ∧ made.Clear loc ∧
      d'.locate .file (filePath root f) =
        .ok (.found loc (.file (recordOf f classes elapsedNs made.now.toNat).encode m x)) := by
  rw [store_run] at h
  generalize (Disk.makeDirs root).run.run d = r at h ⊢
  obtain ⟨done, made⟩ := r
  cases done with
  | error e => cases h
  | ok u => exact Disk.written_of_writeFile h

theorem recordFor_recordOf {room : Nat} (hf : f.Fits room) (hc : classes.Fits room) (elapsedNs now : Nat) :
    recordFor room f (recordOf f classes elapsedNs now).encode = .ok (recordOf f classes elapsedNs now) := by
  rw [recordFor, Record.decode_encode (fits_recordOf hf hc elapsedNs now)]
  have hv : (recordOf f classes elapsedNs now).version = currentVersion := rfl
  have hfp : (recordOf f classes elapsedNs now).fingerprint = f := rfl
  simp [hv, hfp]

def index : Path :=
  Path.ofString "index"

def gone : Fingerprint :=
  ⟨1, "a", .absent⟩

def other : Fingerprint :=
  ⟨1, "b", .archive 7 (some 5)⟩

/-- The index file of the second fingerprint is a link to that of the first one, which is not there yet. -/
def linked : Disk :=
  ((Disk.makeDirs index >>= fun _ => Disk.makeLink (filePath index other) (filePath ⟨[]⟩ gone).bytes 0).run.run
    (Disk.empty 0)).2

end ClassScope.ClassIndex
