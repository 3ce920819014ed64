import ClassScope.ClassIndex.Record
import ClassScope.Disk.Edit

/-!
Index files. A directory holds one file for each fingerprint, named by the fingerprint's digest. A file
counts only if it holds a record of the right version for that very fingerprint.
-/
namespace ClassScope.ClassIndex

inductive Error where
  | file (cause : FileError)
  | encoding (cause : DecodeError)
  | version (found : Nat)
  | fingerprint
  deriving Repr, DecidableEq

def currentVersion : Nat := 1

def Error.message : Error → String
  | file cause => "cache IO error: " ++ cause.message
  | encoding cause => "cache encoding error: " ++ cause.message
  | version found =>
      s!"cache version mismatch (expected {currentVersion}, found {found})"
  | fingerprint => "cache fingerprint mismatch"

def filePath (root : Path) (f : Fingerprint) : Path :=
  root.join (Path.ofString ("class-index-" ++ f.key ++ ".bin"))

/-- The record in the bytes of an index file, if it is one for `f` and can be read in so much room. -/
def recordFor (room : Nat) (f : Fingerprint) (bs : Bytes) : Except Error Record :=
  match Record.decode room bs with
  | .error e => .error (.encoding e)
  | .ok r =>
      if r.version ≠ currentVersion then .error (.version r.version)
      else if r.fingerprint ≠ f then .error .fingerprint
      else .ok r

/-- The record kept for a fingerprint; none when there is no file for it. The lengths of its texts are taken as the
file tells them, so the reader may ask for more room than there is, with which the program ends. -/
def load (root : Path) (f : Fingerprint) (d : Disk) : Except Error (Option Record) :=
  match d.stat (filePath root f) with
  | .ok (_, .file content _ _) => (recordFor d.room f content).map some
  | .ok _ => .error (.encoding .isDirectory)
  | .error _ => .ok none

/-- The record for classes that a scan found in that many nanoseconds. Numbers too large for their field
are cut to its greatest one. -/
def recordOf (f : Fingerprint) (classes : ClassNameSet) (elapsedNs now : Nat) : Record :=
  let capped (width n : Nat) := min n (Bytes.capacity width - 1)
  ⟨currentVersion, f, capped 8 (elapsedNs / 1000000), capped 4 classes.size, capped 8 now, classes⟩

/-- Keeps what a scan found. The directory is made when it is missing. -/
def store (root : Path) (f : Fingerprint) (classes : ClassNameSet) (elapsedNs : Nat) :
    Disk.Edit Unit := do
  Disk.makeDirs root
  let now := (← get).now
  Disk.writeFile (filePath root f) (recordOf f classes elapsedNs now.toNat).encode now false

end ClassScope.ClassIndex
