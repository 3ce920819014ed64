import ClassScope.Archive.Reader
import ClassScope.ClassFile
import ClassScope.ClassIndex.Basic

/-!
The top-level classes of a classpath entry. An entry is a directory of class files, an archive, or a single
class file. With an index, what a scan finds is kept there and found again under the same fingerprint.
-/
namespace ClassScope

inductive ScanError where
  | missing (path : Path)
  | unreadable (path : Path) (cause : FileError)
  | archive (path : Path) (cause : Archive.Error)
  | classFile (path : Path) (cause : ClassFile.Error)
  | unsupported (path : Path)
  deriving Repr, DecidableEq

namespace ScanError

def path : ScanError → Path
  | missing p | unreadable p _ | archive p _ | classFile p _ | unsupported p => p

def message : ScanError → String
  | missing p => "classpath entry " ++ p.display ++ " does not exist"
  | unreadable p cause => "IO error while scanning " ++ p.display ++ ": " ++ cause.message
  | archive p cause => "ZIP error while scanning " ++ p.display ++ ": " ++ cause.message
  | classFile p cause => "class parse error in " ++ p.display ++ ": " ++ cause.message
  | unsupported p => "unsupported classpath entry " ++ p.display

end ScanError

namespace Scan

/-! ## Plain scans -/

/-- What an entry that is no directory is read as. -/
inductive Format where
  | archive
  /-- An archive whose classes stand below `classes/`. -/
  | platformArchive
  | classFile
  deriving Repr, DecidableEq

def lowerByte (b : UInt8) : UInt8 :=
  if 0x41 ≤ b ∧ b ≤ 0x5A then b + 0x20 else b

/-- The format that a path's extension tells, capital letters or not. -/
def format? (p : Path) : Option Format :=
  match p.extension? with
  | none => none
  | some ext =>
      let ext := ext.map lowerByte
      if ext = Utf8.encode "jar" ∨ ext = Utf8.encode "zip" then some .archive
      else if ext = Utf8.encode "jmod" then some .platformArchive
      else if ext = Utf8.encode "class" then some .classFile
      else none

def ofEntries (entries : List String) : ClassNameSet :=
  .ofList (entries.filterMap ClassName.ofEntry?)

/-- A path below a directory, for the class that it defines. -/
def relativePath (names : List Bytes) : String :=
  "/".intercalate (names.map Utf8.lossy)

/-- The files below a location. Links count as files. -/
def filesBelow (d : Disk) (loc : Disk.Location) : List String :=
  ((d.below loc).filter fun (_, e) => ¬ e.isDir).map fun (names, _) => relativePath names

def archiveRoot : List Char :=
  "classes/".toList

/-- The entry as seen from the directory of classes; none outside of it. -/
def belowArchiveRoot? (entry : String) : Option String :=
  let cs := entry.toList
  if archiveRoot.isPrefixOf cs then some (String.ofList (cs.drop archiveRoot.length)) else none

/-- A class file whose class is nested defines no top-level class. -/
def ofClassName (name : String) : ClassNameSet :=
  if '$' ∈ (ClassName.simple name).toList then ∅ else .ofList [name]

def ofFile (p : Path) (content : Bytes) : Except ScanError ClassNameSet :=
  match format? p with
  | some .archive => (((Archive.names content).map ofEntries)).mapError (.archive p)
  | some .platformArchive =>
      ((Archive.names content).map fun names => ofEntries (names.filterMap belowArchiveRoot?)).mapError
        (.archive p)
  | some .classFile => ((ClassFile.readName content).map ofClassName).mapError (.classFile p)
  | none => .error (.unsupported p)

def ofDirectory (d : Disk) (p : Path) (loc : Disk.Location) : Except ScanError ClassNameSet :=
  match d.unopened? p loc with
  | some q => .error (.unreadable q .nameTooLong)
  | none => .ok (ofEntries (filesBelow d loc))

/-- What an entry holds on the disk as it is. -/
def plain (d : Disk) (p : Path) : Except ScanError ClassNameSet :=
  match d.stat p with
  | .error _ => .error (.missing p)
  | .ok (loc, .dir _) => ofDirectory d p loc
  | .ok (_, .file content _ _) => ofFile p content
  | .ok (_, .link _ _) => .error (.missing p)

/-! ## Scans with an index -/

/-- Keeps what a scan found; a failure to do so changes no answer. -/
def keep (root : Path) (f : Fingerprint) (classes : ClassNameSet) : StateM Disk Unit := do
  let _ ← (ClassIndex.store root f classes 0).run

/-- What an entry holds, by the index in a directory if one is used. An index file that cannot be used
counts for nothing, unless its reader asks for a buffer that is not given. -/
def entry (index : Option Path) (p : Path) : StateM Disk (Except ScanError ClassNameSet) := do
  let d ← get
  if ¬ d.has p then return .error (.missing p)
  match index with
  | none => return plain d p
  | some root =>
      match Fingerprint.capture d p with
      | .error _ => return plain d p
      | .ok f =>
          match ClassIndex.load root f d with
          | .ok (some r) => return .ok r.classes
          | .error (.encoding (.memory _)) =>
              -- the program ends here, so no one sees this answer
              modify Disk.refuse
              return plain d p
          | _ =>
              match plain d p with
              | .error e => return .error e
              | .ok classes =>
                  keep root f classes
                  return .ok classes

/-- The classes of several entries together, and the entries that could not be read. -/
structure Outcome where
  classes : ClassNameSet := ∅
  skipped : List ScanError := []
  deriving DecidableEq

def all (index : Option Path) : List Path → StateM Disk Outcome
  | paths => paths.foldlM (fun out p => do
      match ← entry index p with
      | .ok classes => return { out with classes := out.classes.merge classes }
      | .error e => return { out with skipped := out.skipped ++ [e] }) {}

end Scan

end ClassScope
