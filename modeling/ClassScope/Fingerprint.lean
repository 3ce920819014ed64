import ClassScope.Disk.Basic

/-!
What a classpath entry looks like from outside: its path and a stamp of the sizes and times on the disk.
As long as the stamp stays, the entry is taken to hold the same classes.
-/
namespace ClassScope

/-- What the disk tells of an entry without reading it. -/
inductive Stamp where
  | absent
  | archive (length : Nat) (modified : Option Nat)
  /-- The class files below a directory, their lengths together, and the newest time of all below it. -/
  | classTree (classFiles bytes : Nat) (newest : Option Nat)
  deriving Repr, DecidableEq

structure Fingerprint where
  version : Nat
  path : String
  stamp : Stamp
  deriving Repr, DecidableEq

namespace Stamp

/-- Times before the zero of the clock are not known. -/
def time? (modified : Int) : Option Nat :=
  if 0 ≤ modified then some modified.toNat else none

/-- The newer of two times; an unknown one is older than any. -/
def newer : Option Nat → Option Nat → Option Nat
  | some a, some b => some (max a b)
  | some a, none => some a
  | none, b => b

def isClassFile (name : Bytes) : Bool :=
  Path.extensionOf? name = some (Utf8.encode "class")

/-- Adds an entry below a directory to the totals of the directory. -/
def addBelow : Nat × Nat × Option Nat → List Bytes × Disk.Entry → Nat × Nat × Option Nat
  | (files, bytes, newest), (names, e) =>
      let newest := newer newest (time? e.modified)
      if ¬ e.isDir ∧ isClassFile (names.getLast?.getD []) then (files + 1, bytes + e.length, newest)
      else (files, bytes, newest)

def ofEntry (d : Disk) (loc : Disk.Location) (e : Disk.Entry) : Stamp :=
  if e.isDir then
    let (files, bytes, newest) := (d.below loc).foldl addBelow (0, 0, time? e.modified)
    .classTree files bytes newest
  else .archive e.length (time? e.modified)

/-- The stamp of what a path names. A path that names nothing has one too; a path that cannot be followed
has none. -/
def read (d : Disk) (p : Path) : Except FileError Stamp :=
  match d.stat p with
  | .ok (loc, e) =>
      if e.isDir ∧ (d.unopened? p loc).isSome then .error .nameTooLong else .ok (ofEntry d loc e)
  | .error .notFound => .ok .absent
  | .error e => .error e

end Stamp

namespace Fingerprint

def currentVersion : Nat := 1

def capture (d : Disk) (p : Path) : Except FileError Fingerprint :=
  (Stamp.read d p).map fun stamp => ⟨currentVersion, p.display, stamp⟩

end Fingerprint

end ClassScope
