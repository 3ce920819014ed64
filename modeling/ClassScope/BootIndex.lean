import ClassScope.Scan
import ClassScope.Table

/-!
The classes of all boot entries scanned so far. An entry is scanned again when its fingerprint is not the
one it was scanned under; one that cannot be read keeps what an earlier scan found.
-/
namespace ClassScope

structure IndexedEntry where
  /-- Taken before the scan; none when the path could not be followed. -/
  fingerprint : Option Fingerprint
  classes : ClassNameSet
  deriving DecidableEq

structure BootIndex where
  /-- The directory of index files, if scans use one. -/
  index : Option Path := none
  current : List Path := []
  scanned : Table (List Path.Component) IndexedEntry := ∅

namespace BootIndex

instance : Inhabited BootIndex := ⟨{}⟩

def entry? (b : BootIndex) (p : Path) : Option IndexedEntry :=
  b.scanned.get? p.components

def isFresh (b : BootIndex) (p : Path) (f : Option Fingerprint) : Bool :=
  match b.entry? p, f with
  | some e, some f => e.fingerprint = some f
  | _, _ => false

/-- The entries that have to be scanned, with their fingerprints. -/
def outdated (b : BootIndex) (d : Disk) (paths : List Path) : List (Path × Option Fingerprint) :=
  (paths.map fun p => (p, (Fingerprint.capture d p).toOption)).filter fun (p, f) => ¬ b.isFresh p f

/-- Scans entries; those that cannot be read are left out. -/
def scanEach (index : Option Path) :
    List (Path × Option Fingerprint) → StateM Disk (List (Path × IndexedEntry))
  | [] => return []
  | (p, f) :: rest => do
      let found ← Scan.entry index p
      let more ← scanEach index rest
      match found with
      | .ok classes => return (p, ⟨f, classes⟩) :: more
      | .error _ => return more

def publish (b : BootIndex) (found : List (Path × IndexedEntry)) : BootIndex :=
  { b with scanned := found.foldl (fun t (p, e) => t.put p.components e) b.scanned }

def refresh (b : BootIndex) (paths : List Path) : StateM Disk BootIndex := do
  let found ← scanEach b.index (b.outdated (← get) paths)
  return b.publish found

/-- The classes of some entries, as far as they were scanned. -/
def unionOf (b : BootIndex) (paths : List Path) : ClassNameSet :=
  .union ((paths.filterMap b.entry?).map (·.classes))

def update (b : BootIndex) (paths : List Path) : StateM Disk BootIndex := do
  let b ← b.refresh paths
  return { b with current := paths }

/-- The classes of some entries, whether they are current or not. -/
def classes (b : BootIndex) (paths : List Path) : StateM Disk (ClassNameSet × BootIndex) := do
  let b ← b.refresh paths
  return (b.unionOf paths, b)

def isScanned (b : BootIndex) (p : Path) : Bool :=
  b.scanned.has p.components

def clear (b : BootIndex) : BootIndex :=
  { b with current := [], scanned := ∅ }

end BootIndex

end ClassScope
