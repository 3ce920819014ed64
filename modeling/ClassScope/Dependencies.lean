import ClassScope.Path.Set
import ClassScope.Scan
import ClassScope.Table

/-!
The classes of dependency entries, scanned once for each set of entries. How the entries are spelled, listed
or repeated makes no difference. A set once handed out is shared, and it never changes.
-/
namespace ClassScope

/-- A set of classes that several holders share; the number tells it from equal ones. -/
structure SharedSet where
  id : Nat
  classes : ClassNameSet
  deriving DecidableEq, Inhabited

structure Dependencies where
  /-- The directory of index files, if scans use one. -/
  index : Option Path := none
  known : Table (List (List Path.Component)) SharedSet := ∅
  /-- How many sets were made, also ones that are forgotten. -/
  made : Nat := 0

namespace Dependencies

instance : Inhabited Dependencies := ⟨{}⟩

def classes (ds : Dependencies) (paths : List Path) : StateM Disk (SharedSet × Dependencies) := do
  let entries := PathSet.ofFirst paths
  match ds.known.get? entries.key with
  | some s => return (s, ds)
  | none =>
      let out ← Scan.all ds.index entries.toList
      let s : SharedSet := ⟨ds.made, out.classes⟩
      return (s, { ds with known := ds.known.put entries.key s, made := ds.made + 1 })

/-- A set that is handed out once. -/
def single (ds : Dependencies) (classes : ClassNameSet) : SharedSet × Dependencies :=
  (⟨ds.made, classes⟩, { ds with made := ds.made + 1 })

/-- Forgets all sets, so that the next request scans again. -/
def clear (ds : Dependencies) : Dependencies :=
  { ds with known := ∅ }

def size (ds : Dependencies) : Nat :=
  ds.known.size

end Dependencies

end ClassScope
