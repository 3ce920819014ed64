import ClassScope.Disk.Basic

/-!
Changes to a disk. Whenever a name is made or removed in a directory, the directory is stamped with the
clock; writing over a file leaves its directory alone. A change that fails keeps what it did before.
-/
namespace ClassScope.Disk

abbrev Edit := ExceptT FileError (StateM Disk)

/-! ## Single entries -/

/-- Puts an entry at a location, in the place of what stands there. -/
def put (loc : Location) (e : Entry) (d : Disk) : Disk :=
  if (d.entries.lookup loc).isSome then
    { d with entries := d.entries.map fun (l, old) => if l = loc then (l, e) else (l, old) }
  else { d with entries := d.entries ++ [(loc, e)] }

def stamp (loc : Location) (d : Disk) : Disk :=
  match d.entries.lookup loc with
  | some e => d.put loc (e.withModified d.now)
  | none => d

def create (dir : Location) (name : Bytes) (e : Entry) (d : Disk) : Disk :=
  (d.stamp dir).put (dir ++ [name]) e

def erase (loc : Location) (d : Disk) : Disk :=
  { d with entries := d.entries.filter fun (l, _) => ¬ loc.isPrefixOf l }.stamp loc.dropLast

/-! ## Directories and files -/

/-- A path without the slashes at its end, unless it is nothing else. -/
def withoutSlash (p : Path) : Path :=
  let trimmed : Path := ⟨(p.bytes.reverse.dropWhile (· = Path.slash)).reverse⟩
  if trimmed.isEmpty then p else trimmed

def makeDir (p : Path) (d : Disk) : Except FileError Disk := do
  match ← d.locate .entry (withoutSlash p) with
  | .found _ _ => throw .alreadyExists
  | .vacant dir name => return d.create dir name (.dir d.now)

/-- A path and the paths above it, without the empty one. -/
def lineage : Nat → Path → List Path
  | 0, _ => []
  | bound + 1, p =>
      if p.isEmpty then []
      else p :: ((p.parent?.map (lineage bound)).getD [])

/-- Makes the first of the paths a directory, and before that the ones after it as far as they are
missing. -/
def makeLineage : List Path → Edit Unit
  | [] => pure ()
  | p :: above => do
      match makeDir p (← get) with
      | .ok d => set d
      | .error .notFound =>
          makeLineage above
          match makeDir p (← get) with
          | .ok d => set d
          | .error e => if (← get).isDir p then pure () else throw e
      | .error e => if (← get).isDir p then pure () else throw e

/-- Makes a directory and the ones above it that are missing. -/
def makeDirs (p : Path) : Edit Unit :=
  makeLineage (lineage (p.bytes.length + 1) p)

/-- Writes a whole file, through a link if the path names one. A file once executable stays so. -/
def writeFile (p : Path) (content : Bytes) (modified : Int) (executable : Bool) : Edit Unit := do
  let d ← get
  match d.locate .file p with
  | .error e => throw e
  | .ok (.vacant dir name) => set (d.create dir name (.file content modified executable))
  | .ok (.found loc (.file _ _ before)) => set (d.put loc (.file content modified (before || executable)))
  | .ok (.found _ _) => throw .isDirectory

/-- Makes a link. Its path does not end in a slash, and its target is not empty. -/
def makeLink (p : Path) (target : Bytes) (modified : Int) : Edit Unit := do
  if target.isEmpty then throw .notFound
  let d ← get
  match d.locate .entry (withoutSlash p) with
  | .error e => throw e
  | .ok (.found _ _) => throw .alreadyExists
  | .ok (.vacant dir name) =>
      if withoutSlash p = p then set (d.create dir name (.link target modified)) else throw .notFound

end Disk

/-! ## Steps -/

/-- One change from outside. Times that are left out are the clock's. -/
inductive FileStep where
  | write (path : Path) (content : Bytes) (modified : Option Int) (executable : Bool)
  | makeDir (path : Path)
  | remove (path : Path)
  | link (path : Path) (target : Bytes) (modified : Option Int)
  | touch (path : Path) (modified : Int)
  deriving Repr, DecidableEq

namespace Disk

/-- How far the clock moves before each step. -/
def tick : Int := 1000

def makeParent (p : Path) : Edit Unit :=
  match p.parent? with
  | some parent => makeDirs parent
  | none => pure ()

def perform : FileStep → Edit Unit
  | .write p content modified executable => do
      makeParent p
      writeFile p content (modified.getD (← get).now) executable
  | .makeDir p => makeDirs p
  | .remove p => do
      let d ← get
      match d.entryAt .entry p with
      | .ok (loc, _) => set (d.erase loc)
      | .error e => throw e
  | .link p target modified => do
      makeParent p
      makeLink p target (modified.getD (← get).now)
  | .touch p modified => do
      let d ← get
      match d.entryAt .entry p with
      | .ok (loc, e) => set (d.put loc (e.withModified modified))
      | .error e => throw e

/-- Moves the clock and performs a step. -/
def step (s : FileStep) (d : Disk) : Except FileError Unit × Disk :=
  (perform s).run.run { d with now := d.now + tick }

/-- The disk after a history of steps, failed ones included. -/
def after (d : Disk) (steps : List FileStep) : Disk :=
  steps.foldl (fun d s => (d.step s).2) d

end Disk

end ClassScope
