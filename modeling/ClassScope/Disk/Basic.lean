import ClassScope.Path.Basic

/-!
The files that classpath entries are read from. A disk is a table of entries by location; paths are
resolved against it the way the operating system resolves them, through links, single and double dots.
-/
namespace ClassScope

inductive FileError where
  | notFound
  | alreadyExists
  | notDirectory
  | isDirectory
  | nameTooLong
  | tooManyLinks
  | nulByte
  deriving Repr, DecidableEq

def FileError.message : FileError → String
  | notFound => "No such file or directory (os error 2)"
  | alreadyExists => "File exists (os error 17)"
  | notDirectory => "Not a directory (os error 20)"
  | isDirectory => "Is a directory (os error 21)"
  | nameTooLong => "File name too long (os error 36)"
  | tooManyLinks => "Too many levels of symbolic links (os error 40)"
  | nulByte => "file name contained an unexpected NUL byte"

namespace Disk

/-- The names that lead from the root to an entry. -/
abbrev Location := List Bytes

/-- What stands at a location. Times are milliseconds and may lie before their zero. -/
inductive Entry where
  | dir (modified : Int)
  | file (content : Bytes) (modified : Int) (executable : Bool)
  | link (target : Bytes) (modified : Int)
  deriving Repr, DecidableEq

namespace Entry

def modified : Entry → Int
  | dir m | file _ m _ | link _ m => m

def withModified (m : Int) : Entry → Entry
  | dir _ => dir m
  | file content _ executable => file content m executable
  | link target _ => link target m

/-- The length that the entry itself reports; a link is as long as its target's text. -/
def length : Entry → Nat
  | dir _ => 0
  | file content _ _ => content.length
  | link target _ => target.length

def isDir : Entry → Bool
  | dir _ => true
  | _ => false

end Entry

end Disk

/-- The longest buffer that can be asked for at all. -/
def Disk.longestBuffer : Nat := 0x7FFFFFFFFFFFFFFF

structure Disk where
  entries : List (Disk.Location × Disk.Entry)
  base : Disk.Location
  now : Int
  /-- The longest buffer that whoever reads a file is given. -/
  room : Nat := Disk.longestBuffer
  /-- Someone asked for a longer one. The program has ended with that, and nothing after it is seen. -/
  refused : Bool := false
  deriving Repr, DecidableEq

namespace Disk

/-- A disk whose base directory is empty. No path can spell the base's name, so it is reached only as
the start of relative paths. -/
def empty (now : Int) : Disk :=
  { entries := [([[0]], .dir now)], base := [[0]], now }

instance : Inhabited Disk := ⟨empty 0⟩

/-- What stands at a location. The root is always there. -/
def entry? (d : Disk) (loc : Location) : Option Entry :=
  if loc = [] then some (.dir 0) else d.entries.lookup loc

/-- The entries below a location, with their names from there. -/
def below (d : Disk) (loc : Location) : List (List Bytes × Entry) :=
  d.entries.filterMap fun (l, e) =>
    if loc.isPrefixOf l ∧ loc ≠ l then some (l.drop loc.length, e) else none

/-- A buffer is asked for and not given. -/
def refuse (d : Disk) : Disk :=
  { d with refused := true }

/-- What is seen of a run: nothing when the program has ended. -/
def seen {α : Type} (run : StateM Disk α) (d : Disk) : Option α :=
  let (a, left) : α × Disk := run.run d
  if left.refused then none else some a

/-! ## Resolving a path -/

/-- One step of a walk along a path. -/
inductive Token where
  | here
  | up
  | name (bytes : Bytes)
  /-- A slash at the end, which asks for a directory. -/
  | slash
  deriving Repr, DecidableEq

def tokens (bytes : Bytes) : List Token :=
  let token (part : Bytes) : Token :=
    if part = [Path.dot] then .here
    else if part = [Path.dot, Path.dot] then .up
    else .name part
  let final := if bytes.getLast? = some Path.slash then [Token.slash] else []
  ((Path.split bytes).filter (· ≠ [])).map token ++ final

/-- Where a walk ends: at an entry, or beside one that is not there. -/
inductive Spot where
  | found (loc : Location) (entry : Entry)
  | vacant (dir : Location) (name : Bytes)
  deriving Repr, DecidableEq

/-- What a walk is for. -/
inductive Goal where
  /-- The entry of that name, also when it is a link. -/
  | entry
  /-- What links at the end lead to. -/
  | target
  /-- A file to write, which links at the end may lead to and no slash may follow. -/
  | file
  deriving Repr, DecidableEq

/-- How far a walk comes without following a link. -/
inductive Reach where
  | spot (s : Spot)
  | failed (e : FileError)
  /-- At a link in a directory, with that many steps still to take. -/
  | link (dir : Location) (target : Bytes) (rest : List Token)
  deriving Repr, DecidableEq

def longestName : Nat := 255

/-- Walks from a directory up to the first link that has to be followed. -/
def advance (d : Disk) (goal : Goal) : Location → List Token → Reach
  | dir, [] =>
      match d.entry? dir with
      | some e => .spot (.found dir e)
      | none => .failed .notFound
  | dir, .here :: rest | dir, .slash :: rest => advance d goal dir rest
  | dir, .up :: rest => advance d goal dir.dropLast rest
  | dir, .name name :: rest =>
      if goal = .file ∧ rest = [.slash] then .failed .isDirectory
      else if name.length > longestName then .failed .nameTooLong
      else
        match d.entry? (dir ++ [name]) with
        | none => if rest = [] then .spot (.vacant dir name) else .failed .notFound
        | some (.dir _) => advance d goal (dir ++ [name]) rest
        | some (.file content modified executable) =>
            if rest = [] then .spot (.found (dir ++ [name]) (.file content modified executable))
            else .failed .notDirectory
        | some (.link target modified) =>
            if rest = [] ∧ goal = .entry then .spot (.found (dir ++ [name]) (.link target modified))
            else .link dir target rest

/-- Walks from a directory, following at most as many links as the first number says. -/
def walk (d : Disk) (goal : Goal) : Nat → Location → List Token → Except FileError Spot
  | links, dir, ts =>
      match advance d goal dir ts with
      | .spot s => .ok s
      | .failed e => .error e
      | .link dir target rest =>
          match links with
          | 0 => .error .tooManyLinks
          | links + 1 =>
              let start := if target.head? = some Path.slash then [] else dir
              walk d goal links start (tokens target ++ rest)

def mostLinks : Nat := 40

def longestPath : Nat := 4095

def locate (d : Disk) (goal : Goal) (p : Path) : Except FileError Spot :=
  if p.bytes.contains 0 then .error .nulByte
  else if p.isEmpty then .error .notFound
  else if p.bytes.length > longestPath then .error .nameTooLong
  else walk d goal mostLinks (if p.isAbsolute then [] else d.base) (tokens p.bytes)

/-! ## Reading -/

/-- The first directory below a location that cannot be opened through a path to the location: the path to a
directory is that path with the names below it, and one that is too long leads nowhere. -/
def unopened? (d : Disk) (p : Path) (loc : Location) : Option Path :=
  ((d.below loc).filter fun (_, e) => e.isDir).map (fun (names, _) => p.descend names)
    |>.find? fun q => longestPath < q.bytes.length

def entryAt (d : Disk) (goal : Goal) (p : Path) : Except FileError (Location × Entry) := do
  match ← d.locate goal p with
  | .found loc e => return (loc, e)
  | .vacant _ _ => throw .notFound

/-- What a path names, links followed. -/
def stat (d : Disk) (p : Path) : Except FileError (Location × Entry) :=
  d.entryAt .target p

def has (d : Disk) (p : Path) : Bool :=
  (d.stat p).isOk

def isDir (d : Disk) (p : Path) : Bool :=
  match d.stat p with
  | .ok (_, .dir _) => true
  | _ => false

def isProgram (d : Disk) (p : Path) : Bool :=
  match d.stat p with
  | .ok (_, .file _ _ executable) => executable
  | _ => false

def read (d : Disk) (p : Path) : Except FileError Bytes := do
  match ← d.stat p with
  | (_, .file content _ _) => return content
  | _ => throw .isDirectory

end Disk

end ClassScope
