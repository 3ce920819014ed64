import ClassScope.Command.Report
import Std.Time.DateTime.Timestamp

/-!
The command line program. The entries that a command reads are brought in from the real disk before it
runs, and the index files that it kept are put there afterwards.
-/
namespace ClassScope.Program

open Command

/-! ## Between the disk and its picture -/

def textOf (bytes : Bytes) : String :=
  Utf8.lossy bytes

def locationText (loc : Disk.Location) : String :=
  "/" ++ "/".intercalate (loc.map textOf)

def locationOf (path : String) : Disk.Location :=
  (Path.split (Utf8.encode path)).filter (· ≠ [])

def milliseconds (t : IO.FS.SystemTime) : Int :=
  t.sec * 1000 + Int.ofNat (t.nsec.toNat / 1000000)

/-- The entry at a location as it is now; none when there is nothing to read. -/
def entryAt (loc : Disk.Location) : IO (Option Disk.Entry) := do
  try
    let path := (← IO.currentDir) / locationText loc
    let seen ← path.symlinkMetadata
    let modified := milliseconds seen.modified
    match seen.type with
    | .dir => return some (.dir modified)
    | .symlink =>
        let target ← IO.FS.realPath path
        return some (.link (Utf8.encode target.toString) modified)
    | _ =>
        let content ← IO.FS.readBinFile path
        return some (.file content.toList modified false)
  catch _ => return none

/-- Brings in an entry and all below it. -/
partial def bringBelow (d : Disk) (loc : Disk.Location) : IO Disk := do
  match ← entryAt loc with
  | none => return d
  | some (.dir modified) =>
      let mut d := d.put loc (.dir modified)
      for child in ← ((← IO.currentDir) / locationText loc).readDir do
        d ← bringBelow d (loc ++ [Utf8.encode child.fileName])
      return d
  | some e => return d.put loc e

/-- Brings in what stands on a way, and all below its end. -/
partial def bringAlong (d : Disk) (dir : Disk.Location) : List Disk.Token → IO Disk
  | [] => bringBelow d dir
  | .here :: rest | .slash :: rest => bringAlong d dir rest
  | .up :: rest => bringAlong d dir.dropLast rest
  | .name name :: rest => do
      let loc := dir ++ [name]
      match ← entryAt loc with
      | none => return d
      | some (.link target modified) =>
          bringAlong (d.put loc (.link target modified)) [] (Disk.tokens target ++ rest)
      | some e => bringAlong (d.put loc e) loc rest

def bring (d : Disk) (p : Path) : IO Disk :=
  bringAlong d (if p.isAbsolute then [] else d.base) (Disk.tokens p.bytes)

/-- Puts the files on the real disk that are not in an earlier picture of it. -/
def putNew (before after : Disk) : IO Unit := do
  for (loc, e) in after.entries do
    if before.entries.lookup loc ≠ some e then
      match e with
      | .dir _ => IO.FS.createDirAll (locationText loc)
      | .file content _ _ => IO.FS.writeBinFile (locationText loc) ⟨content.toArray⟩
      | .link _ _ => pure ()

/-! ## Running a command -/

def surroundings : IO Environment := do
  let path? (name : String) : IO (Option Path) := return (← IO.getEnv name).map Path.ofString
  return {
    javaHome := ← path? "JAVA_HOME"
    indexDir := ← path? "KLS_CACHE_DIR"
    temporary := (← path? "TMPDIR").getD (Path.ofString "/tmp") }

/-- A picture of the disk with nothing but the way to the current directory. -/
def start : IO Disk := do
  let base := locationOf (← IO.currentDir).toString
  let now := (← Std.Time.Timestamp.now).toMillisecondsSinceUnixEpoch.val
  return { entries := (List.range base.length).map fun n => (base.take (n + 1), .dir 0), base, now }

def usage : String :=
  "usage: [--config FILE] types [--prefix START] MODULE | check MODULE CLASS | config\n" ++
    "MODULE: [--name NAME] [-c ENTRY]... [--boot ENTRY]... [--output DIRECTORY]..."

def runCommand (i : Invocation) : IO UInt32 := do
  let env ← surroundings
  let d ← i.config.toList.foldlM bring (← start)
  let c := (i.loadConfig d).toOption.getD {}
  let d ← (i.paths c env).foldlM bring d
  let (result, after) := i.report env d
  if after.refused then
    IO.eprintln "memory allocation failed"
    return 101
  putNew d after
  match result with
  | .ok r =>
      r.lines.forM (IO.println ·)
      return if r.success then 0 else 1
  | .error e =>
      IO.eprintln ("Error: " ++ e.message)
      return 1

end ClassScope.Program

def main (args : List String) : IO UInt32 := do
  match ClassScope.Command.Invocation.ofWords args with
  | .ok i => ClassScope.Program.runCommand i
  | .error .help =>
      IO.println ClassScope.Program.usage
      return 0
  | .error _ =>
      IO.eprintln ClassScope.Program.usage
      return 2
