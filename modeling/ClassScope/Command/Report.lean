import ClassScope.Analysis.Get
import ClassScope.Command.Arguments
import ClassScope.Module.Workspace

/-!
What the commands report: lines, and whether the command succeeded.
-/
namespace ClassScope.Command

structure Report where
  lines : List String
  success : Bool
  deriving Repr, DecidableEq

inductive Failure where
  | config (path : Path) (cause : ConfigError)
  | query (cause : QueryError)
  | render (cause : Toml.Render.Error)
  | unsettled
  deriving Repr

def Failure.message : Failure → String
  | config path _ => "Failed to load configuration from " ++ path.display
  | query cause => cause.serviceMessage
  | render _ => "Failed to render configuration"
  | unsettled => "analysis service construction did not end"

/-- The parts of a text between line ends, which are line feeds with or without a carriage return. -/
def lineParts : List Char → List (List Char)
  | [] => []
  | '\r' :: '\n' :: cs => [] :: lineParts cs
  | c :: cs =>
      if c = '\n' then [] :: lineParts cs
      else
        match lineParts cs with
        | part :: parts => (c :: part) :: parts
        | [] => [[c]]

def linesOf (text : String) : List String :=
  (lineParts text.toList).map String.ofList

/-- The analysis of a workspace whose only module is the one on the command line, and that module. -/
def openModule (c : Config) (env : Environment) (d : Disk) (m : ModuleArgs) : ModuleId × Analysis :=
  let a := Analysis.ofConfig c env d
  let w : Workspace := { root := Path.ofString "." }
  let (id, _, modules) := w.add m.name m.settings a.modules
  (id, { a with modules })

/-- Runs `report` with the module's service. Also gives the disk with the index files that scans kept. Left out
are a working directory that cannot be told, which ends the command before anything else, and what is done
once the report is there: everything is torn down and the workspace closed, which changes neither the report
nor the disk. -/
def withService (c : Config) (env : Environment) (d : Disk) (m : ModuleArgs)
    (report : ModuleId → ServiceId → Analysis → Report × Analysis) : Except Failure Report × Disk :=
  let (id, a) := openModule c env d m
  match a.get id with
  | (.found s, a) =>
      let (r, a) := report id s a
      (.ok r, a.disk)
  | (.failed e, a) => (.error (.query e), a.disk)
  | (.asks _ _, a) => (.error .unsettled, a.disk)

def typesReport (start : Option String) (id : ModuleId) (s : ServiceId) (a : Analysis) :
    Report × Analysis :=
  match start with
  | some "" => (⟨[], true⟩, a)
  | some start =>
      let (classes, a) := a.types s (a.module id).sources
      (⟨(Analysis.withStart start classes).map (·.qualified), true⟩, a)
  | none =>
      let (classes, a) := a.types s (a.module id).sources
      (⟨classes.toList, true⟩, a)

def checkReport (name : String) (_ : ModuleId) (s : ServiceId) (a : Analysis) : Report × Analysis :=
  let available := a.isAvailable s name
  (⟨[name ++ ": " ++ if available then "available" else "not found"], available⟩, a)

def configReport (c : Config) : Except Failure Report :=
  match c.render with
  | .ok text => .ok ⟨linesOf text, true⟩
  | .error e => .error (.render e)

namespace Invocation

def loadConfig (i : Invocation) (d : Disk) : Except Failure Config :=
  match i.config with
  | some p => (Config.load d p).mapError (.config p)
  | none => .ok {}

def module? (i : Invocation) : Option ModuleArgs :=
  match i.action with
  | .types m _ | .check m _ => some m
  | .config => none

/-- The entries that a command reads, and the directory of index files that it reads and writes. -/
def paths (i : Invocation) (c : Config) (env : Environment) : List Path :=
  match i.module? with
  | some m => m.classpath ++ m.boot ++ m.outputs ++ c.defaultBoot ++ (c.indexDir? env).toList
  | none => []

/-- What a command reports, and the disk that it leaves. -/
def report (i : Invocation) (env : Environment) (d : Disk) : Except Failure Report × Disk :=
  match i.loadConfig d with
  | .error e => (.error e, d)
  | .ok c =>
      match i.action with
      | .types m start => withService c env d m (typesReport start)
      | .check m name => withService c env d m (checkReport name)
      | .config => (configReport c, d)

end Invocation

end ClassScope.Command
