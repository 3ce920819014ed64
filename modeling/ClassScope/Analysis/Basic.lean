import ClassScope.BootIndex
import ClassScope.Config
import ClassScope.Dependencies
import ClassScope.Module.Basic

/-!
The state that the analysis of a project's modules shares: one service and one file context for each module,
the boot index and the dependency sets. Everything handed out keeps its number, also after it was released
or replaced.
-/
namespace ClassScope

abbrev ContextId := Nat
abbrev ServiceId := Nat

/-- The entries that a module's analysis reads, as they were declared when the context was built. -/
structure FileContext where
  /-- None for the context of no module, which is empty. -/
  module : Option ModuleId := none
  generation : Nat := 0
  isPlatform : Bool := false
  classPaths : PathSet := ∅
  bootPaths : PathSet := ∅
  destroyed : Bool := false
  deriving DecidableEq, Inhabited

namespace FileContext

def allPaths (c : FileContext) : PathSet :=
  c.classPaths.union c.bootPaths

/-- All entries in their order, with colons between them. -/
def text (c : FileContext) : String :=
  ":".intercalate (c.allPaths.toList.map Path.display)

end FileContext

/-- The classes that a module sees, together with its file context. -/
structure Service where
  /-- None for the service of no module, which is empty. -/
  module : Option ModuleId := none
  generation : Nat := 0
  context : ContextId := 0
  dependencies : SharedSet := default
  boot : ClassNameSet := ∅
  destroyed : Bool := false
  deriving DecidableEq, Inhabited

/-- How often a service was there, missing or stale when it was asked for, and how often none came out. The
program counts in 64 bits; that a count begins again after 2 ^ 64 times is not followed here. -/
structure Stats where
  hits : Nat := 0
  misses : Nat := 0
  staleRebuilds : Nat := 0
  failures : Nat := 0
  deriving Repr, DecidableEq

structure Analysis where
  disk : Disk
  modules : Row Module := {}
  boot : BootIndex := {}
  dependencies : Dependencies := {}
  defaultBoot : List Path := []
  /-- The platform's installation, which the surroundings are told of before a context is built. -/
  home : Option Path := none
  policy : StalePolicy := .dispose
  /-- All contexts ever made; the first is that of no module. -/
  contexts : Row FileContext := ⟨[{}]⟩
  cached : Table ModuleId ContextId := ∅
  /-- All services ever made; the first is that of no module. -/
  services : Row Service := ⟨[{}]⟩
  registered : Table ModuleId ServiceId := ∅
  /-- How often everything was torn down. The program counts in 64 bits, which would not begin again before
  2 ^ 64 teardowns. -/
  epoch : Nat := 0
  stats : Stats := {}

namespace Analysis

def ofConfig (c : Config) (env : Environment) (d : Disk) : Analysis :=
  let (nothing, dependencies) := ({ index := c.indexDir? env } : Dependencies).single ∅
  { disk := d
    boot := { index := c.indexDir? env }
    dependencies
    defaultBoot := c.defaultBoot
    home := c.home? env d
    policy := c.stale
    services := ⟨[{ dependencies := nothing }]⟩ }

def module (a : Analysis) (m : ModuleId) : Module :=
  a.modules.get m

def context (a : Analysis) (c : ContextId) : FileContext :=
  a.contexts.get c

def service (a : Analysis) (s : ServiceId) : Service :=
  a.services.get s

/-! ## Scanning -/

def bootClasses (paths : List Path) (a : Analysis) : ClassNameSet × Analysis :=
  let ((classes, boot), disk) := a.boot.classes paths a.disk
  (classes, { a with boot, disk })

def updateBoot (paths : List Path) (a : Analysis) : Analysis :=
  let (boot, disk) := a.boot.update paths a.disk
  { a with boot, disk }

/-- The boot classes of a module: those of the boot entries it has just answered with, which become the
current ones, or without an answer those of the default entries. -/
def moduleBootClasses (declared : Option (List Path)) (a : Analysis) : ClassNameSet × Analysis :=
  match declared with
  | some paths =>
      let entries := (PathSet.ofFirst paths).toList
      (a.updateBoot entries).bootClasses entries
  | none => a.bootClasses (PathSet.ofFirst a.defaultBoot).toList

def dependencyClasses (paths : List Path) (a : Analysis) : SharedSet × Analysis :=
  let ((s, dependencies), disk) := a.dependencies.classes paths a.disk
  (s, { a with dependencies, disk })

/-- The classes of a module's own: those in its sources and in its output directories. -/
def localClasses (sources : ClassNameSet) (outputs : List Path) (a : Analysis) :
    ClassNameSet × Analysis :=
  match outputs.filter a.disk.has with
  | [] => (sources, a)
  | present =>
      let (out, disk) := Scan.all a.dependencies.index present a.disk
      (sources.merge out.classes, { a with disk })

/-! ## Modules -/

def addModule (m : Module) (a : Analysis) : Analysis :=
  { a with modules := a.modules.push m }

def reconfigure (m : ModuleId) (settings : Settings) (a : Analysis) : Analysis :=
  { a with modules := a.modules.modify m (Module.reconfigure settings) }

def detach (m : ModuleId) (a : Analysis) : Analysis :=
  { a with modules := a.modules.modify m Module.detach }

end Analysis

end ClassScope
