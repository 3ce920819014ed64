import ClassScope.Module.Basic

/-!
The modules of an opened project by name. Taking a module out of the workspace, or another one in its
place, lets the old one go.
-/
namespace ClassScope

structure Workspace where
  root : Path
  registered : Table String ModuleId := ∅

namespace Workspace

/-- A module that does not take part in the workspace yet. -/
def fresh (w : Workspace) (name : String) (settings : Settings) : Module :=
  { name, path := w.root.join (Path.ofString name), settings }

def letGo (modules : Row Module) : Option ModuleId → Row Module
  | some id => modules.modify id Module.detach
  | none => modules

/-- Registers a new module in the place of the one of that name. -/
def add (name : String) (settings : Settings) (w : Workspace) (modules : Row Module) :
    ModuleId × Workspace × Row Module :=
  let id := modules.size
  let modules := letGo (modules.push (w.fresh name settings)) (w.registered.get? name)
  (id, { w with registered := w.registered.put name id }, modules)

/-- Puts a new module in the place of a registered one. -/
def replace (name : String) (settings : Settings) (w : Workspace) (modules : Row Module) :
    Except ModuleError (ModuleId × Workspace × Row Module) :=
  if w.registered.has name then .ok (w.add name settings modules)
  else .error (.unavailable name "not part of the workspace")

def remove (name : String) (w : Workspace) (modules : Row Module) :
    Option ModuleId × Workspace × Row Module :=
  let id := w.registered.get? name
  (id, { w with registered := w.registered.erase name }, letGo modules id)

def module? (name : String) (w : Workspace) : Option ModuleId :=
  w.registered.get? name

/-- The registered modules by ascending name. -/
def modules (w : Workspace) : List ModuleId :=
  (w.registered.entries.mergeSort fun a b => a.1 ≤ b.1).map (·.2)

def close (w : Workspace) (modules : Row Module) : Workspace × Row Module :=
  ({ w with registered := ∅ },
    w.registered.entries.foldl (fun ms e => letGo ms (some e.2)) modules)

end Workspace

end ClassScope
