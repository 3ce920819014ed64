import ClassScope.Row
import ClassScope.Settings
import ClassScope.Table

/-!
Modules as the analysis sees them. A module answers three questions about what it declares, and each may
fail. Its generation grows when it is configured anew, and it stops being live when its project lets it
go; neither is ever taken back.
-/
namespace ClassScope

inductive ModuleError where
  | unavailable (module reason : String)
  | unreadable (module : String) (path : Path) (cause : String)
  deriving Repr, DecidableEq

def ModuleError.message : ModuleError → String
  | unavailable module reason => "module '" ++ module ++ "' is unavailable: " ++ reason
  | unreadable module path cause =>
      "IO error while reading module '" ++ module ++ "' at " ++ path.display ++ ": " ++ cause

structure Module where
  name : String
  path : Path
  settings : Settings := {}
  live : Bool := true
  /-- How often it was configured anew. The program counts in 64 bits, so its number is this one until it begins
  again after 2 ^ 64 times, which is not followed here. -/
  generation : Nat := 0
  /-- What stands in the way of each answer, if anything does. -/
  compileFailure : Option ModuleError := none
  bootFailure : Option ModuleError := none
  sourcesFailure : Option ModuleError := none
  deriving DecidableEq, Inhabited

/-- Modules are told apart by the number they were given, not by what they declare. -/
abbrev ModuleId := Nat

namespace Module

def kind (m : Module) : ModuleKind :=
  m.settings.kind

def answer {α : Type} (failure : Option ModuleError) (a : α) : Except ModuleError α :=
  match failure with
  | some e => .error e
  | none => .ok a

def compile (m : Module) : Except ModuleError (List Path) :=
  answer m.compileFailure m.settings.compile

/-- The declared boot entries, which only count for platform modules. -/
def boot (m : Module) : Except ModuleError (List Path) :=
  answer m.bootFailure m.settings.boot

def sources (m : Module) : Except ModuleError ClassNameSet :=
  answer m.sourcesFailure m.settings.sources

def outputs (m : Module) : List Path :=
  m.settings.outputs

/-- Declares something else from now on. -/
def reconfigure (settings : Settings) (m : Module) : Module :=
  { m with settings, generation := m.generation + 1 }

def detach (m : Module) : Module :=
  { m with live := false }

end Module

end ClassScope
