import ClassScope.ClassNameSet
import ClassScope.Toml.Decode
import ClassScope.Toml.Document
import ClassScope.Toml.Render

/-!
What a module declares: its kind, the entries it depends on, its boot entries, the classes in its sources
and the directories that its compiled sources go to.
-/
namespace ClassScope

/-- Where the boot classes of a module come from. -/
inductive ModuleKind where
  /-- From the configured default. -/
  | plain
  /-- From the boot entries that the module declares. -/
  | platform
  deriving Repr, DecidableEq, Inhabited

def ModuleKind.name : ModuleKind → String
  | plain => "plain"
  | platform => "platform"

structure Settings where
  kind : ModuleKind := .plain
  compile : List Path := []
  boot : List Path := []
  sources : ClassNameSet := ∅
  outputs : List Path := []
  deriving DecidableEq, Inhabited

inductive TomlError where
  | malformed
  | misfit (cause : Toml.Misfit)
  deriving Repr

def TomlError.message : TomlError → String
  | malformed => "not a TOML document"
  | misfit cause => cause.message

namespace Settings

open Toml

def kindField (v : Value) : Except Misfit ModuleKind :=
  v.asChoice ("plain", .plain) ("platform", .platform)

def fields : List (Value.Field Settings) := [
  ("kind", fun v s => (kindField v).map fun kind => { s with kind }),
  ("compile_classpaths", fun v s => (v.asList Value.asPath).map fun compile => { s with compile }),
  ("boot_classpaths", fun v s => (v.asList Value.asPath).map fun boot => { s with boot }),
  ("source_classes", fun v s =>
    (v.asList Value.asText).map fun names => { s with sources := .ofList names }),
  ("source_output_dirs", fun v s => (v.asList Value.asPath).map fun outputs => { s with outputs })]

def decode (v : Value) : Except Misfit Settings :=
  v.asRecord "ModuleSettings" fields {}

def ofToml (text : String) : Except TomlError Settings :=
  match Entries.read? text with
  | some entries => (decode (.table .header entries)).mapError .misfit
  | none => .error .malformed

def render (s : Settings) : Except Render.Error String := do
  return Render.assign "kind" (Render.text s.kind.name) ++
    Render.assign "compile_classpaths" (← Render.paths s.compile) ++
    Render.assign "boot_classpaths" (← Render.paths s.boot) ++
    Render.assign "source_classes" (Render.list (s.sources.toList.map Render.text)) ++
    Render.assign "source_output_dirs" (← Render.paths s.outputs)

end Settings

end ClassScope
