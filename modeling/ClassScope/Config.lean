import ClassScope.Environment
import ClassScope.Retry
import ClassScope.Settings

/-!
The configuration of the analysis services, which is kept as a TOML document: reading it, writing it, and
what follows from it together with the environment.
-/
namespace ClassScope

/-- What becomes of a service whose module has changed or gone. -/
inductive StalePolicy where
  /-- It is removed and released. -/
  | dispose
  /-- It stays as it is until another service takes its place. -/
  | retain
  deriving Repr, DecidableEq, Inhabited

def StalePolicy.name : StalePolicy → String
  | dispose => "dispose"
  | retain => "retain"

structure IndexConfig where
  enabled : Bool := false
  dir : Option Path := none
  deriving Repr, DecidableEq, Inhabited

structure Config where
  platformHome : Option Path := none
  /-- Boot entries of modules that declare none. -/
  defaultBoot : List Path := []
  stale : StalePolicy := .dispose
  index : IndexConfig := {}
  reconnect : RetryPolicy := {}
  deriving Repr, DecidableEq

inductive ConfigError where
  | unreadable (path : Path) (cause : String)
  | invalid (path : Path) (cause : TomlError)
  deriving Repr

def ConfigError.message : ConfigError → String
  | unreadable path cause => "failed to read service config " ++ path.display ++ ": " ++ cause
  | invalid path cause =>
      "failed to parse service config " ++ path.display ++ ": " ++ cause.message

namespace Config

open Toml

/-! ## Reading -/

def indexFields : List (Value.Field IndexConfig) := [
  ("enabled", fun v c => v.asBoolean.map fun enabled => { c with enabled }),
  ("dir", fun v c => v.asPath.map fun dir => { c with dir := some dir })]

def reconnectFields : List (Value.Field RetryPolicy) := [
  ("max_attempts", fun v c => (v.asNatural 32).map fun maxAttempts => { c with maxAttempts }),
  ("delay_ms", fun v c => (v.asNatural 64).map fun delayMs => { c with delayMs })]

def fields : List (Value.Field Config) := [
  ("platform_home", fun v c => v.asPath.map fun home => { c with platformHome := some home }),
  ("default_boot_classpath", fun v c =>
    (v.asList Value.asPath).map fun defaultBoot => { c with defaultBoot }),
  ("stale_entries", fun v c =>
    (v.asChoice ("dispose", .dispose) ("retain", .retain)).map fun stale => { c with stale }),
  ("index_cache", fun v c =>
    (v.asRecord "IndexCacheConfig" indexFields {}).map fun index => { c with index }),
  ("reconnect", fun v c =>
    (v.asRecord "ReconnectConfig" reconnectFields {}).map fun reconnect => { c with reconnect })]

def decode (v : Value) : Except Misfit Config :=
  v.asRecord "ServiceConfig" fields {}

def ofToml (text : String) : Except TomlError Config :=
  match Entries.read? text with
  | some entries => (decode (.table .header entries)).mapError .misfit
  | none => .error .malformed

def load (d : Disk) (p : Path) : Except ConfigError Config :=
  match d.read p with
  | .error e => .error (.unreadable p e.message)
  | .ok bytes =>
      match Utf8.decode bytes with
      | .error _ => .error (.unreadable p "stream did not contain valid UTF-8")
      | .ok text => (ofToml text).mapError (.invalid p)

/-! ## Writing -/

/-- An assignment for a path that may be left out. -/
def optionalPath (key : String) (p : Option Path) : Except Render.Error String :=
  match p with
  | some p => (Render.path p).map (Render.assign key)
  | none => .ok ""

def render (c : Config) : Except Render.Error String := do
  return (← optionalPath "platform_home" c.platformHome) ++
    Render.assign "default_boot_classpath" (← Render.paths c.defaultBoot) ++
    Render.assign "stale_entries" (Render.text c.stale.name) ++
    Render.header "index_cache" ++
    Render.assign "enabled" (Render.boolean c.index.enabled) ++
    (← optionalPath "dir" c.index.dir) ++
    Render.header "reconnect" ++
    Render.assign "max_attempts" (← Render.natural c.reconnect.maxAttempts) ++
    Render.assign "delay_ms" (← Render.natural c.reconnect.delayMs)

/-! ## What follows from it -/

/-- The configured installation, or the one found in the environment. -/
def home? (c : Config) (env : Environment) (d : Disk) : Option Path :=
  c.platformHome.orElse fun _ => env.platformHome? d

/-- Where class indexes are kept, when they are kept at all. -/
def indexDir? (c : Config) (env : Environment) : Option Path :=
  if c.index.enabled then some (c.index.dir.getD env.defaultIndexDir) else none

end Config

end ClassScope
