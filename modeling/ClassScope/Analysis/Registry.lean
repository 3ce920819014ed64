import ClassScope.Analysis.Context

/-!
Services and their registry: which of them are live, releasing them, and putting away what has become
stale.
-/
namespace ClassScope.Analysis

/-- A service is live while its module is, declares what it did, and nobody has released the service. -/
def IsLive (a : Analysis) (s : ServiceId) : Prop :=
  match (a.service s).module with
  | some m =>
      (a.service s).destroyed = false ∧ (a.module m).live = true ∧
        (a.module m).generation = (a.service s).generation
  | none => False

instance (a : Analysis) (s : ServiceId) : Decidable (a.IsLive s) := by
  unfold IsLive
  split <;> infer_instance

def liveService? (a : Analysis) (m : ModuleId) : Option ServiceId :=
  (a.registered.get? m).filter fun s => a.IsLive s

/-- Releases a service and its context. What they hold stays readable. -/
def destroyService (s : ServiceId) (a : Analysis) : Analysis :=
  if (a.service s).destroyed then a
  else
    { a with services := a.services.modify s fun x => { x with destroyed := true } }.destroyContext
      (a.service s).context

def destroyServices (ss : List ServiceId) (a : Analysis) : Analysis :=
  ss.foldl (fun a s => a.destroyService s) a

/-- Releases and forgets the services that are no longer live, and stale contexts with them. Also says how
many services they were. Does nothing where stale services are retained. -/
def purge (a : Analysis) : Nat × Analysis :=
  match a.policy with
  | .retain => (0, a)
  | .dispose =>
      let stale := a.registered.filter fun _ s => ¬ a.IsLive s
      let kept := { a with registered := a.registered.filter fun _ s => a.IsLive s }
      (stale.size, (kept.destroyServices (stale.entries.map (·.2))).purgeContexts.2)

/-- How many services are registered once the stale ones are put away. -/
def size (a : Analysis) : Nat × Analysis :=
  let a := a.purge.2
  (a.registered.size, a)

/-- Releases all services and contexts and forgets all that was scanned. What is being built at that moment
is of no use any more. -/
def destroyAll (a : Analysis) : Analysis :=
  let services := a.registered.entries.map (·.2)
  let a := { a with epoch := a.epoch + 1, registered := ∅ }
  let a := (a.destroyServices services).clearContexts
  { a with dependencies := a.dependencies.clear, boot := a.boot.clear }

/-- Makes a built service the module's one, unless a live one has come up in the meantime. -/
def register (m : ModuleId) (x : Service) (a : Analysis) : ServiceId × Analysis :=
  match a.liveService? m with
  | some s => (s, a)
  | none =>
      let s := a.services.size
      let before := a.registered.get? m
      let a := { a with services := a.services.push x, registered := a.registered.put m s }
      match a.policy with
      | .dispose => (s, a.destroyServices before.toList)
      | .retain => (s, a)

/-! ## What a service answers -/

/-- Reads the boot classes of a service anew, from the boot entries that its module has just answered with
or, without an answer, from the default entries. -/
def refresh (s : ServiceId) (declared : Option (List Path)) (a : Analysis) : Analysis :=
  let (boot, a) :=
    match (a.service s).module with
    | some _ => a.moduleBootClasses declared
    | none => (∅, a)
  { a with services := a.services.modify s fun x => { x with boot } }

def isAvailable (a : Analysis) (s : ServiceId) (name : String) : Bool :=
  (a.service s).dependencies.classes.contains name || (a.service s).boot.contains name

/-- All classes that a service's module sees, given what it answers about its sources. Where it does not
answer, its own classes are left out. -/
def types (s : ServiceId) (sources : Except ModuleError ClassNameSet) (a : Analysis) :
    ClassNameSet × Analysis :=
  let x := a.service s
  let (own, a) :=
    match x.module, sources with
    | some m, .ok sources => a.localClasses sources (a.module m).outputs
    | _, _ => (∅, a)
  (.union [x.dependencies.classes, x.boot, own], a)

def withStart (start : String) (classes : ClassNameSet) : List ClassName.Parts :=
  (classes.toList.map ClassName.parts).filter fun p => start.toList.isPrefixOf p.simple.toList

end ClassScope.Analysis
