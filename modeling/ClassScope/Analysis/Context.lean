import ClassScope.Analysis.Basic

/-!
File contexts. A module's context is used until the module declares something else or the context is
released; then another one takes its place and the old one is released.
-/
namespace ClassScope.Analysis

/-- Releases a context. What it holds stays readable. -/
def destroyContext (c : ContextId) (a : Analysis) : Analysis :=
  { a with contexts := a.contexts.modify c fun x => { x with destroyed := true } }

def destroyContexts (cs : List ContextId) (a : Analysis) : Analysis :=
  cs.foldl (fun a c => a.destroyContext c) a

/-- Whether a context still shows what a module declares. -/
def IsCurrent (a : Analysis) (m : ModuleId) (c : ContextId) : Prop :=
  (a.context c).destroyed = false ∧ (a.context c).generation = (a.module m).generation

instance (a : Analysis) (m : ModuleId) (c : ContextId) : Decidable (a.IsCurrent m c) :=
  inferInstanceAs (Decidable (_ ∧ _))

def currentContext? (a : Analysis) (m : ModuleId) : Option ContextId :=
  (a.cached.get? m).filter fun c => a.IsCurrent m c

/-- Makes a built context the module's one, unless a current one has come up in the meantime. -/
def keepContext (m : ModuleId) (x : FileContext) (a : Analysis) : ContextId × Analysis :=
  match a.currentContext? m with
  | some c => (c, a)
  | none =>
      let c := a.contexts.size
      let before := a.cached.get? m
      let a := { a with contexts := a.contexts.push x, cached := a.cached.put m c }
      (c, a.destroyContexts before.toList)

/-- Releases and forgets the contexts of modules that are gone or declare something else by now. Also says
how many they were. -/
def purgeContexts (a : Analysis) : Nat × Analysis :=
  let keeps (m : ModuleId) (c : ContextId) : Bool := (a.module m).live && a.IsCurrent m c
  let stale := a.cached.filter fun m c => ¬ keeps m c
  let a := { a with cached := a.cached.filter keeps }
  (stale.size, a.destroyContexts (stale.entries.map (·.2)))

def clearContexts (a : Analysis) : Analysis :=
  let cleared := { a with cached := ∅ }
  cleared.destroyContexts (a.cached.entries.map (·.2))

end ClassScope.Analysis
