import ClassScope.Analysis.Registry

/-!
Getting the service of a module. Building one asks questions outside of the state: the surroundings are told
where the platform is, and the module is asked for its entries. Between a question and its answer anything
may happen to the state, other gets included, so a get that waits for an answer is a value of its own, and
what it has found out so far is checked again when it goes on.
-/
namespace ClassScope

/-- What a get waits for. -/
inductive Question where
  /-- The surroundings take notice of the platform's installation; the answer does not matter. -/
  | home (path : Path)
  | compile (module : ModuleId)
  | boot (module : ModuleId)
  deriving Repr, DecidableEq

abbrev Answer := Except ModuleError (List Path)

structure QueryError where
  module : String
  cause : ModuleError
  deriving Repr, DecidableEq

def QueryError.message (e : QueryError) : String :=
  "failed to query module '" ++ e.module ++ "': " ++ e.cause.message

def QueryError.serviceMessage (e : QueryError) : String :=
  "analysis service construction failed: " ++ e.message

/-- How far something has come that asks questions on its way. -/
inductive Course (α σ : Type) where
  | found (x : α)
  | failed (e : QueryError)
  /-- It goes on from there once the question is answered. -/
  | asks (q : Question) (stage : σ)
  deriving DecidableEq

/-- How far the building of a context has come. -/
inductive ContextStage where
  | home
  | compile (generation : Nat)
  | boot (generation : Nat) (classPaths : PathSet)
  deriving DecidableEq

abbrev ContextProgress := Course ContextId ContextStage

/-- How far the building of a service has come. -/
inductive Stage where
  | context (stage : ContextStage)
  | boot (context : ContextId) (dependencies : SharedSet)
  deriving DecidableEq

/-- A get that waits for an answer. It began its present pass at that epoch. -/
structure Pending where
  module : ModuleId
  epoch : Nat
  stage : Stage
  deriving DecidableEq

abbrev Progress := Course ServiceId Pending

namespace Analysis

def answer (a : Analysis) : Question → Answer
  | .home _ => .ok []
  | .compile m => (a.module m).compile
  | .boot m => (a.module m).boot

def queryError (a : Analysis) (m : ModuleId) (cause : ModuleError) : QueryError :=
  ⟨(a.module m).name, cause⟩

/-! ## Contexts -/

/-- The generation is read before the module is asked for anything. -/
def askCompile (a : Analysis) (m : ModuleId) : ContextProgress :=
  .asks (.compile m) (.compile (a.module m).generation)

def beginContext (m : ModuleId) (a : Analysis) : ContextProgress :=
  match a.currentContext? m, a.home with
  | some c, _ => .found c
  | none, some home => .asks (.home home) .home
  | none, none => a.askCompile m

def resumeContext (m : ModuleId) (stage : ContextStage) (reply : Answer) (a : Analysis) :
    ContextProgress × Analysis :=
  match stage, reply with
  | .home, _ => (a.askCompile m, a)
  | .compile _, .error e => (.failed (a.queryError m e), a)
  | .compile generation, .ok paths =>
      let classPaths := PathSet.ofLast paths
      match (a.module m).kind with
      | .platform => (.asks (.boot m) (.boot generation classPaths), a)
      | .plain =>
          let (c, a) := a.keepContext m { module := some m, generation, classPaths }
          (.found c, a)
  | .boot _ _, .error e => (.failed (a.queryError m e), a)
  | .boot generation classPaths, .ok paths =>
      let bootPaths := PathSet.ofLast paths
      let a := a.updateBoot bootPaths.toList
      let (c, a) := a.keepContext m
        { module := some m, generation, isPlatform := true, classPaths, bootPaths }
      (.found c, a)

/-! ## Services -/

/-- What comes out of a step of building a service. -/
inductive Built where
  | service (x : Service)
  | failed (e : QueryError)
  | asks (q : Question) (stage : Stage)
  deriving DecidableEq

def build (a : Analysis) (m : ModuleId) (c : ContextId) (dependencies : SharedSet)
    (boot : ClassNameSet) : Service :=
  { module := some m, generation := (a.context c).generation, context := c, dependencies, boot }

/-- Goes on with a context as far as no further question comes up. -/
def withContext (m : ModuleId) (p : ContextProgress) (a : Analysis) : Built × Analysis :=
  match p with
  | .failed e => (.failed e, a)
  | .asks q stage => (.asks q (.context stage), a)
  | .found c =>
      let (dependencies, a) := a.dependencyClasses (a.context c).classPaths.toList
      match (a.module m).kind with
      | .platform => (.asks (.boot m) (.boot c dependencies), a)
      | .plain =>
          let (boot, a) := a.moduleBootClasses none
          (.service (a.build m c dependencies boot), a)

def resumeBuild (m : ModuleId) (stage : Stage) (reply : Answer) (a : Analysis) : Built × Analysis :=
  match stage, reply with
  | .context stage, reply =>
      let (p, a) := a.resumeContext m stage reply
      a.withContext m p
  | .boot _ _, .error e => (.failed (a.queryError m e), a)
  | .boot c dependencies, .ok paths =>
      let (boot, a) := a.moduleBootClasses (some paths)
      (.service (a.build m c dependencies boot), a)

/-- Ends or suspends a pass that began at an epoch which is still the present one. -/
def settle (m : ModuleId) (b : Built) (epoch : Nat) (a : Analysis) : Progress × Analysis :=
  match b with
  | .service x =>
      let (s, a) := a.register m x
      (.found s, a)
  | .failed e => (.failed e, { a with stats := { a.stats with failures := a.stats.failures + 1 } })
  | .asks q stage => (.asks q ⟨m, epoch, stage⟩, a)

/-- A first pass: the registered service if it is live, else a new one. -/
def begin (m : ModuleId) (a : Analysis) : Progress × Analysis :=
  match a.liveService? m with
  | some s => (.found s, { a with stats := { a.stats with hits := a.stats.hits + 1 } })
  | none =>
      let stats :=
        if a.registered.has m then { a.stats with staleRebuilds := a.stats.staleRebuilds + 1 }
        else { a.stats with misses := a.stats.misses + 1 }
      let a := { a with stats }.purge.2
      let (b, a) := a.withContext m (a.beginContext m)
      a.settle m b a.epoch

/-- Goes on with the answer to the question of a pending get. A service that was being built while
everything was torn down is thrown away, and the get begins anew. -/
def resume (p : Pending) (reply : Answer) (a : Analysis) : Progress × Analysis :=
  let (b, a) := a.resumeBuild p.module p.stage reply
  match b with
  | .service x => if a.epoch = p.epoch then a.settle p.module (.service x) p.epoch else a.begin p.module
  | b => a.settle p.module b p.epoch

/-! ## Undisturbed gets -/

/-- Answers questions as the modules declare, as many as the number says. -/
def answerAll : Nat → Progress × Analysis → Progress × Analysis
  | 0, r => r
  | bound + 1, (.asks q p, a) => answerAll bound (a.resume p (a.answer q))
  | _ + 1, r => r

/-- A get during which nothing else happens. It asks four questions at most. -/
def get (m : ModuleId) (a : Analysis) : Progress × Analysis :=
  answerAll 4 (a.begin m)

end Analysis

end ClassScope
