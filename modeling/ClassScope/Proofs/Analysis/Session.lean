import ClassScope.Proofs.Analysis.Asking

/-!
# Sessions

An analysis in use: modules come, change and go, services are asked for, released and put away, and all of
this also while some gets wait for answers. A get that runs inside a question of another one is a get that
starts and ends while the other one waits; gets may overlap in any other way as well.
-/

namespace ClassScope

abbrev Get := Ticket ServiceId Pending

def Desk.gets : Desk ServiceId Pending where
  begin := Analysis.begin
  resume _ := Analysis.resume

structure Session where
  analysis : Analysis
  gets : Row Get := {}
  /-- The services that somebody who got them has released. -/
  released : List ServiceId := []

inductive Event where
  | add (m : Module)
  | reconfigure (m : ModuleId) (settings : Settings)
  | detach (m : ModuleId)
  /-- From now on these failures stand in the way of a module's answers. -/
  | hinder (m : ModuleId) (compile boot sources : Option ModuleError)
  | start (m : ModuleId)
  /-- What a get waits for is read; the get itself is not resumed yet. -/
  | answer (get : Nat)
  | resume (get : Nat)
  | purge
  | size
  | destroyAll
  | destroy (s : ServiceId)
  | refresh (s : ServiceId) (declared : Option (List Path))
  | types (s : ServiceId) (sources : Except ModuleError ClassNameSet)
  | files (d : Disk)

def Module.hinder (compile boot sources : Option ModuleError) (m : Module) : Module :=
  { m with compileFailure := compile, bootFailure := boot, sourcesFailure := sources }

namespace Session

def ofConfig (c : Config) (env : Environment) (d : Disk) : Session :=
  { analysis := .ofConfig c env d }

def update (f : Analysis → Analysis) (x : Session) : Session :=
  { x with analysis := f x.analysis }

/-- What an event does. Modules and services that are not there yet, and gets that do not wait, leave all as
it is. -/
def step (x : Session) : Event → Session
  | .add m => x.update (Analysis.addModule m)
  | .reconfigure m settings => x.update (Analysis.reconfigure m settings)
  | .detach m => x.update (Analysis.detach m)
  | .hinder m compile boot sources => x.update fun a =>
      { a with modules := a.modules.modify m (Module.hinder compile boot sources) }
  | .start m =>
      if m < x.analysis.modules.size then
        let (progress, analysis) := x.analysis.begin m
        { x with analysis, gets := x.gets.push { module := m, progress } }
      else x
  | .answer k =>
      match x.gets.get? k with
      | some ⟨m, .asks q p, _⟩ =>
          let reply := x.analysis.answer q
          { x with gets := x.gets.modify k fun _ => { module := m, progress := .asks q p, reply } }
      | _ => x
  | .resume k =>
      match x.gets.get? k with
      | some ⟨m, .asks _ p, some reply⟩ =>
          let (progress, analysis) := x.analysis.resume p reply
          { x with analysis, gets := x.gets.modify k fun _ => { module := m, progress } }
      | _ => x
  | .purge => x.update fun a => a.purge.2
  | .size => x.update fun a => a.size.2
  | .destroyAll => x.update Analysis.destroyAll
  | .destroy s =>
      if s < x.analysis.services.size then
        { x with analysis := x.analysis.destroyService s, released := s :: x.released }
      else x
  | .refresh s declared =>
      if s < x.analysis.services.size then x.update (Analysis.refresh s declared) else x
  | .types s sources => x.update fun a => (a.types s sources).2
  | .files d => x.update fun a => { a with disk := d }

def run (x : Session) (es : List Event) : Session :=
  es.foldl step x

/-- Some get for a module has returned a service, maybe long ago. -/
def Returned (x : Session) (m : ModuleId) (s : ServiceId) : Prop :=
  x.gets.Returned m s

/-- An event makes a get return a service. -/
def Returns (x : Session) (e : Event) (k : Nat) (m : ModuleId) (s : ServiceId) : Prop :=
  x.gets.Returns (x.step e).gets k m s

instance (x : Session) (e : Event) (k : Nat) (m : ModuleId) (s : ServiceId) :
    Decidable (x.Returns e k m s) :=
  inferInstanceAs (Decidable (x.gets.Returns _ k m s))

theorem desk_step (x : Session) (e : Event) :
    Desk.gets.Step x.analysis x.gets (x.step e).analysis (x.step e).gets := by
  cases e with
  | start m =>
      simp only [step]
      split
      case isTrue lt => exact .start lt
      case isFalse => exact .aside _
  | answer k =>
      simp only [step]
      split
      case h_1 waits => exact .answer waits
      case h_2 => exact .aside _
  | resume k =>
      simp only [step]
      split
      case h_1 waits => exact .resume waits
      case h_2 => exact .aside _
  | destroy s =>
      simp only [step]
      split
      · exact .aside _
      · exact .aside _
  | refresh s declared =>
      simp only [step]
      split
      · exact .aside _
      · exact .aside _
  | _ => exact .aside _

theorem run_append (x : Session) (es fs : List Event) : x.run (es ++ fs) = (x.run es).run fs :=
  List.foldl_append

theorem run_concat (x : Session) (es : List Event) (e : Event) :
    x.run (es ++ [e]) = (x.run es).step e :=
  x.run_append es [e]

/-- What holds at the start and after each step holds after every run. -/
theorem run_induction {P : Session → Prop} (step : ∀ x e, P x → P (x.step e)) {x : Session} (h : P x)
    (es : List Event) : P (x.run es) :=
  List.foldlRecOn es _ h fun y hy e _ => step y e hy

end Session

end ClassScope
