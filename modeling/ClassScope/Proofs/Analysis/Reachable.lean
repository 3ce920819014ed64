import ClassScope.Proofs.Analysis.Links
import ClassScope.Proofs.Analysis.Runs

/-!
# States that somebody can come to

Besides what happens to a session, modules may change in any way, and contexts and the caches below may be used
directly. However a state was come to, its tables, services and contexts hang together.
-/

namespace ClassScope

variable {a b : Analysis} {m : ModuleId}

/-! ## Gets on their way -/

/-- A get that waits for boot entries holds a context of its module. -/
def Stage.Fits (a : Analysis) (m : ModuleId) : Stage → Prop
  | .context _ => True
  | .boot c _ => (a.context c).module = some m

def ContextProgress.Fits (a : Analysis) (m : ModuleId) : ContextProgress → Prop
  | .found c => (a.context c).module = some m
  | _ => True

def Progress.Fits (a : Analysis) : Progress → Prop
  | .asks _ p => p.stage.Fits a p.module
  | _ => True

namespace Analysis

def Built.Fits (a : Analysis) (m : ModuleId) : Built → Prop
  | .service x => a.Fits m x
  | .failed _ => True
  | .asks _ stage => stage.Fits a m

theorem Leads.progress (l : a.Leads b) {progress : Progress} (h : progress.Fits a) : progress.Fits b := by
  cases progress with
  | found s => trivial
  | failed e => trivial
  | asks q p =>
      obtain ⟨m, epoch, stage⟩ := p
      cases stage with
      | context stage => trivial
      | boot c dependencies => exact l.context_module h

theorem Linked.beginContext (h : a.Linked) (m : ModuleId) : (a.beginContext m).Fits a m := by
  unfold Analysis.beginContext
  split
  case h_1 hc => exact h.cached (currentContext?_eq_some hc).1
  case h_2 => trivial
  case h_3 => trivial

theorem Linked.resumeContext (h : a.Linked) (m : ModuleId) (stage : ContextStage) (reply : Answer) :
    a.Leads (a.resumeContext m stage reply).2 ∧
      (a.resumeContext m stage reply).1.Fits (a.resumeContext m stage reply).2 m := by
  have step := resumeContext_step a m stage reply
  generalize a.resumeContext m stage reply = r at step
  cases step with
  | @stays p unfound =>
      refine ⟨.refl h, ?_⟩
      cases p with
      | found c => exact absurd rfl (unfound c)
      | failed e => trivial
      | asks q stage => trivial
  | keeps scans module destroyed =>
      have l := h.scans scans
      obtain ⟨l', hm⟩ := l.linked.keepContext module
      exact ⟨l.trans l', hm⟩

theorem build_fits {c : ContextId} (h : (a.context c).module = some m) (dependencies : SharedSet)
    (boot : ClassNameSet) : a.Fits m (a.build m c dependencies boot) :=
  ⟨rfl, rfl, h, rfl⟩

theorem Linked.withContext (h : a.Linked) {p : ContextProgress} (hp : p.Fits a m) :
    a.Leads (a.withContext m p).2 ∧ (a.withContext m p).1.Fits (a.withContext m p).2 m := by
  cases p with
  | failed e => exact ⟨.refl h, trivial⟩
  | asks q stage => exact ⟨.refl h, trivial⟩
  | found c =>
      have l := h.scans (dependencyClasses_scans a (a.context c).classPaths.toList)
      have hc := l.context_module hp
      simp only [Analysis.withContext]
      split
      · exact ⟨l, hc⟩
      · have l' := l.trans (l.linked.scans (moduleBootClasses_scans _ none))
        exact ⟨l', build_fits (l'.context_module hp) _ _⟩

theorem Linked.resumeBuild (h : a.Linked) {stage : Stage} (hs : stage.Fits a m) (reply : Answer) :
    a.Leads (a.resumeBuild m stage reply).2 ∧
      (a.resumeBuild m stage reply).1.Fits (a.resumeBuild m stage reply).2 m := by
  cases stage with
  | context stage =>
      obtain ⟨l, hp⟩ := h.resumeContext m stage reply
      obtain ⟨l', hb⟩ := l.linked.withContext hp
      exact ⟨l.trans l', hb⟩
  | boot c dependencies =>
      cases reply with
      | error e => exact ⟨.refl h, trivial⟩
      | ok paths =>
          have l := h.scans (moduleBootClasses_scans a (some paths))
          exact ⟨l, build_fits (l.context_module hs) _ _⟩

theorem Linked.settle (h : a.Linked) {x : Built} (hx : x.Fits a m) (epoch : Nat) :
    a.Leads (a.settle m x epoch).2 ∧ (a.settle m x epoch).1.Fits (a.settle m x epoch).2 := by
  cases x with
  | service x => exact ⟨h.register hx, trivial⟩
  | failed e => exact ⟨h.scans ⟨_, _, _, _, rfl⟩, trivial⟩
  | asks q stage => exact ⟨.refl h, hx⟩

theorem Linked.begin (h : a.Linked) (m : ModuleId) : a.Leads (a.begin m).2 ∧ (a.begin m).1.Fits (a.begin m).2 := by
  unfold Analysis.begin
  split
  case h_1 => exact ⟨h.scans ⟨_, _, _, _, rfl⟩, trivial⟩
  case h_2 =>
      dsimp only
      generalize (if a.registered.has m then _ else _ : Stats) = stats
      have l : a.Leads { a with stats } := h.scans ⟨_, _, _, _, rfl⟩
      have purged := l.trans l.linked.purge
      obtain ⟨l', hb⟩ := purged.linked.withContext (purged.linked.beginContext m)
      obtain ⟨l'', hp⟩ := l'.linked.settle hb _
      exact ⟨(purged.trans l').trans l'', hp⟩

theorem Linked.resume (h : a.Linked) {p : Pending} (hp : p.stage.Fits a p.module) (reply : Answer) :
    a.Leads (a.resume p reply).2 ∧ (a.resume p reply).1.Fits (a.resume p reply).2 := by
  obtain ⟨l, hb⟩ := h.resumeBuild hp reply
  rw [Analysis.resume]
  generalize a.resumeBuild p.module p.stage reply = r at l hb
  obtain ⟨x, b⟩ := r
  obtain ⟨settled, fits⟩ := l.linked.settle hb p.epoch
  cases x with
  | failed e => exact ⟨l.trans settled, fits⟩
  | asks q stage => exact ⟨l.trans settled, fits⟩
  | service x =>
      dsimp only
      split
      · exact ⟨l.trans settled, fits⟩
      · obtain ⟨l', hp'⟩ := l.linked.begin p.module
        exact ⟨l.trans l', hp'⟩

end Analysis

/-! ## Sessions -/

namespace Session

variable {x : Session}

structure Linked (x : Session) : Prop where
  analysis : x.analysis.Linked
  gets : ∀ {k g}, x.gets.get? k = some g → Progress.Fits x.analysis g.progress

theorem Linked.update (h : x.Linked) (f : Analysis → Analysis) (l : x.analysis.Leads (f x.analysis)) :
    (x.update f).Linked where
  analysis := l.linked
  gets hg := l.progress (h.gets hg)

theorem Linked.goes (h : x.Linked) {k : Nat} {m : ModuleId} {r : Progress × Analysis}
    (g : Desk.gets.Goes x.analysis x.gets k m r) : x.analysis.Leads r.2 ∧ r.1.Fits r.2 := by
  cases g with
  | start _ lt => exact h.analysis.begin m
  | @resume q p reply waits => exact h.analysis.resume (h.gets waits) reply

theorem step_leads (h : x.Linked) (e : Event) : x.analysis.Leads (x.step e).analysis := by
  cases e with
  | add m => exact h.analysis.modules _
  | reconfigure m settings => exact h.analysis.modules _
  | detach m => exact h.analysis.modules _
  | hinder m compile boot sources => exact h.analysis.modules _
  | start m =>
      simp only [Session.step]
      split
      case isTrue lt => exact (h.goes (.start rfl lt)).1
      case isFalse => exact .refl h.analysis
  | answer k =>
      simp only [Session.step]
      split
      · exact .refl h.analysis
      · exact .refl h.analysis
  | resume k =>
      simp only [Session.step]
      split
      case h_1 waits => exact (h.goes (.resume waits)).1
      case h_2 => exact .refl h.analysis
  | purge => exact h.analysis.purge
  | size => exact h.analysis.purge
  | destroyAll => exact h.analysis.destroyAll
  | destroy s =>
      simp only [Session.step]
      split
      case isTrue hs => exact h.analysis.destroyService hs
      case isFalse => exact .refl h.analysis
  | refresh s declared =>
      simp only [Session.step]
      split
      · exact h.analysis.refresh s declared
      · exact .refl h.analysis
  | types s sources => exact h.analysis.scans (Analysis.types_scans _ s sources)
  | files disk => exact h.analysis.scans ⟨_, _, _, _, rfl⟩

theorem Linked.step (h : x.Linked) (e : Event) : (x.step e).Linked where
  analysis := (step_leads h e).linked
  gets hg := by
    cases (desk_step x e).becomes hg with
    | same old => exact (step_leads h e).progress (h.gets old)
    | answered old _ =>
        have fits : Progress.Fits x.analysis (.asks _ _) := h.gets old
        exact (step_leads h e).progress fits
    | goes g => exact (h.goes g).2

theorem Linked.act (h : x.Linked) (act : Act) : (x.update (Act.apply · act)).Linked := by
  refine h.update _ ?_
  cases act with
  | context m stage reply => exact (h.analysis.resumeContext m stage reply).1
  | destroyContext c => exact h.analysis.destroyContext c
  | purgeContexts => exact h.analysis.purgeContexts
  | clearContexts => exact h.analysis.clearContexts
  | scans disk boot dependencies => exact h.analysis.scans ⟨_, _, _, _, rfl⟩
  | _ => exact .refl h.analysis

theorem ofConfig_linked (c : Config) (env : Environment) (d : Disk) : (ofConfig c env d).Linked := by
  have s := (ofConfig_sound c env d).analysis
  refine ⟨?_, ?_⟩
  · exact {
      registered := s.registered
      cached := s.cached
      context_module := s.context_module
      context_generation := s.context_generation
      kept := s.kept
      held := by
        intro _ i m hm
        cases i with
        | zero => cases hm
        | succ i => cases hm
      destroyed := s.destroyed }
  · intro k g hg
    cases hg

/-- The states that somebody can come to. -/
inductive Reachable : Session → Prop
  | start (c : Config) (env : Environment) (d : Disk) : Reachable (ofConfig c env d)
  | event {x : Session} (before : Reachable x) (e : Event) : Reachable (x.step e)
  | act {x : Session} (before : Reachable x) (act : Act) : Reachable (x.update (Act.apply · act))
  /-- Modules may come to tell anything. -/
  | modules {x : Session} (before : Reachable x) (modules : Row Module) :
      Reachable (x.update ({ · with modules }))

theorem Reachable.run (h : x.Reachable) (es : List Event) : (x.run es).Reachable :=
  run_induction (P := Reachable) (fun _ e h => h.event e) h es

theorem Reachable.linked (h : x.Reachable) : x.Linked := by
  induction h with
  | start c env d => exact ofConfig_linked c env d
  | event _ e ih => exact ih.step e
  | act _ act ih => exact ih.act act
  | modules _ modules ih => exact ih.update _ (ih.analysis.modules modules)

end Session

end ClassScope
