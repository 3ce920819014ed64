import ClassScope.Proofs.Analysis.Progress
import ClassScope.Proofs.Analysis.Session

/-!
# Runs of sessions

One step of a session keeps the invariant of the analysis and what its gets rely on; so every run does.
-/

namespace ClassScope

variable {rs : List ServiceId} {a b : Analysis} {m : ModuleId} {since : Nat}

/-- What is known of a get: a service that was returned is of the module asked for, and a waiting get can go
on. -/
def Get.Holds (rs : List ServiceId) (a : Analysis) (since : Nat) (g : Get) : Prop :=
  match g.progress with
  | .found s => (a.service s).module = some g.module
  | .failed _ => True
  | .asks q p => p.Holds rs a g.module since q g.reply

theorem Get.Holds.mono {rs' : List ServiceId} {g : Get} (h : g.Holds rs a since) (s : a.Sound rs)
    (hs : rs ⊆ rs') (l : a.Later rs' b) : g.Holds rs' b since := by
  obtain ⟨k, progress, reply⟩ := g
  cases progress with
  | failed _ => trivial
  | found t => exact (l.service_module_eq (Analysis.lt_of_service h)).trans h
  | asks q p => exact (Pending.Holds.subset h hs).mono (s.subset hs) l

/-- Somebody else may have released a service in the meantime. -/
theorem Progress.Holds.subset {rs' : List ServiceId} {progress : Progress} (h : progress.Holds rs a m since)
    (hs : rs ⊆ rs') : progress.Holds rs' a m since := by
  cases progress with
  | failed _ => trivial
  | found s => exact h
  | asks q p => exact Pending.Holds.subset h hs

theorem Progress.Holds.get {progress : Progress} (h : progress.Holds rs a m since) :
    Get.Holds rs a since { module := m, progress } := by
  cases progress with
  | failed _ => trivial
  | found s => exact Analysis.IsServed.module h
  | asks q p => exact h

namespace Session

variable {x y : Session} {e : Event} {k : Nat}

structure Sound (x : Session) : Prop where
  analysis : x.analysis.Sound x.released
  gets : ∀ {k g}, x.gets.get? k = some g → g.Holds x.released x.analysis 0
  released : ∀ {s}, s ∈ x.released →
    s < x.analysis.services.size ∧ (x.analysis.service s).destroyed = true

/-- What a step does to the analysis of a sound session, and who is released in it. -/
structure Steps (x y : Session) : Prop where
  evolves : x.analysis.Evolves y.released y.analysis
  subset : x.released ⊆ y.released
  released : ∀ {s}, s ∈ y.released →
    s < y.analysis.services.size ∧ (y.analysis.service s).destroyed = true

theorem Sound.released_later (h : x.Sound) (l : x.analysis.Later rs b) {s : ServiceId}
    (hs : s ∈ x.released) : s < b.services.size ∧ (b.service s).destroyed = true := by
  obtain ⟨hlt, hd⟩ := h.released hs
  exact ⟨l.lt_services hlt, (l.service hlt).destroyed hd⟩

theorem Steps.refl (h : x.Sound) : x.Steps x :=
  ⟨.refl h.analysis, fun _ hs => hs, h.released⟩

theorem Steps.evolving (h : x.Sound) {gets : Row Get} (e : x.analysis.Evolves x.released b) :
    x.Steps { x with analysis := b, gets } :=
  ⟨e, fun _ hs => hs, h.released_later e.later⟩

/-- A get that begins or goes on leaves a sound analysis behind, and it holds itself, since any generation that
was there when it started. -/
theorem Sound.goes (h : x.Sound) {r : Progress × Analysis} (g : Desk.gets.Goes x.analysis x.gets k m r)
    (old : ∀ f, x.gets.get? k = some f → f.module = m → f.Holds x.released x.analysis since)
    (new : k = x.gets.size → since ≤ (x.analysis.module m).generation) :
    x.analysis.Evolves x.released r.2 ∧ r.1.Holds x.released r.2 m since := by
  cases g with
  | start hk lt => exact Analysis.begin_evolves h.analysis lt (new hk)
  | resume waits => exact Analysis.resume_evolves h.analysis (old _ waits rfl)

theorem Sound.goes_evolves (h : x.Sound) {r : Progress × Analysis} (g : Desk.gets.Goes x.analysis x.gets k m r) :
    x.analysis.Evolves x.released r.2 :=
  (h.goes g (fun _ hf _ => h.gets hf) fun _ => Nat.zero_le _).1

theorem step_destroy (h : x.Sound) (s : ServiceId) : x.Steps (x.step (.destroy s)) := by
  by_cases hs : s < x.analysis.services.size
  · have e := Analysis.destroyService_evolves h.analysis hs
    simp only [step, if_pos hs]
    refine ⟨e, List.subset_cons_self s x.released, ?_⟩
    intro t ht
    rcases List.mem_cons.mp ht with rfl | ht
    · exact ⟨e.later.lt_services hs, (Analysis.destroyed_destroyService hs).mpr (Or.inr rfl)⟩
    · exact h.released_later e.later ht
  · simp only [step, if_neg hs]
    exact .refl h

theorem step_steps (h : x.Sound) (e : Event) : x.Steps (x.step e) := by
  have modules (m : ModuleId) (f : Module → Module) (hf : ∀ k : Module, k.Later (f k)) :
      x.Steps (x.update fun a => { a with modules := a.modules.modify m f }) :=
    .evolving h (Analysis.evolves_modules h.analysis (.modify Module.Later.refl _ _ hf))
  cases e with
  | add m => exact .evolving h (Analysis.evolves_modules h.analysis (.push Module.Later.refl _ _))
  | reconfigure m settings => exact modules m _ (.reconfigure settings)
  | detach m => exact modules m _ .detach
  | hinder m c b s => exact modules m _ fun k => ⟨Nat.le_refl _, fun _ => rfl, id⟩
  | start m =>
      simp only [step]
      split
      case isTrue lt => exact .evolving h (h.goes_evolves (.start rfl lt))
      case isFalse => exact .refl h
  | answer k =>
      simp only [step]
      split
      · exact .evolving h (.refl h.analysis)
      · exact .refl h
  | resume k =>
      simp only [step]
      split
      case h_1 waits => exact .evolving h (h.goes_evolves (.resume waits))
      case h_2 => exact .refl h
  | purge => exact .evolving h (Analysis.purge_evolves h.analysis)
  | size => exact .evolving h (Analysis.purge_evolves h.analysis)
  | destroyAll => exact .evolving h (Analysis.destroyAll_evolves h.analysis)
  | destroy s => exact step_destroy h s
  | refresh s declared =>
      simp only [step]
      split
      · exact .evolving h (Analysis.refresh_evolves h.analysis s declared)
      · exact .refl h
  | types s sources => exact .evolving h ((Analysis.types_scans x.analysis s sources).evolves h.analysis)
  | files disk => exact .evolving h (Analysis.Scans.evolves h.analysis ⟨_, _, _, _, rfl⟩)

/-! ## What steps and runs keep -/

/-- A get goes on holding, since any generation that was there when it started. -/
theorem Sound.holds (h : x.Sound) {g : Get} (hg : (x.step e).gets.get? k = some g)
    (old : ∀ f, x.gets.get? k = some f → f.module = g.module → f.Holds x.released x.analysis since)
    (new : k = x.gets.size → since ≤ (x.analysis.module g.module).generation) :
    g.Holds (x.step e).released (x.step e).analysis since := by
  have t := step_steps h e
  cases (desk_step x e).becomes hg with
  | same hk => exact (old _ hk rfl).mono h.analysis t.subset t.evolves.later
  | answered hk eq =>
      have kept := (old _ hk rfl).mono h.analysis t.subset t.evolves.later
      rw [← eq]
      exact Pending.Holds.answer kept
  | goes i => exact ((h.goes i old new).2.subset t.subset).get

theorem Sound.step (h : x.Sound) (e : Event) : (x.step e).Sound where
  analysis := (step_steps h e).evolves.sound
  gets hg := h.holds hg (fun _ hf _ => h.gets hf) fun _ => Nat.zero_le _
  released := (step_steps h e).released

theorem run_sound (h : x.Sound) (es : List Event) : (x.run es).Sound :=
  run_induction (P := Sound) (fun _ e h => h.step e) h es

theorem ofConfig_sound (c : Config) (env : Environment) (d : Disk) : (ofConfig c env d).Sound where
  analysis := Analysis.sound_of_nothing_made rfl rfl rfl rfl rfl rfl
  gets hg := nomatch hg
  released hs := nomatch hs

theorem Returns.isServed (h : x.Sound) {s : ServiceId} (r : x.Returns e k m s)
    (old : ∀ f, x.gets.get? k = some f → f.module = m → f.Holds x.released x.analysis since)
    (new : k = x.gets.size → since ≤ (x.analysis.module m).generation) :
    (x.step e).analysis.IsServed m since s :=
  (h.goes ((desk_step x e).goes_of_returns r) old new).2

end Session

end ClassScope
