import ClassScope.Proofs.Analysis.Serving
import ClassScope.Proofs.Analysis.Unindexed

/-!
# Attempts at a service

A get that finds no live service puts away what is stale. From then on it changes neither the registry nor any
service before it ends in one, and if its module does not answer it ends with the error instead.
-/

namespace ClassScope

variable {rs : List ServiceId} {a b c : Analysis} {m : ModuleId} {s : ServiceId} {q : Question} {p : Pending}

/-! ## Questions -/

/-- The question that a stage waits for. -/
def ContextStage.Asks (m : ModuleId) (q : Question) : ContextStage → Prop
  | .home => ∃ home, q = .home home
  | .compile _ => q = .compile m
  | .boot _ _ => q = .boot m

def Stage.Asks (m : ModuleId) (q : Question) : Stage → Prop
  | .context stage => stage.Asks m q
  | .boot _ _ => q = .boot m

namespace Analysis

theorem beginContext_asks {stage : ContextStage} (h : a.beginContext m = .asks q stage) : stage.Asks m q := by
  unfold beginContext at h
  split at h
  · cases h
  · cases h
    exact ⟨_, rfl⟩
  · cases h
    rfl

theorem resumeContext_asks {stage stage' : ContextStage} {reply : Answer}
    (h : (a.resumeContext m stage reply).1 = .asks q stage') : stage'.Asks m q := by
  unfold resumeContext at h
  split at h
  case h_1 =>
      cases h
      rfl
  case h_3 =>
      dsimp only at h
      split at h
      · cases h
        rfl
      · cases h
  all_goals cases h

theorem withContext_asks {progress : ContextProgress} {stage : Stage}
    (hp : ∀ s, progress = .asks q s → s.Asks m q) (h : (a.withContext m progress).1 = .asks q stage) :
    stage.Asks m q := by
  cases progress with
  | failed e => cases h
  | asks q' s =>
      cases h
      exact hp s rfl
  | found c =>
      simp only [withContext] at h
      split at h
      · cases h
        rfl
      · cases h

theorem resumeBuild_asks {stage stage' : Stage} {reply : Answer}
    (h : (a.resumeBuild m stage reply).1 = .asks q stage') : stage'.Asks m q := by
  unfold resumeBuild at h
  split at h
  case h_1 => exact withContext_asks (fun _ hs => resumeContext_asks hs) h
  all_goals cases h

/-! ## Putting away what is stale -/

/-- The stale services are put away, unless they are retained. Apart from that the second state has the registry
and the services of the first. -/
structure Tidies (a b : Analysis) : Prop where
  registered : ∀ m s, b.registered.get? m = some s ↔
    a.registered.get? m = some s ∧ (a.policy = .retain ∨ a.IsLive s)
  destroyed : ∀ s, (b.service s).destroyed = true ↔ (a.service s).destroyed = true ∨
    a.policy = .dispose ∧ ∃ m, a.registered.get? m = some s ∧ ¬ a.IsLive s
  services_size : b.services.size = a.services.size
  epoch : b.epoch = a.epoch
  failures : b.stats.failures = a.stats.failures

theorem Tidies.same (h : a.Tidies b) (services : c.services = b.services) (registered : c.registered = b.registered)
    (epoch : c.epoch = b.epoch) (failures : c.stats.failures = b.stats.failures) : a.Tidies c where
  registered m s := by rw [registered]; exact h.registered m s
  destroyed s := by rw [service, services]; exact h.destroyed s
  services_size := by rw [services]; exact h.services_size
  epoch := epoch.trans h.epoch
  failures := failures.trans h.failures

theorem purge_tidies (h : a.Sound rs) : a.Tidies a.purge.2 := by
  cases hp : a.policy with
  | retain =>
      rw [purge_of_retain hp]
      exact {
        registered := fun m s => (and_iff_left (Or.inl hp)).symm
        destroyed := fun s => by simp [hp]
        services_size := rfl
        epoch := rfl
        failures := rfl }
  | dispose =>
      have tidied : a.Tidies a.purgeServices := {
        registered := by
          intro m s
          rw [get?_registered_purgeServices, hp]
          simp
        destroyed := by
          intro s
          rw [and_iff_right hp, ← mem_staleServices]
          constructor
          · exact destroyed_of_destroyServices
          · rintro (hd | hs)
            · exact destroyed_destroyServices_of_destroyed (a := { a with registered := a.liveServices }) _ hd
            · obtain ⟨m, hr, -⟩ := mem_staleServices.mp hs
              exact (destroyed_destroyServices (a := { a with registered := a.liveServices })
                (h.lt_of_registered hr)).mpr (Or.inr hs)
        services_size := services_size_destroyServices _ _
        epoch := by rw [purgeServices_eq]
        failures := by rw [purgeServices_eq] }
      rw [purge_of_dispose hp, purgeContexts_eq]
      exact tidied.same rfl rfl rfl rfl

/-! ## Passes that do not end in a service -/

/-- Neither the registry nor a service is different, and no failure is counted. -/
structure Spares (a b : Analysis) : Prop where
  services : b.services = a.services
  registered : b.registered = a.registered
  epoch : b.epoch = a.epoch
  failures : b.stats.failures = a.stats.failures

theorem Tidies.spares (h : a.Tidies b) (hs : b.Spares c) : a.Tidies c :=
  h.same hs.services hs.registered hs.epoch hs.failures

theorem Scans.spares (h : a.Scans b) (hk : a.Keeps b) : a.Spares b := by
  have hstats := congrArg Stats.failures hk.stats
  obtain ⟨_, _, _, _, rfl⟩ := h
  exact ⟨rfl, rfl, rfl, hstats⟩

theorem resumeBuild_spares (a : Analysis) (m : ModuleId) (stage : Stage) (reply : Answer) :
    a.Spares (a.resumeBuild m stage reply).2 := by
  have hk := (resumeBuild_keeps a m stage reply).1
  have same : (a.resumeBuild m stage reply).2.services = a.services ∧
      (a.resumeBuild m stage reply).2.registered = a.registered := by
    cases resumeBuild_prepares a m stage reply with
    | scans h =>
        obtain ⟨_, _, _, _, he⟩ := h
        rw [he]
        exact ⟨rfl, rfl⟩
    | @keeps c x before _ _ after =>
        have kept : (c.keepContext m x).2.services = c.services ∧
            (c.keepContext m x).2.registered = c.registered := by
          unfold keepContext
          split
          · exact ⟨rfl, rfl⟩
          · dsimp only
            rw [destroyContexts_eq]
            exact ⟨rfl, rfl⟩
        obtain ⟨_, _, _, _, rfl⟩ := before
        obtain ⟨_, _, _, _, he⟩ := after
        rw [he]
        exact kept
  exact ⟨same.1, same.2, hk.epoch, congrArg Stats.failures hk.stats⟩

/-- A get that waits after its first step found no live service, and it is at the beginning of a pass. -/
theorem begin_waits (h : a.Sound rs) (hb : (a.begin m).1 = .asks q p) :
    a.liveService? m = none ∧ a.Tidies (a.begin m).2 ∧ p.module = m ∧ p.epoch = a.epoch ∧ p.stage.Asks m q := by
  cases hl : a.liveService? m with
  | some s =>
      cases (begin_of_live hl).1.symm.trans hb
  | none =>
      have hepoch := (begin_advances h hl).1.asks hb
      simp only [begin, hl] at hb ⊢
      generalize hstats : (if a.registered.has m then _ else _ : Stats) = stats at hb ⊢
      have hfailures : stats.failures = a.stats.failures := by
        rw [← hstats]
        split <;> rfl
      have counted : Sound rs { a with stats } := (Scans.evolves h ⟨_, _, _, _, rfl⟩).sound
      have tidied := purge_tidies counted
      generalize ({ a with stats }.purge.2) = b at tidied hb ⊢
      have hwith := (withContext_scans b m (b.beginContext m)).spares (withContext_keeps b m _).1
      have hasks {q : Question} {stage : Stage} (hs : (b.withContext m (b.beginContext m)).1 = .asks q stage) :
          stage.Asks m q := withContext_asks (fun _ => beginContext_asks) hs
      generalize b.withContext m (b.beginContext m) = r at hb hwith hasks ⊢
      obtain ⟨built, c⟩ := r
      cases built with
      | service x => cases hb
      | failed e => cases hb
      | asks q' stage =>
          cases hb
          have hc := tidied.spares hwith
          exact ⟨trivial, ⟨hc.registered, hc.destroyed, hc.services_size, hc.epoch, hc.failures.trans hfailures⟩, rfl,
            hepoch, hasks rfl⟩

/-- A get that waits again stays in its pass, if nothing was torn down. -/
theorem resume_waits {q' : Question} {p' : Pending} {reply : Answer} (he : p.epoch = a.epoch)
    (hr : (a.resume p reply).1 = .asks q' p') :
    a.Spares (a.resume p reply).2 ∧ p'.module = p.module ∧ p'.epoch = p.epoch ∧ p'.stage.Asks p.module q' := by
  have hs := resumeBuild_spares a p.module p.stage reply
  have hasks {q : Question} {stage : Stage} (h : (a.resumeBuild p.module p.stage reply).1 = .asks q stage) :=
    resumeBuild_asks h
  rw [resume] at hr ⊢
  generalize a.resumeBuild p.module p.stage reply = r at hr hs hasks ⊢
  obtain ⟨built, b⟩ := r
  cases built with
  | failed e => cases hr
  | asks q stage =>
      cases hr
      exact ⟨hs, rfl, rfl, hasks rfl⟩
  | service x =>
      have hepoch : b.epoch = p.epoch := hs.epoch.trans he.symm
      simp only [if_pos hepoch] at hr
      cases hr

/-- Without an answer from its module a get ends, and all that it does is to count that. -/
theorem resume_error (a : Analysis) (cause : ModuleError) (hq : p.stage ≠ .context .home) :
    a.resume p (.error cause) = (.failed (a.queryError p.module cause),
      { a with stats := { a.stats with failures := a.stats.failures + 1 } }) := by
  obtain ⟨m, epoch, stage⟩ := p
  cases stage with
  | boot c dependencies => rfl
  | context stage =>
      cases stage with
      | home => exact absurd rfl hq
      | compile generation => rfl
      | boot generation classPaths => rfl

/-! ## How long a get may still take -/

/-- How many questions may still follow the present one. A pass that began before everything was torn down is made
again. -/
def rank (a : Analysis) (p : Pending) : Nat :=
  if p.epoch = a.epoch then p.stage.rank else p.stage.rank + 4

theorem rank_lt (a : Analysis) (p : Pending) : a.rank p < 8 := by
  have h := p.stage.rank_lt
  rw [rank]
  split <;> omega

/-- The next question is one for the same module, and fewer may follow it. -/
theorem resume_asks (h : a.Sound rs) {q' : Question} {p' : Pending} {reply : Answer}
    (hp : p.Holds rs a m 0 q (some reply)) (hr : (a.resume p reply).1 = .asks q' p') :
    p'.module = m ∧ p'.stage.Asks m q' ∧ (a.resume p reply).2.rank p' < a.rank p := by
  obtain ⟨rfl, hm, hs, -, hst⟩ := hp
  have e := (resumeBuild_evolves h hm hs hst).1
  have spares := resumeBuild_spares a p.module p.stage reply
  have hasks {q : Question} {stage : Stage} (h : (a.resumeBuild p.module p.stage reply).1 = .asks q stage) :
      stage.Asks p.module q ∧ stage.rank < p.stage.rank := ⟨resumeBuild_asks h, rank_resumeBuild h⟩
  rw [resume] at hr ⊢
  generalize a.resumeBuild p.module p.stage reply = r at hr e spares hasks ⊢
  obtain ⟨built, b⟩ := r
  have hepoch : b.epoch = a.epoch := spares.epoch
  cases built with
  | failed e => cases hr
  | asks q stage =>
      cases hr
      obtain ⟨asks, hlt⟩ := hasks rfl
      refine ⟨rfl, asks, ?_⟩
      simp only [rank, settle, hepoch]
      split <;> omega
  | service x =>
      dsimp only at hr ⊢
      split at hr
      case isTrue => cases hr
      case isFalse he =>
          rw [if_neg he]
          obtain ⟨-, tidies, hmodule, hbegan, asks⟩ := begin_waits e.sound hr
          refine ⟨hmodule, asks, ?_⟩
          have hlt := p'.stage.rank_lt
          have hold : p.epoch ≠ a.epoch := fun h => he (hepoch.trans h.symm)
          rw [rank, rank, if_pos (hbegan.trans tidies.epoch.symm), if_neg hold]
          omega

/-! ## What a get ends in -/

theorem Scans.isLive_iff (h : a.Scans b) : b.IsLive s ↔ a.IsLive s := by
  obtain ⟨_, _, _, _, rfl⟩ := h
  exact Iff.rfl

theorem Scans.services_eq (h : a.Scans b) : b.services = a.services := by
  obtain ⟨_, _, _, _, rfl⟩ := h
  rfl

theorem Settles.live_or_new {r : Progress × Analysis} (h : a.Settles m r) (hf : r.1 = .found s) :
    r.2.IsLive s ∨ a.services.size ≤ s := by
  cases h with
  | scans _ unfound _ => exact absurd hf (unfound s)
  | @registers x _ _ =>
      cases hf
      cases hl : a.liveService? m with
      | some t =>
          have he : a.register m x = (t, a) := by simp only [register, hl]
          rw [he]
          exact Or.inl (liveService?_eq_some hl).2
      | none =>
          right
          simp only [register, hl]
          split <;> exact Nat.le_refl _

theorem Begins.live_or_new (h : a.Sound rs) {r : Progress × Analysis} (hb : a.Begins m r)
    (hf : r.1 = .found s) : r.2.IsLive s ∨ a.services.size ≤ s := by
  cases hb with
  | live found scans =>
      cases hf
      exact Or.inl (scans.isLive_iff.mpr (liveService?_eq_some found).2)
  | pass before after settles =>
      have hsize := (purge_keeps (before.evolves h).sound).services_size
      rw [before.services_eq] at hsize
      rw [← hsize, ← after.services_eq]
      exact settles.live_or_new hf

/-- A service that a get ends in after its first step is live or it is new. -/
theorem begin_live_or_new (h : a.Sound rs) (hf : (a.begin m).1 = .found s) :
    (a.begin m).2.IsLive s ∨ a.services.size ≤ s :=
  (begin_begins a m).live_or_new h hf

theorem resume_live_or_new (h : a.Sound rs) {reply : Answer} (hp : p.Holds rs a m 0 q (some reply))
    (hf : (a.resume p reply).1 = .found s) : (a.resume p reply).2.IsLive s ∨ a.services.size ≤ s := by
  obtain ⟨rfl, hm, hs, -, hst⟩ := hp
  have e := (resumeBuild_evolves h hm hs hst).1
  have spares := resumeBuild_spares a p.module p.stage reply
  have hnew := (resumeBuild_keeps a p.module p.stage reply).2
  rw [resume] at hf ⊢
  generalize a.resumeBuild p.module p.stage reply = r at hf e spares hnew ⊢
  obtain ⟨built, b⟩ := r
  rw [← spares.services]
  cases built with
  | failed e => cases hf
  | asks q stage => cases hf
  | service x =>
      dsimp only at hf ⊢
      split at hf
      case isTrue he =>
          rw [if_pos he]
          exact (settle_settles hnew b _).live_or_new hf
      case isFalse he =>
          rw [if_neg he]
          exact begin_live_or_new e.sound hf

end Analysis

end ClassScope
