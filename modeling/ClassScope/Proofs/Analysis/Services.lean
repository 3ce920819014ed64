import ClassScope.Proofs.Analysis.Runs

/-!
# What holds of services in every run

There is one live service for each module, it shows what the module declares, and its context is the
module's one unless somebody has released another service over the same context.
-/

namespace ClassScope

/-- The event leaves it to a module what it declares, and that it is there. -/
def Event.Spares (m : ModuleId) : Event → Prop
  | .reconfigure k _ => k ≠ m
  | .detach k => k ≠ m
  | _ => True

/-- A service shows what its module declares at present. -/
structure Analysis.Shows (a : Analysis) (m : ModuleId) (s : ServiceId) : Prop where
  generation : (a.service s).generation = (a.module m).generation
  classPaths : ∀ p, (a.context (a.service s).context).classPaths.Names p ↔
    ∃ q ∈ (a.module m).settings.compile, p.Same q
  isPlatform : (a.context (a.service s).context).isPlatform = true ↔ (a.module m).kind = .platform
  bootPaths : match (a.module m).kind with
    | .platform => ∀ p, (a.context (a.service s).context).bootPaths.Names p ↔
        ∃ q ∈ (a.module m).settings.boot, p.Same q
    | .plain => (a.context (a.service s).context).bootPaths = ∅

namespace Session

variable {x y : Session} {m : ModuleId} {s : ServiceId}

/-! ## One live service for each module -/

theorem get?_step_of_not_waits {k : Nat} {g : Get} (hk : x.gets.get? k = some g) (hg : ¬ g.Waits)
    (e : Event) : (x.step e).gets.get? k = some g :=
  (desk_step x e).get?_of_not_waits hk hg

theorem Returned.step (r : x.Returned m s) (e : Event) : (x.step e).Returned m s :=
  (desk_step x e).returned r

theorem Returned.run (r : x.Returned m s) (es : List Event) : (x.run es).Returned m s :=
  run_induction (P := fun y => y.Returned m s) (fun _ e h => h.step e) r es

theorem Returned.module (h : x.Sound) (r : x.Returned m s) : (x.analysis.service s).module = some m := by
  obtain ⟨k, g, hk, rfl, hfound⟩ := r
  have hg := h.gets hk
  rw [Get.Holds, hfound] at hg
  exact hg

theorem Returned.registered (h : x.Sound) (r : x.Returned m s) (hl : x.analysis.IsLive s) :
    x.analysis.registered.get? m = some s :=
  h.analysis.live (r.module h) hl

theorem Returned.liveService? (h : x.Sound) (r : x.Returned m s) (hl : x.analysis.IsLive s) :
    x.analysis.liveService? m = some s := by
  rw [Analysis.liveService?, r.registered h hl, Option.filter_some, if_pos (decide_eq_true hl)]

/-- A live service is the one that is registered for its module, so of the services ever returned for a
module at most one is live. A get that ends while it is live ends in it, and one that starts while it is
live ends in it at once. -/
theorem live_service_unique (c : Config) (env : Environment) (d : Disk) (es : List Event) :
    let x := (ofConfig c env d).run es
    (∀ m s, x.Returned m s → x.analysis.IsLive s → x.analysis.registered.get? m = some s) ∧
    (∀ m s t, x.Returned m s → x.Returned m t → x.analysis.IsLive s → x.analysis.IsLive t → s = t) ∧
    (∀ e k m s t, x.Returns e k m t → (x.step e).Returned m s → (x.step e).analysis.IsLive s → t = s) ∧
    (∀ m s, x.Returned m s → x.analysis.IsLive s → x.Returns (.start m) x.gets.size m s) := by
  intro x
  have h : x.Sound := run_sound (ofConfig_sound c env d) es
  refine ⟨fun m s r hl => r.registered h hl, ?_, ?_, ?_⟩
  · intro m s t hs ht hls hlt
    exact Option.some.inj ((hs.registered h hls).symm.trans (ht.registered h hlt))
  · intro e k m s t ht hs hl
    have served : (x.step e).analysis.IsServed m 0 t :=
      ht.isServed h (fun _ hf _ => h.gets hf) fun _ => Nat.zero_le _
    have registered := hs.registered (h.step e) hl
    exact Option.some.inj (served.registered.symm.trans registered)
  · intro m s r hl
    have hm : m < x.analysis.modules.size := h.analysis.module_lt (h.analysis.context_module (r.module h))
    refine ⟨fun g hg => absurd (Row.lt_of_get? hg) (Nat.lt_irrefl _), ⟨m, .found s, none⟩, ?_, rfl, rfl⟩
    simp only [step, if_pos hm, Analysis.begin, r.liveService? h hl]
    exact Row.get?_push_self _ _

def sample (es : List Event) : Session :=
  (ofConfig {} {} (.empty 0)).run es

/-- Two gets overlap, and the one that started later is about to return first. -/
def overlapping : List Event :=
  [.add { name := "app", path := ⟨[]⟩ }, .start 0, .start 0, .answer 1, .resume 1, .answer 0]

theorem live_service_unique_of_overlap :
    (sample overlapping).analysis.registered.get? 0 = some 1 ∧
      (sample overlapping).Returns (.resume 0) 0 0 1 ∧ (sample overlapping).Returns (.start 0) 2 0 1 ∧
      ∀ s, (sample overlapping).Returned 0 s → (sample overlapping).analysis.IsLive s → s = 1 := by
  obtain ⟨registered, unique, returns, atOnce⟩ := live_service_unique {} {} (.empty 0) overlapping
  have returned : (sample overlapping).Returned 0 1 := ⟨1, by decide +kernel⟩
  have live : (sample overlapping).analysis.IsLive 1 := by decide +kernel
  exact ⟨registered 0 1 returned live, by decide +kernel, atOnce 0 1 returned live,
    fun s hs hl => unique 0 s 1 hs returned hl live⟩

/-! ## A live service shows what its module declares -/

theorem step_spares (hm : m < x.analysis.modules.size) {e : Event} (he : e.Spares m) :
    ((x.step e).analysis.module m).live = (x.analysis.module m).live ∧
      ((x.step e).analysis.module m).generation = (x.analysis.module m).generation := by
  have same {a : Analysis} (h : a.modules = x.analysis.modules) :
      (a.module m).live = (x.analysis.module m).live ∧
        (a.module m).generation = (x.analysis.module m).generation := by
    simp only [Analysis.module, h, and_self]
  have modify {k : ModuleId} {f : Module → Module} (live : k = m → ∀ u, (f u).live = u.live)
      (generation : k = m → ∀ u, (f u).generation = u.generation) :
      ((x.analysis.modules.modify k f).get m).live = (x.analysis.module m).live ∧
        ((x.analysis.modules.modify k f).get m).generation = (x.analysis.module m).generation :=
    ⟨Row.apply_get_modify Module.live live, Row.apply_get_modify Module.generation generation⟩
  cases e with
  | add u =>
      have hne : m ≠ x.analysis.modules.size := Nat.ne_of_lt hm
      have hu : (x.analysis.modules.push u).get m = x.analysis.module m := Row.get_push_of_ne hne
      exact ⟨congrArg Module.live hu, congrArg Module.generation hu⟩
  | reconfigure k settings => exact modify (fun hk => absurd hk he) fun hk => absurd hk he
  | detach k => exact modify (fun hk => absurd hk he) fun hk => absurd hk he
  | hinder k c b u => exact modify (fun _ _ => rfl) fun _ _ => rfl
  | start k =>
      simp only [step]
      split
      · exact same (Analysis.modules_begin _ _)
      · exact ⟨rfl, rfl⟩
  | answer k =>
      simp only [step]
      split
      · exact ⟨rfl, rfl⟩
      · exact ⟨rfl, rfl⟩
  | resume k =>
      simp only [step]
      split
      · exact same (Analysis.modules_resume _ _ _)
      · exact ⟨rfl, rfl⟩
  | purge => exact same (Analysis.modules_purge _)
  | size => exact same (Analysis.modules_purge _)
  | destroyAll => exact same (Analysis.modules_destroyAll _)
  | destroy s =>
      simp only [step]
      split
      · exact same (Analysis.modules_destroyService _ _)
      · exact ⟨rfl, rfl⟩
  | refresh s declared =>
      simp only [step]
      split
      · exact same (Analysis.modules_refresh _ _ _)
      · exact ⟨rfl, rfl⟩
  | types s sources => exact same (Analysis.types_scans _ _ _).modules_eq
  | files d => exact ⟨rfl, rfl⟩

/-- All along from a session to a later one a module was as it was at first, and so a get for it that came next
at the first one holds since then. -/
structure Undisturbed (x y : Session) (m : ModuleId) : Prop where
  sound : y.Sound
  module_lt : m < y.analysis.modules.size
  holds : ∀ g, y.gets.get? x.gets.size = some g → g.module = m →
    g.Holds y.released y.analysis (x.analysis.module m).generation
  live : (y.analysis.module m).live = (x.analysis.module m).live
  generation : (y.analysis.module m).generation = (x.analysis.module m).generation

theorem Undisturbed.refl (h : x.Sound) (hm : m < x.analysis.modules.size) : x.Undisturbed x m where
  sound := h
  module_lt := hm
  holds _ hg _ := absurd (Row.lt_of_get? hg) (Nat.lt_irrefl _)
  live := rfl
  generation := rfl

theorem Undisturbed.step (u : x.Undisturbed y m) {e : Event} (he : e.Spares m) :
    x.Undisturbed (y.step e) m := by
  have same := step_spares u.module_lt he
  exact {
    sound := u.sound.step e
    module_lt := (step_steps u.sound e).evolves.later.lt_modules u.module_lt
    holds := by
      rintro g hg rfl
      exact u.sound.holds hg u.holds fun _ => Nat.le_of_eq u.generation.symm
    live := same.1.trans u.live
    generation := same.2.trans u.generation }

theorem Undisturbed.run (h : x.Sound) (hm : m < x.analysis.modules.size) {es : List Event}
    (hes : ∀ e ∈ es, e.Spares m) : x.Undisturbed (x.run es) m :=
  List.foldlRecOn (motive := fun y => x.Undisturbed y m) es _ (.refl h hm) fun _ u e he => u.step (hes e he)

/-- A get that comes next and returns while its module is as it was ends in a service of the generation that the
module has. -/
theorem Undisturbed.isServed (u : x.Undisturbed y m) {e : Event} (he : e.Spares m)
    (r : y.Returns e x.gets.size m s) :
    (y.step e).analysis.IsServed m ((y.step e).analysis.module m).generation s := by
  rw [(u.step he).generation]
  exact r.isServed u.sound u.holds fun _ => Nat.le_of_eq u.generation.symm

theorem Sound.shows (h : x.Sound) (hm : (x.analysis.service s).module = some m) (hl : x.analysis.IsLive s) :
    x.analysis.Shows m s := by
  have hg := ((Analysis.isLive_iff hm).mp hl).2.2
  have hc := h.analysis.context_module hm
  have hcg := h.analysis.context_generation hm
  have hs := h.analysis.shows hc (Nat.le_of_eq (hg.trans hcg.symm))
  exact {
    generation := hg.symm
    classPaths := by
      intro p
      rw [hs.classPaths]
      exact PathSet.names_ofLast
    isPlatform := hs.isPlatform
    bootPaths := by
      have hb := hs.bootPaths
      cases hk : (x.analysis.module m).kind with
      | platform =>
          rw [hk] at hb
          intro p
          rw [hb]
          exact PathSet.names_ofLast
      | plain =>
          rw [hk] at hb
          exact hb }

/-- A get during which its module is there and declares the same all the time returns a live service, and
whenever a service that was returned is live, it shows what its module declares at that moment. -/
theorem live_service_current (c : Config) (env : Environment) (d : Disk) (es : List Event) :
    let x := (ofConfig c env d).run es
    (∀ before e m s, m < x.analysis.modules.size → (x.analysis.module m).live = true →
      (before ++ [e]).head? = some (.start m) → (∀ f ∈ before ++ [e], f.Spares m) →
      (x.run before).Returns e x.gets.size m s → ((x.run before).step e).analysis.IsLive s) ∧
    (∀ m s, x.Returned m s → x.analysis.IsLive s → x.analysis.Shows m s) := by
  intro x
  have h : x.Sound := run_sound (ofConfig_sound c env d) es
  refine ⟨?_, fun m s r hl => h.shows (r.module h) hl⟩
  intro before e m s hm hlive _ hspares r
  obtain ⟨hbefore, he⟩ := List.forall_mem_append.mp hspares
  have u : x.Undisturbed (x.run before) m := .run h hm hbefore
  have spared := List.forall_mem_singleton.mp he
  exact (u.isServed spared r).live ((u.step spared).live.trans hlive) (Nat.le_refl _)

/-- While the platform module is asked for its entries another module comes, changes and goes. -/
def interleaved : List Event :=
  [.start 0, .answer 0, .resume 0, .add { name := "lib", path := ⟨[]⟩ }, .reconfigure 1 {}, .answer 0,
    .resume 0, .detach 1, .answer 0]

theorem live_service_current_of_interleaving :
    (((sample [.add platformModule]).run interleaved).step (.resume 0)).analysis.IsLive 1 ∧
      (sample ([.add platformModule] ++ (interleaved ++ [.resume 0]))).analysis.Shows 0 1 := by
  have spares : ∀ f ∈ interleaved ++ [.resume 0], f.Spares 0 := by simp [interleaved, Event.Spares]
  have live := (live_service_current {} {} (.empty 0) [.add platformModule]).1 interleaved (.resume 0) 0 1
    (by decide +kernel) (by decide +kernel) rfl spares (by decide +kernel)
  have returned : (sample ([.add platformModule] ++ (interleaved ++ [.resume 0]))).Returned 0 1 :=
    ⟨0, by decide +kernel⟩
  refine ⟨live, (live_service_current {} {} (.empty 0) _).2 0 1 returned ?_⟩
  rw [run_append, run_concat]
  exact live

/-! ## The context of a live service -/

theorem Sound.released_context (h : x.Sound) {t : ServiceId} (ht : t ∈ x.released)
    (hm : (x.analysis.context (x.analysis.service t).context).module = some m) :
    (x.analysis.context (x.analysis.service t).context).destroyed = true := by
  cases hk : (x.analysis.service t).module with
  | some k => exact h.analysis.destroyed hk (h.released ht).2
  | none =>
      rw [h.analysis.absent hk, h.analysis.first.2] at hm
      cases hm

/-- The context of a registered live service is neither released nor out of the table, unless somebody has
released a service that was built over the same context. -/
theorem live_context_kept_iff (c : Config) (env : Environment) (d : Disk) (es : List Event) :
    let x := (ofConfig c env d).run es
    ∀ m s, x.analysis.registered.get? m = some s → x.analysis.IsLive s →
      ((x.analysis.context (x.analysis.service s).context).destroyed = false ∧
          x.analysis.cached.get? m = some (x.analysis.service s).context ↔
        ∀ t ∈ x.released, (x.analysis.service t).context ≠ (x.analysis.service s).context) := by
  intro x m s hr hl
  have h : x.Sound := run_sound (ofConfig_sound c env d) es
  have hm := h.analysis.registered hr
  have hc := h.analysis.context_module hm
  constructor
  · rintro ⟨hd, -⟩ t ht he
    have hdt := h.released_context ht (he ▸ hc)
    rw [he, hd] at hdt
    cases hdt
  · intro hne
    have hd : (x.analysis.context (x.analysis.service s).context).destroyed = false := by
      rw [← Bool.not_eq_true]
      intro hd
      rcases h.analysis.spent hr hd with ⟨k, hk, hstale⟩ | ⟨t, ht, -, he⟩
      · obtain ⟨-, hlive, hg⟩ := (Analysis.isLive_iff hm).mp hl
        rw [hc] at hk
        cases hk
        rw [h.analysis.context_generation hm, hg, hlive] at hstale
        rcases hstale with hf | hlt
        · cases hf
        · exact Nat.lt_irrefl _ hlt
      · exact hne t ht he
    exact ⟨hd, h.analysis.kept hc hd⟩

/-- A second get comes and goes while the first one asks for boot entries again, and its service is
released. -/
def nested : List Event :=
  [.add platformModule, .start 0, .answer 0, .resume 0, .answer 0, .resume 0, .start 0, .answer 1, .resume 1,
    .destroy 1, .answer 0, .resume 0]

theorem live_context_kept_iff_of_nested :
    (sample nested).analysis.registered.get? 0 = some 2 ∧ (sample nested).analysis.IsLive 2 ∧
      ¬ (((sample nested).analysis.context ((sample nested).analysis.service 2).context).destroyed = false ∧
        (sample nested).analysis.cached.get? 0 = some ((sample nested).analysis.service 2).context) := by
  have registered : (sample nested).analysis.registered.get? 0 = some 2 := by decide +kernel
  have live : (sample nested).analysis.IsLive 2 := by decide +kernel
  have released : 1 ∈ (sample nested).released := by decide +kernel
  have shared : ((sample nested).analysis.service 1).context = ((sample nested).analysis.service 2).context := by
    decide +kernel
  have kept_iff := live_context_kept_iff {} {} (.empty 0) nested 0 2 registered live
  refine ⟨registered, live, ?_⟩
  intro kept
  exact kept_iff.mp kept 1 released shared

end Session

end ClassScope
