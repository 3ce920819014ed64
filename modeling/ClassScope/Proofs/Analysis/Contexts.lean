import ClassScope.Proofs.Analysis.Parts
import ClassScope.Proofs.Analysis.Session

/-!
# One context for each module

The cache of contexts in use by itself, without services over it. Requests for contexts wait for answers, and
meanwhile modules change and contexts are asked for, put away and released. Whatever a request returns is the
module's one context, and every other context that was returned is released.
-/

namespace ClassScope

abbrev ContextRequest := Ticket ContextId ContextStage

def Desk.contexts : Desk ContextId ContextStage where
  begin m a := (a.beginContext m, a)
  resume := Analysis.resumeContext

structure ContextSession where
  analysis : Analysis
  requests : Row ContextRequest := {}

inductive ContextEvent where
  | add (m : Module)
  | reconfigure (m : ModuleId) (settings : Settings)
  | detach (m : ModuleId)
  | hinder (m : ModuleId) (compile boot sources : Option ModuleError)
  | start (m : ModuleId)
  | answer (request : Nat)
  | resume (request : Nat)
  | purge
  | clear
  | destroy (c : ContextId)
  /-- Files change, or somebody else uses the boot index. -/
  | outside (d : Disk) (boot : BootIndex)

namespace ContextSession

/-- A new cache over a boot index, for a platform's installation. -/
def empty (d : Disk) (boot : BootIndex) (home : Option Path) : ContextSession :=
  { analysis := { disk := d, boot, home } }

def update (f : Analysis → Analysis) (x : ContextSession) : ContextSession :=
  { x with analysis := f x.analysis }

def step (x : ContextSession) : ContextEvent → ContextSession
  | .add m => x.update (Analysis.addModule m)
  | .reconfigure m settings => x.update (Analysis.reconfigure m settings)
  | .detach m => x.update (Analysis.detach m)
  | .hinder m compile boot sources => x.update fun a =>
      { a with modules := a.modules.modify m (Module.hinder compile boot sources) }
  | .start m =>
      if m < x.analysis.modules.size then
        { x with requests := x.requests.push { module := m, progress := x.analysis.beginContext m } }
      else x
  | .answer k =>
      match x.requests.get? k with
      | some ⟨m, .asks q stage, _⟩ =>
          let reply := x.analysis.answer q
          { x with requests := x.requests.modify k fun _ => { module := m, progress := .asks q stage, reply } }
      | _ => x
  | .resume k =>
      match x.requests.get? k with
      | some ⟨m, .asks _ stage, some reply⟩ =>
          let (progress, analysis) := x.analysis.resumeContext m stage reply
          { x with analysis, requests := x.requests.modify k fun _ => { module := m, progress } }
      | _ => x
  | .purge => x.update fun a => a.purgeContexts.2
  | .clear => x.update Analysis.clearContexts
  | .destroy c => x.update (Analysis.destroyContext c)
  | .outside disk boot => x.update fun a => { a with disk, boot }

def run (x : ContextSession) (es : List ContextEvent) : ContextSession :=
  es.foldl step x

/-- Some request for a module has returned a context, maybe long ago. -/
def Returned (x : ContextSession) (m : ModuleId) (c : ContextId) : Prop :=
  x.requests.Returned m c

/-- An event makes a request return a context. -/
def Returns (x : ContextSession) (e : ContextEvent) (k : Nat) (m : ModuleId) (c : ContextId) : Prop :=
  x.requests.Returns (x.step e).requests k m c

instance (x : ContextSession) (e : ContextEvent) (k : Nat) (m : ModuleId) (c : ContextId) :
    Decidable (x.Returns e k m c) :=
  inferInstanceAs (Decidable (x.requests.Returns _ k m c))

/-- A request that started last has failed, and nothing else has happened since. -/
def FailsAlone (x : ContextSession) (m : ModuleId) (es : List ContextEvent) : Prop :=
  (∀ e ∈ es, e = .answer x.requests.size ∨ e = .resume x.requests.size) ∧
    ∃ r ∈ ((x.step (.start m)).run es).requests.get? x.requests.size, r.Failed

theorem desk_step (x : ContextSession) (e : ContextEvent) :
    Desk.contexts.Step x.analysis x.requests (x.step e).analysis (x.step e).requests := by
  cases e with
  | start m =>
      simp only [step]
      split
      case isTrue lt => exact .start lt
      case isFalse => exact .aside _
  | answer k =>
      simp only [step]
      split
      case h_1 waits => exact .answer waits
      case h_2 => exact .aside _
  | resume k =>
      simp only [step]
      split
      case h_1 waits => exact .resume waits
      case h_2 => exact .aside _
  | _ => exact .aside _

end ContextSession

/-! ## Releases where nothing is registered -/

namespace Analysis

variable {rs : List ServiceId} {a b : Analysis}

theorem destroyContexts_with_epoch (a : Analysis) (cs : List ContextId) (epoch : Nat) :
    ({ a with epoch }).destroyContexts cs = { a.destroyContexts cs with epoch } := by
  induction cs generalizing a with
  | nil => rfl
  | cons c cs ih => exact ih (a.destroyContext c)

/-- Without services any context may be released and forgotten, as in a teardown. -/
theorem destroyContexts_sound (h : a.Sound rs) (unregistered : ∀ m, a.registered.get? m = none)
    {cached : Table ModuleId ContextId} {cs : List ContextId}
    (kept : ∀ {m c}, cached.get? m = some c → a.cached.get? m = some c)
    (dropped : ∀ {m c}, a.cached.get? m = some c → c ∈ cs ∨ cached.get? m = some c) :
    (({ a with cached }).destroyContexts cs).Sound rs ∧ a.Persists (({ a with cached }).destroyContexts cs) := by
  have drop : a.Drop rs (a.epoch + 1) a.registered cached [] cs := {
    epoch_le := Nat.le_succ _
    registered := id
    forgotten := fun hr _ => Or.inr hr
    cached := kept
    dropped := dropped
    lt := nofun
    service_spent := nofun
    context_spent := fun _ _ _ => Or.inr ⟨Nat.lt_succ_self _, unregistered⟩ }
  have e := (drop.release h).evolves h
  have he : ({ a with epoch := a.epoch + 1, registered := a.registered, cached }).destroyServices [] =
      { ({ a with cached } : Analysis) with epoch := a.epoch + 1 } := rfl
  rw [he, destroyContexts_with_epoch] at e
  have s := e.sound
  have l := e.later.toPersists
  exact ⟨⟨s.registered, s.cached, s.module_lt, s.generation_le, s.shows, s.context_module, s.context_generation,
    s.live, s.kept, s.destroyed, s.first, s.absent, s.spent⟩, l.modules, l.contexts, l.services⟩

end Analysis

/-! ## Steps -/

namespace ContextRequest

variable {rs : List ServiceId} {a b : Analysis} {since : Nat} {r : ContextRequest}

/-- What is known of a request: a context that was returned is of the module asked for, and a waiting request
can go on. -/
def Holds (a : Analysis) (since : Nat) (r : ContextRequest) : Prop :=
  match r.progress with
  | .found c => (a.context c).module = some r.module
  | .failed _ => True
  | .asks q stage => r.module < a.modules.size ∧ since ≤ (a.module r.module).generation ∧
      stage.Holds a r.module since q r.reply

theorem Holds.mono (h : r.Holds a since) (l : a.Persists b) : r.Holds b since := by
  obtain ⟨m, progress, reply⟩ := r
  cases progress with
  | failed _ => trivial
  | found c => exact (l.context_module_eq (Analysis.lt_of_context h)).trans h
  | asks q stage =>
      obtain ⟨hm, hs, hst⟩ := h
      exact ⟨l.lt_modules hm, Nat.le_trans hs (l.module hm).generation_le, hst.mono (l.module hm)⟩

end ContextRequest

theorem ContextProgress.Holds.request {a : Analysis} {m : ModuleId} {since : Nat} {progress : ContextProgress}
    (h : progress.Holds a m since) (hm : m < a.modules.size) (hs : since ≤ (a.module m).generation) :
    ContextRequest.Holds a since { module := m, progress } := by
  cases progress with
  | found c => exact Analysis.IsUsable.module h
  | failed _ => trivial
  | asks q stage => exact ⟨hm, hs, h⟩

namespace ContextSession

variable {x y : ContextSession} {e : ContextEvent} {k since : Nat} {m : ModuleId} {c : ContextId}

structure Sound (x : ContextSession) : Prop where
  analysis : x.analysis.Sound []
  unregistered : ∀ m, x.analysis.registered.get? m = none
  requests : ∀ {k r}, x.requests.get? k = some r → r.Holds x.analysis 0

/-- What a step does to the analysis of a sound session. -/
structure Steps (a b : Analysis) : Prop where
  sound : b.Sound []
  persists : a.Persists b
  unregistered : ∀ m, b.registered.get? m = none

theorem Sound.releasing (h : x.Sound) {b : Analysis} (s : b.Sound [] ∧ x.analysis.Persists b)
    (registered : b.registered = x.analysis.registered) : Steps x.analysis b :=
  ⟨s.1, s.2, fun m => (congrArg (·.get? m) registered).trans (h.unregistered m)⟩

theorem Sound.evolving (h : x.Sound) {b : Analysis} (e : x.analysis.Evolves [] b)
    (registered : b.registered = x.analysis.registered) : Steps x.analysis b :=
  h.releasing ⟨e.sound, e.later.toPersists⟩ registered

/-- A request that begins or goes on leaves a sound analysis behind, and what it has come to holds, since any
generation that was there when it started. -/
theorem Sound.goes (h : x.Sound) {r : ContextProgress × Analysis} (g : Desk.contexts.Goes x.analysis x.requests k m r)
    (old : ∀ f, x.requests.get? k = some f → f.module = m → f.Holds x.analysis since)
    (new : k = x.requests.size → since ≤ (x.analysis.module m).generation) :
    Steps x.analysis r.2 ∧ r.1.Holds r.2 m since ∧ ContextRequest.Holds r.2 since { module := m, progress := r.1 } := by
  cases g with
  | start hk lt =>
      have holds := Analysis.beginContext_holds h.analysis (new hk)
      exact ⟨h.evolving (.refl h.analysis) rfl, holds, holds.request lt (new hk)⟩
  | @resume q stage reply waits =>
      obtain ⟨hm, hs, hst⟩ : m < x.analysis.modules.size ∧ since ≤ (x.analysis.module m).generation ∧
        stage.Holds x.analysis m since q (some reply) := old _ waits rfl
      obtain ⟨e, holds⟩ := Analysis.resumeContext_evolves h.analysis hm hs hst
      have keeps := Analysis.resumeContext_keeps x.analysis m stage reply
      refine ⟨⟨e.sound, e.later.toPersists, ?_⟩, holds, ?_⟩
      · intro i
        rw [Option.eq_none_iff_forall_ne_some]
        intro s hi
        have hold := (keeps.registered hi).resolve_right id
        rw [h.unregistered] at hold
        cases hold
      · exact holds.request (e.later.lt_modules hm) (Nat.le_trans hs (e.later.module hm).generation_le)

theorem Sound.goes_steps (h : x.Sound) {r : ContextProgress × Analysis}
    (g : Desk.contexts.Goes x.analysis x.requests k m r) : Steps x.analysis r.2 :=
  (h.goes g (fun _ hf _ => h.requests hf) fun _ => Nat.zero_le _).1

theorem step_steps (h : x.Sound) (e : ContextEvent) : Steps x.analysis (x.step e).analysis := by
  have same : Steps x.analysis x.analysis := h.evolving (.refl h.analysis) rfl
  have modify (m : ModuleId) (f : Module → Module) (hf : ∀ u : Module, u.Later (f u)) :
      Steps x.analysis { x.analysis with modules := x.analysis.modules.modify m f } :=
    h.evolving (Analysis.evolves_modules h.analysis (.modify Module.Later.refl _ _ hf)) rfl
  cases e with
  | add m => exact h.evolving (Analysis.evolves_modules h.analysis (.push Module.Later.refl _ _)) rfl
  | reconfigure m settings => exact modify m _ (.reconfigure settings)
  | detach m => exact modify m _ .detach
  | hinder m c b s => exact modify m _ fun u => ⟨Nat.le_refl _, fun _ => rfl, id⟩
  | start m =>
      simp only [step]
      split
      · exact same
      · exact same
  | answer k =>
      simp only [step]
      split
      · exact same
      · exact same
  | resume k =>
      simp only [step]
      split
      case h_1 waits => exact h.goes_steps (.resume waits)
      case h_2 => exact same
  | purge =>
      refine h.evolving (Analysis.purgeContexts_evolves h.analysis) ?_
      simp only [step, update, Analysis.purgeContexts]
      rw [Analysis.destroyContexts_eq]
  | clear =>
      refine h.releasing (Analysis.destroyContexts_sound h.analysis h.unregistered (fun hc => by cases hc)
        fun hc => Or.inl (Table.mem_values.mpr ⟨_, hc⟩)) ?_
      simp only [step, update, Analysis.clearContexts]
      rw [Analysis.destroyContexts_eq]
  | destroy c =>
      have released : (x.analysis.destroyContexts [c]).Sound [] ∧
          x.analysis.Persists (x.analysis.destroyContexts [c]) :=
        Analysis.destroyContexts_sound h.analysis h.unregistered id Or.inr
      exact h.releasing released rfl
  | outside disk boot => exact h.evolving (Analysis.Scans.evolves h.analysis ⟨_, _, _, _, rfl⟩) rfl

/-! ## Runs -/

/-- A request goes on holding, since any generation that was there when it started. -/
theorem Sound.holds (h : x.Sound) {r : ContextRequest} (hr : (x.step e).requests.get? k = some r)
    (old : ∀ f, x.requests.get? k = some f → f.module = r.module → f.Holds x.analysis since)
    (new : k = x.requests.size → since ≤ (x.analysis.module r.module).generation) :
    r.Holds (x.step e).analysis since := by
  have t := step_steps h e
  cases (desk_step x e).becomes hr with
  | same hk => exact (old _ hk rfl).mono t.persists
  | answered hk eq =>
      obtain ⟨hm, hs, hst⟩ := (old _ hk rfl).mono t.persists
      rw [← eq]
      exact ⟨hm, hs, hst.answer⟩
  | goes g => exact (h.goes g old new).2.2

theorem Sound.step (h : x.Sound) (e : ContextEvent) : (x.step e).Sound where
  analysis := (step_steps h e).sound
  unregistered := (step_steps h e).unregistered
  requests hr := h.holds hr (fun _ hf _ => h.requests hf) fun _ => Nat.zero_le _

theorem run_sound (h : x.Sound) (es : List ContextEvent) : (x.run es).Sound :=
  List.foldlRecOn (motive := Sound) es _ h fun _ h e _ => h.step e

theorem empty_sound (d : Disk) (boot : BootIndex) (home : Option Path) : (empty d boot home).Sound where
  analysis := Analysis.sound_of_nothing_made rfl rfl rfl rfl rfl rfl
  unregistered _ := rfl
  requests hr := nomatch hr

theorem Returned.module (h : x.Sound) (r : x.Returned m c) : (x.analysis.context c).module = some m := by
  obtain ⟨k, r, hk, rfl, hfound⟩ := r
  have hr := h.requests hk
  rw [ContextRequest.Holds, hfound] at hr
  exact hr

theorem Returns.isUsable (h : x.Sound) (r : x.Returns e k m c)
    (old : ∀ f, x.requests.get? k = some f → f.module = m → f.Holds x.analysis since)
    (new : k = x.requests.size → since ≤ (x.analysis.module m).generation) :
    (x.step e).analysis.IsUsable m since c :=
  (h.goes ((desk_step x e).goes_of_returns r) old new).2.1

/-! ## Requests during which the module stays as it is -/

theorem generation_step (hm : m < x.analysis.modules.size) (he : ∀ settings, e ≠ .reconfigure m settings) :
    ((x.step e).analysis.module m).generation = (x.analysis.module m).generation := by
  have same {a : Analysis} (h : a.modules = x.analysis.modules) :
      (a.module m).generation = (x.analysis.module m).generation := by
    rw [Analysis.module, h, Analysis.module]
  have modify {i : ModuleId} {f : Module → Module} (hf : i = m → ∀ u, (f u).generation = u.generation) :
      ((x.analysis.modules.modify i f).get m).generation = (x.analysis.module m).generation :=
    Row.apply_get_modify Module.generation hf
  cases e with
  | add u =>
      have hu : (x.analysis.modules.push u).get m = x.analysis.module m := Row.get_push_of_ne (Nat.ne_of_lt hm)
      exact congrArg Module.generation hu
  | reconfigure i settings => exact modify fun hi => absurd rfl (hi ▸ he settings)
  | detach i => exact modify fun _ _ => rfl
  | hinder i c b s => exact modify fun _ _ => rfl
  | start i =>
      simp only [step]
      split
      · rfl
      · rfl
  | answer i =>
      simp only [step]
      split
      · rfl
      · rfl
  | resume i =>
      simp only [step]
      split
      · exact same (Analysis.modules_resumeContext _ _ _ _)
      · rfl
  | purge => exact same (by simp [step, update, Analysis.purgeContexts])
  | clear => exact same (by simp [step, update, Analysis.clearContexts])
  | destroy i => rfl
  | outside d boot => rfl

/-- All along from a session to a later one a module was not configured anew, and so a request for it that came
next at the first one holds since then. -/
structure Undisturbed (x y : ContextSession) (m : ModuleId) : Prop where
  sound : y.Sound
  module_lt : m < y.analysis.modules.size
  holds : ∀ r, y.requests.get? x.requests.size = some r → r.module = m →
    r.Holds y.analysis (x.analysis.module m).generation
  generation : (y.analysis.module m).generation = (x.analysis.module m).generation

theorem Undisturbed.refl (h : x.Sound) (hm : m < x.analysis.modules.size) : x.Undisturbed x m where
  sound := h
  module_lt := hm
  holds _ hr _ := absurd (Row.lt_of_get? hr) (Nat.lt_irrefl _)
  generation := rfl

theorem Undisturbed.step (u : x.Undisturbed y m) (he : ∀ settings, e ≠ .reconfigure m settings) :
    x.Undisturbed (y.step e) m where
  sound := u.sound.step e
  module_lt := (step_steps u.sound e).persists.lt_modules u.module_lt
  holds := by
    rintro r hr rfl
    exact u.sound.holds hr u.holds fun _ => Nat.le_of_eq u.generation.symm
  generation := (generation_step u.module_lt he).trans u.generation

theorem Undisturbed.run (h : x.Sound) (hm : m < x.analysis.modules.size) {es : List ContextEvent}
    (hes : ∀ e ∈ es, ∀ settings, e ≠ .reconfigure m settings) : x.Undisturbed (x.run es) m :=
  List.foldlRecOn (motive := fun y => x.Undisturbed y m) es _ (.refl h hm) fun _ u e he => u.step (hes e he)

/-- A request that comes next and returns without its module being configured anew ends in a context of the
generation that the module has. -/
theorem Sound.generation_of_returns (h : x.Sound) {before : List ContextEvent} (hm : m < x.analysis.modules.size)
    (hes : ∀ f ∈ before ++ [e], ∀ settings, f ≠ .reconfigure m settings)
    (r : (x.run before).Returns e x.requests.size m c) :
    (((x.run before).step e).analysis.context c).generation =
      (((x.run before).step e).analysis.module m).generation := by
  obtain ⟨hbefore, he⟩ := List.forall_mem_append.mp hes
  have u : x.Undisturbed (x.run before) m := .run h hm hbefore
  have u' := u.step (List.forall_mem_singleton.mp he)
  have usable : ((x.run before).step e).analysis.IsUsable m (x.analysis.module m).generation c :=
    r.isUsable u.sound u.holds fun _ => Nat.le_of_eq u.generation.symm
  exact Nat.le_antisymm (u'.sound.analysis.generation_le usable.module) (u'.generation ▸ usable.since_le)

/-! ## Requests that fail -/

theorem step_alone (he : e = .answer k ∨ e = .resume k) :
    (x.step e).analysis = x.analysis ∨ ∃ r ∈ (x.step e).requests.get? k, ∃ c, r.progress = .found c := by
  rcases he with rfl | rfl
  · left
    simp only [step]
    split
    · rfl
    · rfl
  · simp only [step]
    split
    case h_1 m q stage reply hk =>
        have hstep := Analysis.resumeContext_step x.analysis m stage reply
        generalize x.analysis.resumeContext m stage reply = r at hstep
        cases hstep with
        | stays _ => exact Or.inl rfl
        | @keeps b f scans module destroyed =>
            let found : ContextRequest := { module := m, progress := .found (b.keepContext m f).1 }
            have hget : (x.requests.modify k fun _ => found).get? k = some found := by
              rw [Row.get?_modify, if_pos rfl, hk]
              rfl
            exact Or.inr ⟨found, hget, _, rfl⟩
    case h_2 => exact Or.inl rfl

/-- A request on its own changes nothing before it returns. -/
theorem unchanged_or_found {es : List ContextEvent} (hes : ∀ e ∈ es, e = .answer k ∨ e = .resume k) :
    (x.run es).analysis = x.analysis ∨ ∃ r ∈ (x.run es).requests.get? k, ∃ c, r.progress = .found c := by
  refine List.foldlRecOn (motive := fun y : ContextSession => y.analysis = x.analysis ∨
    ∃ r ∈ y.requests.get? k, ∃ c, r.progress = .found c) es _ (Or.inl rfl) ?_
  rintro y (same | ⟨r, hk, c, hr⟩) e he
  · rcases step_alone (x := y) (hes e he) with kept | found
    · exact Or.inl (kept.trans same)
    · exact Or.inr found
  · have stays := (desk_step y e).get?_of_not_waits hk (Ticket.Found.not_waits ⟨rfl, hr⟩)
    exact Or.inr ⟨r, stays, c, hr⟩

theorem FailsAlone.unchanged {es : List ContextEvent} (h : x.FailsAlone m es) :
    ((x.step (.start m)).run es).analysis = x.analysis := by
  obtain ⟨hes, r, hk, hr⟩ := h
  have hstart : (x.step (.start m)).analysis = x.analysis := by
    simp only [step]
    split
    · rfl
    · rfl
  rcases unchanged_or_found hes with hsame | ⟨r', hk', c, hr'⟩
  · exact hsame.trans hstart
  · cases hk.symm.trans hk'
    rw [Ticket.Failed, hr'] at hr
    exact hr.elim

/-! ## All together -/

/-- A request returns the module's one context, which nobody has released, and it is of the module's generation
unless the module was configured anew meanwhile. Of all contexts ever returned only the modules' present ones
are not released. A request that fails on its own leaves everything as it was. -/
theorem one_context_for_each_module (d : Disk) (boot : BootIndex) (home : Option Path) (es : List ContextEvent) :
    let x := (empty d boot home).run es
    (∀ e k m c, x.Returns e k m c →
      ((x.step e).analysis.context c).destroyed = false ∧ (x.step e).analysis.cached.get? m = some c) ∧
    (∀ before e m c, m < x.analysis.modules.size → (before ++ [e]).head? = some (.start m) →
      (∀ f ∈ before ++ [e], ∀ settings, f ≠ .reconfigure m settings) →
      (x.run before).Returns e x.requests.size m c →
      (((x.run before).step e).analysis.context c).generation =
        (((x.run before).step e).analysis.module m).generation) ∧
    (∀ m c, x.Returned m c → x.analysis.cached.get? m ≠ some c → (x.analysis.context c).destroyed = true) ∧
    (∀ m fs, x.FailsAlone m fs → ((x.step (.start m)).run fs).analysis = x.analysis) := by
  intro x
  have h : x.Sound := run_sound (empty_sound d boot home) es
  refine ⟨?_, fun before e m c hm _ => h.generation_of_returns hm, ?_, fun m fs hf => hf.unchanged⟩
  · intro e k m c r
    have usable : (x.step e).analysis.IsUsable m 0 c :=
      r.isUsable h (fun _ hf _ => h.requests hf) fun _ => Nat.zero_le _
    have hy := h.step e
    exact ⟨usable.destroyed, hy.analysis.kept usable.module usable.destroyed⟩
  · intro m c r hne
    rw [← Bool.not_eq_false]
    exact fun hd => hne (h.analysis.kept (r.module h) hd)

def used (es : List ContextEvent) : ContextSession :=
  (empty (.empty 0) {} none).run es

/-- Two requests overlap, the second one returns, and its context is put away while the first one waits for the
boot entries. -/
def overlapping : List ContextEvent :=
  [.start 0, .start 0, .answer 1, .resume 1, .answer 1, .resume 1, .answer 0, .resume 0, .clear, .answer 0]

/-- Then the module does not tell its boot entries any more, and a holder releases its context. -/
def closing : List ContextEvent :=
  .add platformModule :: overlapping ++
    [.resume 0, .hinder 0 none (some (.unavailable "app" "closed")) none, .destroy 2]

/-- What is done for a request on its own, the third one. -/
def alone : List ContextEvent :=
  [.answer 2, .resume 2, .answer 2, .resume 2]

theorem contexts_of_overlapping :
    (((used [.add platformModule]).run overlapping).step (.resume 0)).analysis.cached.get? 0 = some 2 ∧
      ((((used [.add platformModule]).run overlapping).step (.resume 0)).analysis.context 2).generation =
        ((((used [.add platformModule]).run overlapping).step (.resume 0)).analysis.module 0).generation ∧
      ((used closing).analysis.context 1).destroyed = true ∧
      (((used closing).step (.start 0)).run alone).analysis = (used closing).analysis := by
  obtain ⟨kept, -, -, -⟩ := one_context_for_each_module (.empty 0) {} none (.add platformModule :: overlapping)
  obtain ⟨-, current, -, -⟩ := one_context_for_each_module (.empty 0) {} none [.add platformModule]
  obtain ⟨-, -, released, unchanged⟩ := one_context_for_each_module (.empty 0) {} none closing
  have returns : ((used [.add platformModule]).run overlapping).Returns (.resume 0) 0 0 2 := by decide +kernel
  have steady : ∀ f ∈ overlapping ++ [.resume 0], ∀ settings, f ≠ .reconfigure 0 settings := by
    simp [overlapping]
  have size : (used closing).requests.size = 2 := by decide +kernel
  have fails : (used closing).FailsAlone 0 alone := by
    refine ⟨?_, by decide +kernel⟩
    rw [size]
    simp [alone]
  refine ⟨(kept (.resume 0) 0 0 2 returns).2, ?_, ?_, unchanged 0 alone fails⟩
  · exact current overlapping (.resume 0) 0 2 (by decide +kernel) rfl steady returns
  · exact released 0 1 ⟨1, by decide +kernel⟩ (by decide +kernel)

end ContextSession

end ClassScope
