import ClassScope.Proofs.Analysis.Invariant

/-!
# The kinds of changes

Every operation is made of a few kinds of changes: scans, changes of modules, releases, and contexts or
services that are added. Each kind keeps the invariant.
-/

namespace ClassScope.Analysis

variable {rs : List ServiceId} {a b : Analysis}

/-! ## Scans -/

/-- The states differ at most in what was scanned and counted. -/
def Scans (a b : Analysis) : Prop :=
  ∃ disk boot dependencies stats, b = { a with disk, boot, dependencies, stats }

theorem Scans.evolves (h : a.Sound rs) (hs : a.Scans b) : a.Evolves rs b := by
  obtain ⟨disk, boot, dependencies, stats, rfl⟩ := hs
  exact {
    sound := ⟨h.registered, h.cached, h.module_lt, h.generation_le, h.shows, h.context_module,
      h.context_generation, h.live, h.kept, h.destroyed, h.first, h.absent, h.spent⟩
    later := { Persists.refl a with
      epoch_le := Nat.le_refl _
      spent := fun _ hd => Or.inl hd } }

theorem Scans.trans {c : Analysis} (h₁ : a.Scans b) (h₂ : b.Scans c) : a.Scans c := by
  obtain ⟨_, _, _, _, rfl⟩ := h₁
  obtain ⟨_, _, _, _, rfl⟩ := h₂
  exact ⟨_, _, _, _, rfl⟩

theorem updateBoot_scans (a : Analysis) (paths : List Path) : a.Scans (a.updateBoot paths) :=
  ⟨_, _, _, _, rfl⟩

theorem bootClasses_scans (a : Analysis) (paths : List Path) : a.Scans (a.bootClasses paths).2 :=
  ⟨_, _, _, _, rfl⟩

theorem dependencyClasses_scans (a : Analysis) (paths : List Path) :
    a.Scans (a.dependencyClasses paths).2 :=
  ⟨_, _, _, _, rfl⟩

theorem moduleBootClasses_scans (a : Analysis) (declared : Option (List Path)) :
    a.Scans (a.moduleBootClasses declared).2 := by
  cases declared with
  | some paths => exact (updateBoot_scans a _).trans (bootClasses_scans _ _)
  | none => exact bootClasses_scans a _

theorem localClasses_scans (a : Analysis) (sources : ClassNameSet) (outputs : List Path) :
    a.Scans (a.localClasses sources outputs).2 := by
  unfold localClasses
  split
  · exact ⟨_, _, _, _, rfl⟩
  · exact ⟨_, _, _, _, rfl⟩

theorem types_scans (a : Analysis) (s : ServiceId) (sources : Except ModuleError ClassNameSet) :
    a.Scans (a.types s sources).2 := by
  cases hm : (a.service s).module with
  | none => simp only [types, hm]; exact ⟨_, _, _, _, rfl⟩
  | some m =>
      cases sources with
      | error _ => simp only [types, hm]; exact ⟨_, _, _, _, rfl⟩
      | ok sources => simp only [types, hm]; exact localClasses_scans a _ _

/-! ## Modules -/

theorem evolves_modules (h : a.Sound rs) {ms : Row Module} (g : a.modules.Grows Module.Later ms) :
    a.Evolves rs { a with modules := ms } := by
  have l : a.Later rs { a with modules := ms } := { Persists.refl a with
    modules := g
    epoch_le := Nat.le_refl _
    spent := fun _ hd => Or.inl hd }
  exact {
    later := l
    sound := {
      registered := h.registered
      cached := h.cached
      module_lt := fun hm => l.lt_modules (h.module_lt hm)
      generation_le := fun hm =>
        Nat.le_trans (h.generation_le hm) (l.module (h.module_lt hm)).generation_le
      shows := by
        intro c m hm hg
        have hl := l.module (h.module_lt hm)
        have hs := h.shows hm (Nat.le_trans hl.generation_le hg)
        have he := hl.settings_eq (Nat.le_trans hg (h.generation_le hm))
        refine ⟨?_, ?_, ?_⟩
        · rw [he]; exact hs.classPaths
        · rw [Module.kind, he]; exact hs.isPlatform
        · rw [Module.kind, he]; exact hs.bootPaths
      context_module := h.context_module
      context_generation := h.context_generation
      live := fun hm hl => h.live hm (l.isLive h (lt_of_service hm) hl)
      kept := h.kept
      destroyed := h.destroyed
      first := h.first
      absent := h.absent
      spent := fun hr hd => l.spent_mono h (h.spent hr hd) } }

/-! ## Releases -/

/-- Contexts and services may be released and forgotten, and boot classes read anew: released services
release their contexts, only released contexts and services that are no longer live are forgotten, and only
spent contexts are released unless everything is torn down. -/
structure Release (rs : List ServiceId) (a b : Analysis) : Prop where
  persists : a.Persists b
  modules : b.modules = a.modules
  contexts_size : b.contexts.size = a.contexts.size
  services_size : b.services.size = a.services.size
  epoch_le : a.epoch ≤ b.epoch
  registered : ∀ {m s}, b.registered.get? m = some s → a.registered.get? m = some s
  forgotten : ∀ {m s}, a.registered.get? m = some s → a.IsLive s → b.IsLive s →
    b.registered.get? m = some s
  cached : ∀ {m c}, b.cached.get? m = some c → a.cached.get? m = some c
  dropped : ∀ {m c}, a.cached.get? m = some c → (b.context c).destroyed = false →
    b.cached.get? m = some c
  destroyed : ∀ {s m}, (a.service s).module = some m → (b.service s).destroyed = true →
    (b.context (a.service s).context).destroyed = true
  spent : ∀ {c}, c < a.contexts.size → (b.context c).destroyed = true →
    (a.context c).destroyed = true ∨ a.Spent rs c ∨
      a.epoch < b.epoch ∧ ∀ m, b.registered.get? m = none

theorem Release.later (h : a.Sound rs) (r : a.Release rs b) : a.Later rs b := { r.persists with
  epoch_le := r.epoch_le
  spent := by
    intro c hc hd
    rcases r.spent hc hd with ha | hs | ⟨he, -⟩
    · exact Or.inl ha
    · exact Or.inr (Or.inl (r.persists.spent_mono h hs))
    · exact Or.inr (Or.inr he) }

theorem Release.module_eq (r : a.Release rs b) (m : ModuleId) : b.module m = a.module m := by
  rw [module, r.modules, module]

theorem Release.of_context (r : a.Release rs b) {c : ContextId} {m : ModuleId}
    (hm : (b.context c).module = some m) : c < a.contexts.size ∧ (a.context c).module = some m := by
  have hlt : c < a.contexts.size := r.contexts_size ▸ lt_of_context hm
  exact ⟨hlt, (r.persists.context_module_eq hlt).symm.trans hm⟩

theorem Release.of_service (r : a.Release rs b) {s : ServiceId} {m : ModuleId}
    (hm : (b.service s).module = some m) : s < a.services.size ∧ (a.service s).module = some m := by
  have hlt : s < a.services.size := r.services_size ▸ lt_of_service hm
  exact ⟨hlt, (r.persists.service_module_eq hlt).symm.trans hm⟩

theorem Release.evolves (h : a.Sound rs) (r : a.Release rs b) : a.Evolves rs b := by
  have l := r.later h
  refine ⟨?_, l⟩
  exact {
    registered := by
      intro m s hr
      have hm := h.registered (r.registered hr)
      exact (l.service_module_eq (lt_of_service hm)).trans hm
    cached := by
      intro m c hc
      have hm := h.cached (r.cached hc)
      exact (l.context_module_eq (lt_of_context hm)).trans hm
    module_lt := fun hm => l.lt_modules (h.module_lt (r.of_context hm).2)
    generation_le := by
      intro c m hm
      obtain ⟨hlt, hma⟩ := r.of_context hm
      rw [l.context_generation_eq hlt, r.module_eq]
      exact h.generation_le hma
    shows := by
      intro c m hm hg
      obtain ⟨hlt, hma⟩ := r.of_context hm
      rw [l.context_generation_eq hlt, r.module_eq] at hg
      have hs := h.shows hma hg
      rw [r.module_eq, (l.context hlt).eq]
      exact ⟨hs.classPaths, hs.isPlatform, hs.bootPaths⟩
    context_module := by
      intro s m hm
      obtain ⟨hlt, hma⟩ := r.of_service hm
      have hc := h.context_module hma
      rw [l.service_context_eq hlt, l.context_module_eq (lt_of_context hc)]
      exact hc
    context_generation := by
      intro s m hm
      obtain ⟨hlt, hma⟩ := r.of_service hm
      have hc := h.context_module hma
      rw [l.service_context_eq hlt, l.context_generation_eq (lt_of_context hc),
        l.service_generation_eq hlt]
      exact h.context_generation hma
    live := by
      intro s m hm hl
      obtain ⟨hlt, hma⟩ := r.of_service hm
      have hla := l.isLive h hlt hl
      exact r.forgotten (h.live hma hla) hla hl
    kept := by
      intro c m hm hd
      obtain ⟨hlt, hma⟩ := r.of_context hm
      exact r.dropped (h.kept hma ((l.context hlt).undestroyed hd)) hd
    destroyed := by
      intro s m hm hd
      obtain ⟨hlt, hma⟩ := r.of_service hm
      rw [l.service_context_eq hlt]
      exact r.destroyed hma hd
    first := by
      rw [r.contexts_size, l.context_module_eq h.first.1]
      exact h.first
    absent := by
      intro s hm
      rcases Nat.lt_or_ge s a.services.size with hlt | hge
      · rw [l.service_context_eq hlt]
        exact h.absent ((l.service_module_eq hlt).symm.trans hm)
      · rw [service, Row.get_of_size_le (by rw [r.services_size]; exact hge)]
        rfl
    spent := by
      intro m s hr hd
      have hra := r.registered hr
      have hma := h.registered hra
      have hlt := lt_of_context (h.context_module hma)
      rw [l.service_context_eq (lt_of_service hma)] at hd ⊢
      rcases r.spent hlt hd with ha | hs | ⟨-, hn⟩
      · exact l.spent_mono h (h.spent hra ha)
      · exact l.spent_mono h hs
      · rw [hn] at hr
        cases hr }

/-! ## New contexts and services -/

def addContext (m : ModuleId) (x : FileContext) (a : Analysis) : Analysis :=
  { a with contexts := a.contexts.push x, cached := a.cached.put m a.contexts.size }

def addService (m : ModuleId) (x : Service) (a : Analysis) : Analysis :=
  { a with services := a.services.push x, registered := a.registered.put m a.services.size }

theorem context_addContext_of_ne {m : ModuleId} {x : FileContext} {c : ContextId}
    (h : c ≠ a.contexts.size) : (a.addContext m x).context c = a.context c :=
  Row.get_push_of_ne h

@[simp] theorem context_addContext_self (m : ModuleId) (x : FileContext) :
    (a.addContext m x).context a.contexts.size = x :=
  Row.get_push_self _ _

theorem service_addService_of_ne {m : ModuleId} {x : Service} {s : ServiceId}
    (h : s ≠ a.services.size) : (a.addService m x).service s = a.service s :=
  Row.get_push_of_ne h

@[simp] theorem service_addService_self (m : ModuleId) (x : Service) :
    (a.addService m x).service a.services.size = x :=
  Row.get_push_self _ _

/-- What is new about a context that is added: it is for a module that is there, and it holds what the
module declares unless it is of an earlier generation. -/
structure FreshContext (a : Analysis) (m : ModuleId) (x : FileContext) : Prop where
  module_lt : m < a.modules.size
  module : x.module = some m
  destroyed : x.destroyed = false
  generation_le : x.generation ≤ (a.module m).generation
  shows : (a.module m).generation ≤ x.generation → x.Shows (a.module m)

theorem addContext_later (rs : List ServiceId) (a : Analysis) (m : ModuleId) (x : FileContext) :
    a.Later rs (a.addContext m x) := { Persists.refl a with
  contexts := .push FileContext.Later.refl _ _
  epoch_le := Nat.le_refl _
  spent := by
    intro c hc hd
    rw [context_addContext_of_ne (Nat.ne_of_lt hc)] at hd
    exact Or.inl hd }

theorem FreshContext.of_context {m k : ModuleId} {x : FileContext} {c : ContextId} (f : a.FreshContext m x)
    (hk : ((a.addContext m x).context c).module = some k) :
    c = a.contexts.size ∧ k = m ∨ c ≠ a.contexts.size ∧ (a.context c).module = some k := by
  by_cases hc : c = a.contexts.size
  · subst hc
    rw [context_addContext_self, f.module] at hk
    exact Or.inl ⟨rfl, (Option.some.inj hk).symm⟩
  · rw [context_addContext_of_ne hc] at hk
    exact Or.inr ⟨hc, hk⟩

theorem addContext_evolves (h : a.Sound rs) {m : ModuleId} {x : FileContext} (f : a.FreshContext m x)
    (before : ∀ c, a.cached.get? m = some c → (a.context c).destroyed = true) :
    a.Evolves rs (a.addContext m x) := by
  have l := addContext_later rs a m x
  have hctx {c : ContextId} {k : ModuleId} (hk : (a.context c).module = some k) :
      (a.addContext m x).context c = a.context c :=
    context_addContext_of_ne (Nat.ne_of_lt (lt_of_context hk))
  refine ⟨?_, l⟩
  exact {
    registered := h.registered
    cached := by
      intro k c hc
      by_cases hk : k = m
      · subst hk
        have he : a.contexts.size = c := Option.some.inj (Table.get?_put_self.symm.trans hc)
        rw [← he, context_addContext_self]
        exact f.module
      · have hca := h.cached ((Table.get?_put_of_ne hk).symm.trans hc)
        rw [hctx hca]
        exact hca
    module_lt := by
      intro c k hk
      rcases f.of_context hk with ⟨-, rfl⟩ | ⟨-, hk⟩
      · exact f.module_lt
      · exact h.module_lt hk
    generation_le := by
      intro c k hk
      rcases f.of_context hk with ⟨rfl, rfl⟩ | ⟨hc, hk⟩
      · rw [context_addContext_self]; exact f.generation_le
      · rw [context_addContext_of_ne hc]; exact h.generation_le hk
    shows := by
      intro c k hk
      rcases f.of_context hk with ⟨rfl, rfl⟩ | ⟨hc, hk⟩
      · rw [context_addContext_self]; exact f.shows
      · rw [context_addContext_of_ne hc]; exact h.shows hk
    context_module := by
      intro s k hk
      have hc := h.context_module hk
      rw [← hctx hc] at hc
      exact hc
    context_generation := by
      intro s k hk
      have hg := h.context_generation hk
      rw [← hctx (h.context_module hk)] at hg
      exact hg
    live := h.live
    kept := by
      intro c k hk hd
      rcases f.of_context hk with ⟨rfl, rfl⟩ | ⟨hc, hk⟩
      · exact Table.get?_put_self
      · rw [context_addContext_of_ne hc] at hd
        have hca := h.kept hk hd
        -- The context that was there before is released.
        have hkm : k ≠ m := by
          rintro rfl
          rw [before c hca] at hd
          cases hd
        exact (Table.get?_put_of_ne hkm).trans hca
    destroyed := by
      intro s k hk hd
      have hda := h.destroyed hk hd
      rw [← hctx (h.context_module hk)] at hda
      exact hda
    first := by
      rw [context_addContext_of_ne (Nat.ne_of_lt h.first.1)]
      exact ⟨l.lt_contexts h.first.1, h.first.2⟩
    absent := h.absent
    spent := by
      intro k s hr hd
      have hc := h.context_module (h.registered hr)
      have hda : (a.context (a.service s).context).destroyed = true := by
        rw [← hctx hc]; exact hd
      exact l.spent_mono h (h.spent hr hda) }

/-- What is new about a service that is added: it is built from a context of its module, which may have been
released in the meantime only if it is spent. -/
structure FreshService (rs : List ServiceId) (a : Analysis) (m : ModuleId) (x : Service) : Prop where
  module : x.module = some m
  destroyed : x.destroyed = false
  context_module : (a.context x.context).module = some m
  context_generation : (a.context x.context).generation = x.generation
  spent : (a.context x.context).destroyed = true → a.Spent rs x.context

theorem addService_later (rs : List ServiceId) (a : Analysis) (m : ModuleId) (x : Service) :
    a.Later rs (a.addService m x) := { Persists.refl a with
  services := .push Service.Later.refl _ _
  epoch_le := Nat.le_refl _
  spent := fun _ hd => Or.inl hd }

theorem FreshService.of_service {m k : ModuleId} {x : Service} {s : ServiceId} (f : a.FreshService rs m x)
    (hk : ((a.addService m x).service s).module = some k) :
    s = a.services.size ∧ k = m ∨ s ≠ a.services.size ∧ (a.service s).module = some k := by
  by_cases hs : s = a.services.size
  · subst hs
    rw [service_addService_self, f.module] at hk
    exact Or.inl ⟨rfl, (Option.some.inj hk).symm⟩
  · rw [service_addService_of_ne hs] at hk
    exact Or.inr ⟨hs, hk⟩

theorem registered_addService {m k : ModuleId} {x : Service} {s : ServiceId}
    (hr : (a.addService m x).registered.get? k = some s) :
    s = a.services.size ∧ k = m ∨ a.registered.get? k = some s := by
  by_cases hk : k = m
  · subst hk
    have he : a.services.size = s := Option.some.inj (Table.get?_put_self.symm.trans hr)
    exact Or.inl ⟨he.symm, rfl⟩
  · exact Or.inr ((Table.get?_put_of_ne hk).symm.trans hr)

theorem addService_evolves (h : a.Sound rs) {m : ModuleId} {x : Service} (f : a.FreshService rs m x)
    (before : ∀ s, a.registered.get? m = some s → ¬ a.IsLive s) :
    a.Evolves rs (a.addService m x) := by
  have l := addService_later rs a m x
  have hold {s : ServiceId} {k : ModuleId} (hk : (a.service s).module = some k) :
      (a.addService m x).service s = a.service s :=
    service_addService_of_ne (Nat.ne_of_lt (lt_of_service hk))
  refine ⟨?_, l⟩
  exact {
    registered := by
      intro k s hr
      rcases registered_addService hr with ⟨rfl, rfl⟩ | hra
      · rw [service_addService_self]; exact f.module
      · rw [hold (h.registered hra)]; exact h.registered hra
    cached := h.cached
    module_lt := h.module_lt
    generation_le := h.generation_le
    shows := h.shows
    context_module := by
      intro s k hk
      rcases f.of_service hk with ⟨rfl, rfl⟩ | ⟨hs, hk⟩
      · rw [service_addService_self]; exact f.context_module
      · rw [service_addService_of_ne hs]; exact h.context_module hk
    context_generation := by
      intro s k hk
      rcases f.of_service hk with ⟨rfl, rfl⟩ | ⟨hs, hk⟩
      · rw [service_addService_self]; exact f.context_generation
      · rw [service_addService_of_ne hs]; exact h.context_generation hk
    live := by
      intro s k hk hl
      rcases f.of_service hk with ⟨rfl, rfl⟩ | ⟨hs, hk⟩
      · exact Table.get?_put_self
      · have hla := l.isLive h (lt_of_service hk) hl
        have hra := h.live hk hla
        -- The service that was there before is not live.
        have hkm : k ≠ m := by
          rintro rfl
          exact before s hra hla
        exact (Table.get?_put_of_ne hkm).trans hra
    kept := h.kept
    destroyed := by
      intro s k hk
      rcases f.of_service hk with ⟨rfl, rfl⟩ | ⟨hs, hk⟩
      · rw [service_addService_self, f.destroyed]
        intro hd
        cases hd
      · rw [service_addService_of_ne hs]; exact h.destroyed hk
    first := h.first
    absent := by
      intro s
      by_cases hs : s = a.services.size
      · subst hs
        rw [service_addService_self, f.module]
        intro hm
        cases hm
      · rw [service_addService_of_ne hs]; exact h.absent
    spent := by
      intro k s hr
      rcases registered_addService hr with ⟨rfl, rfl⟩ | hra
      · rw [service_addService_self]
        exact fun hd => l.spent_mono h (f.spent hd)
      · rw [hold (h.registered hra)]
        exact fun hd => l.spent_mono h (h.spent hra hd) }

end ClassScope.Analysis
