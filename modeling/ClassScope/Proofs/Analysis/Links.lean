import ClassScope.Proofs.Analysis.Parts
import ClassScope.Proofs.Analysis.Usage

/-!
# Services, contexts and their tables

Part of the invariant does not speak of the modules. It holds whatever they tell, and also where contexts are
used directly, beside the services. In every state that somebody can come to, services belong to contexts of
their modules, and whatever is neither released nor retained on purpose stands in its table.
-/

namespace ClassScope

namespace Analysis

variable {a b c : Analysis} {m : ModuleId}

/-- How the tables, the services and the contexts hang together. -/
structure Linked (a : Analysis) : Prop where
  registered : ∀ {m s}, a.registered.get? m = some s → (a.service s).module = some m
  cached : ∀ {m c}, a.cached.get? m = some c → (a.context c).module = some m
  context_module : ∀ {s m}, (a.service s).module = some m →
    (a.context (a.service s).context).module = some m
  context_generation : ∀ {s m}, (a.service s).module = some m →
    (a.context (a.service s).context).generation = (a.service s).generation
  /-- A context that nobody has released is the one of its module. -/
  kept : ∀ {c m}, (a.context c).module = some m → (a.context c).destroyed = false →
    a.cached.get? m = some c
  /-- And so is a service, where stale ones are not retained. -/
  held : a.policy = .dispose → ∀ {s m}, (a.service s).module = some m →
    (a.service s).destroyed = false → a.registered.get? m = some s
  /-- A released service has released its context. -/
  destroyed : ∀ {s m}, (a.service s).module = some m → (a.service s).destroyed = true →
    (a.context (a.service s).context).destroyed = true

/-- A state in which all hangs together comes after another one. -/
structure Leads (a b : Analysis) : Prop where
  linked : b.Linked
  context_module : ∀ {c m}, (a.context c).module = some m → (b.context c).module = some m

theorem Leads.refl (h : a.Linked) : a.Leads a :=
  ⟨h, id⟩

theorem Leads.trans (h₁ : a.Leads b) (h₂ : b.Leads c) : a.Leads c :=
  ⟨h₂.linked, fun hm => h₂.context_module (h₁.context_module hm)⟩

/-! ## Neither releases nor anything new -/

theorem Linked.of_alike (h : a.Linked) (policy : b.policy = a.policy) (registered : b.registered = a.registered)
    (cached : b.cached = a.cached) (contexts : b.contexts = a.contexts)
    (services : ∀ s, ∃ boot, b.service s = { a.service s with boot }) : a.Leads b := by
  have context (c : ContextId) : b.context c = a.context c := by
    rw [Analysis.context, contexts, Analysis.context]
  have service (s : ServiceId) : (b.service s).module = (a.service s).module ∧
      (b.service s).generation = (a.service s).generation ∧ (b.service s).context = (a.service s).context ∧
      (b.service s).destroyed = (a.service s).destroyed := by
    obtain ⟨boot, hs⟩ := services s
    rw [hs]
    exact ⟨rfl, rfl, rfl, rfl⟩
  refine ⟨?_, fun hm => by rw [context]; exact hm⟩
  exact {
    registered := by
      intro m s hr
      rw [registered] at hr
      rw [(service s).1]
      exact h.registered hr
    cached := by
      intro m c hc
      rw [cached] at hc
      rw [context]
      exact h.cached hc
    context_module := by
      intro s m hm
      obtain ⟨hmodule, -, hcontext, -⟩ := service s
      rw [hmodule] at hm
      rw [hcontext, context]
      exact h.context_module hm
    context_generation := by
      intro s m hm
      obtain ⟨hmodule, hgeneration, hcontext, -⟩ := service s
      rw [hmodule] at hm
      rw [hcontext, context, hgeneration]
      exact h.context_generation hm
    kept := by
      intro c m hm hd
      rw [context] at hm hd
      rw [cached]
      exact h.kept hm hd
    held := by
      intro hp s m hm hd
      obtain ⟨hmodule, -, -, hdestroyed⟩ := service s
      rw [hmodule] at hm
      rw [hdestroyed] at hd
      rw [registered]
      exact h.held (policy.symm.trans hp) hm hd
    destroyed := by
      intro s m hm hd
      obtain ⟨hmodule, -, hcontext, hdestroyed⟩ := service s
      rw [hmodule] at hm
      rw [hdestroyed] at hd
      rw [hcontext, context]
      exact h.destroyed hm hd }

theorem Linked.scans (h : a.Linked) (hs : a.Scans b) : a.Leads b := by
  obtain ⟨_, _, _, _, rfl⟩ := hs
  exact h.of_alike rfl rfl rfl rfl fun _ => ⟨_, rfl⟩

/-- Modules may become anything. -/
theorem Linked.modules (h : a.Linked) (modules : Row Module) : a.Leads { a with modules } :=
  h.of_alike rfl rfl rfl rfl fun _ => ⟨_, rfl⟩

theorem Linked.refresh (h : a.Linked) (s : ServiceId) (declared : Option (List Path)) :
    a.Leads (a.refresh s declared) := by
  obtain ⟨b, hb, he⟩ := refresh_eq a s declared
  have l := h.scans hb
  rw [he]
  refine l.trans (l.linked.of_alike rfl rfl rfl rfl fun t => ?_)
  refine Row.get_modify_rel (R := fun x y : Service => ∃ boot, y = { x with boot }) ?_ ?_ s t
  · exact fun x => ⟨x.boot, rfl⟩
  · exact fun x => ⟨_, rfl⟩

/-! ## Releases -/

/-- Contexts and services may be released, and whoever leaves a table is. Released services release their
contexts. -/
structure Sheds (a b : Analysis) : Prop where
  policy : b.policy = a.policy
  persists : a.Persists b
  contexts_size : b.contexts.size = a.contexts.size
  services_size : b.services.size = a.services.size
  registered : ∀ {m s}, b.registered.get? m = some s → a.registered.get? m = some s
  forgotten : ∀ {m s}, a.registered.get? m = some s → (b.service s).destroyed = false →
    b.registered.get? m = some s
  cached : ∀ {m c}, b.cached.get? m = some c → a.cached.get? m = some c
  dropped : ∀ {m c}, a.cached.get? m = some c → (b.context c).destroyed = false →
    b.cached.get? m = some c
  destroyed : ∀ {s m}, (a.service s).module = some m → (b.service s).destroyed = true →
    (b.context (a.service s).context).destroyed = true

theorem Sheds.leads (h : a.Linked) (r : a.Sheds b) : a.Leads b := by
  have p := r.persists
  have context {c : ContextId} {m : ModuleId} (hm : (a.context c).module = some m) :
      (b.context c).module = some m :=
    (p.context_module_eq (lt_of_context hm)).trans hm
  have old {s : ServiceId} {m : ModuleId} (hm : (b.service s).module = some m) :
      s < a.services.size ∧ (a.service s).module = some m := by
    have hlt : s < a.services.size := r.services_size ▸ lt_of_service hm
    exact ⟨hlt, (p.service_module_eq hlt).symm.trans hm⟩
  refine ⟨?_, context⟩
  exact {
    registered := by
      intro m s hr
      have hm := h.registered (r.registered hr)
      exact (p.service_module_eq (lt_of_service hm)).trans hm
    cached := fun hc => context (h.cached (r.cached hc))
    context_module := by
      intro s m hm
      obtain ⟨hlt, hma⟩ := old hm
      rw [p.service_context_eq hlt]
      exact context (h.context_module hma)
    context_generation := by
      intro s m hm
      obtain ⟨hlt, hma⟩ := old hm
      rw [p.service_context_eq hlt, p.service_generation_eq hlt,
        p.context_generation_eq (lt_of_context (h.context_module hma))]
      exact h.context_generation hma
    kept := by
      intro c m hm hd
      have hlt : c < a.contexts.size := r.contexts_size ▸ lt_of_context hm
      have hma := (p.context_module_eq hlt).symm.trans hm
      exact r.dropped (h.kept hma ((p.context hlt).undestroyed hd)) hd
    held := by
      intro hp s m hm hd
      obtain ⟨hlt, hma⟩ := old hm
      have hda := (p.service hlt).undestroyed hd
      exact r.forgotten (h.held (r.policy.symm.trans hp) hma hda) hd
    destroyed := by
      intro s m hm hd
      obtain ⟨hlt, hma⟩ := old hm
      rw [p.service_context_eq hlt]
      exact r.destroyed hma hd }

/-- Services may be released and taken out of the registry. -/
theorem Linked.destroyServices (h : a.Linked) (epoch : Nat) {registered : Table ModuleId ServiceId}
    (ss : List ServiceId) (lt : ∀ s ∈ ss, s < a.services.size)
    (kept : ∀ {m s}, registered.get? m = some s → a.registered.get? m = some s)
    (out : ∀ {m s}, a.registered.get? m = some s → s ∈ ss ∨ registered.get? m = some s) :
    a.Leads (({ a with epoch, registered }).destroyServices ss) := by
  let x : Analysis := { a with epoch, registered }
  have hp : x.Persists (x.destroyServices ss) := destroyServices_persists x ss
  have r : a.Sheds (x.destroyServices ss) := {
    policy := by rw [destroyServices_eq]
    persists := ⟨hp.modules, hp.contexts, hp.services⟩
    contexts_size := contexts_size_destroyServices x ss
    services_size := services_size_destroyServices x ss
    registered := by rw [destroyServices_eq]; exact kept
    forgotten := by
      intro m s hr hd
      rcases out hr with hs | hr'
      · have hlt : s < x.services.size := lt_of_service (h.registered hr)
        rw [(destroyed_destroyServices hlt).mpr (Or.inr hs)] at hd
        cases hd
      · rw [destroyServices_eq]; exact hr'
    cached := by rw [destroyServices_eq]; exact id
    dropped := by rw [destroyServices_eq]; exact fun hc _ => hc
    destroyed := by
      intro s m hm hd
      have hc : (a.service s).context < x.contexts.size := lt_of_context (h.context_module hm)
      apply (destroyed_context_destroyServices hc lt).mpr
      cases hda : (a.service s).destroyed with
      | true => exact Or.inl (h.destroyed hm hda)
      | false =>
          rcases destroyed_of_destroyServices hd with ha | hs
          · cases hda.symm.trans ha
          · exact Or.inr ⟨s, hs, hda, rfl⟩ }
  exact r.leads h

/-- Contexts may be released and forgotten. -/
theorem Linked.destroyContexts (h : a.Linked) {cached : Table ModuleId ContextId} (cs : List ContextId)
    (kept : ∀ {m c}, cached.get? m = some c → a.cached.get? m = some c)
    (out : ∀ {m c}, a.cached.get? m = some c → c ∈ cs ∨ cached.get? m = some c) :
    a.Leads (({ a with cached }).destroyContexts cs) := by
  let x : Analysis := { a with cached }
  have hp : x.Persists (x.destroyContexts cs) := destroyContexts_persists x cs
  have hservice (s : ServiceId) : (x.destroyContexts cs).service s = a.service s := by
    rw [destroyContexts_eq]; rfl
  have r : a.Sheds (x.destroyContexts cs) := {
    policy := by rw [destroyContexts_eq]
    persists := ⟨hp.modules, hp.contexts, hp.services⟩
    contexts_size := contexts_size_destroyContexts x cs
    services_size := by rw [destroyContexts_eq]
    registered := by rw [destroyContexts_eq]; exact id
    forgotten := by rw [destroyContexts_eq]; exact fun hr _ => hr
    cached := by rw [destroyContexts_eq]; exact kept
    dropped := by
      intro m c hc hd
      rcases out hc with hmem | hc'
      · have hlt : c < x.contexts.size := lt_of_context (h.cached hc)
        rw [(destroyed_destroyContexts hlt).mpr (Or.inr hmem)] at hd
        cases hd
      · rw [destroyContexts_eq]; exact hc'
    destroyed := by
      intro s m hm hd
      rw [hservice] at hd
      have hc := h.destroyed hm hd
      exact (destroyed_destroyContexts (a := x) (lt_of_destroyed_context hc)).mpr (Or.inl hc) }
  exact r.leads h

theorem Linked.lt (h : a.Linked) {s : ServiceId} (hr : a.registered.get? m = some s) : s < a.services.size :=
  lt_of_service (h.registered hr)

theorem Linked.destroyContext (h : a.Linked) (c : ContextId) : a.Leads (a.destroyContext c) :=
  h.destroyContexts [c] id Or.inr

theorem Linked.destroyService (h : a.Linked) {s : ServiceId} (hs : s < a.services.size) :
    a.Leads (a.destroyService s) := by
  refine h.destroyServices a.epoch [s] ?_ id Or.inr
  intro t ht
  rw [List.mem_singleton.mp ht]
  exact hs

theorem Linked.purgeContexts (h : a.Linked) : a.Leads a.purgeContexts.2 := by
  rw [purgeContexts_split]
  exact h.destroyContexts _ (fun hc => (get?_keptContexts.mp hc).1) stale_or_kept

theorem Linked.clearContexts (h : a.Linked) : a.Leads a.clearContexts := by
  refine h.destroyContexts _ ?_ ?_
  · intro m c hc
    cases hc
  · exact fun hc => Or.inl (Table.mem_values.mpr ⟨_, hc⟩)

theorem Linked.purgeServices (h : a.Linked) : a.Leads a.purgeServices := by
  refine h.destroyServices a.epoch _ ?_ ?_ stale_or_live
  · intro s hs
    obtain ⟨m, hr, -⟩ := mem_staleServices.mp hs
    exact h.lt hr
  · exact fun hr => (get?_liveServices.mp hr).1

theorem Linked.purge (h : a.Linked) : a.Leads a.purge.2 := by
  cases hp : a.policy with
  | retain => rw [purge_of_retain hp]; exact .refl h
  | dispose =>
      rw [purge_of_dispose hp]
      exact h.purgeServices.trans h.purgeServices.linked.purgeContexts

theorem Linked.destroyAll (h : a.Linked) : a.Leads a.destroyAll := by
  have l : a.Leads (({ a with epoch := a.epoch + 1, registered := ∅ }).destroyServices
      (a.registered.entries.map Prod.snd)) := by
    refine h.destroyServices (a.epoch + 1) _ ?_ ?_ ?_
    · intro s hs
      obtain ⟨m, hm⟩ := Table.mem_values.mp hs
      exact h.lt hm
    · intro m s hr
      cases hr
    · exact fun hr => Or.inl (Table.mem_values.mpr ⟨_, hr⟩)
  have l' := l.trans l.linked.clearContexts
  exact l'.trans (l'.linked.scans ⟨_, _, _, _, rfl⟩)

/-! ## New contexts and services -/

theorem Linked.addContext (h : a.Linked) {x : FileContext} (module : x.module = some m)
    (before : ∀ c, a.cached.get? m = some c → (a.context c).destroyed = true) : a.Leads (a.addContext m x) := by
  have old {c : ContextId} {k : ModuleId} (hk : (a.context c).module = some k) :
      (a.addContext m x).context c = a.context c :=
    context_addContext_of_ne (Nat.ne_of_lt (lt_of_context hk))
  refine ⟨?_, fun hm => by rw [old hm]; exact hm⟩
  exact {
    registered := h.registered
    cached := by
      intro k c hc
      by_cases hk : k = m
      · subst hk
        cases Table.get?_put_self.symm.trans hc
        rw [context_addContext_self]
        exact module
      · have hca := h.cached ((Table.get?_put_of_ne hk).symm.trans hc)
        rw [old hca]
        exact hca
    context_module := by
      intro s k hk
      have hc := h.context_module hk
      exact (congrArg FileContext.module (old hc)).trans hc
    context_generation := by
      intro s k hk
      exact (congrArg FileContext.generation (old (h.context_module hk))).trans (h.context_generation hk)
    kept := by
      intro c k hk hd
      by_cases hc : c = a.contexts.size
      · subst hc
        rw [context_addContext_self, module] at hk
        cases hk
        exact Table.get?_put_self
      · rw [context_addContext_of_ne hc] at hk hd
        have hca := h.kept hk hd
        -- The context that was there before is released.
        have hkm : k ≠ m := by
          rintro rfl
          cases hd.symm.trans (before c hca)
        exact (Table.get?_put_of_ne hkm).trans hca
    held := h.held
    destroyed := by
      intro s k hk hd
      exact (congrArg FileContext.destroyed (old (h.context_module hk))).trans (h.destroyed hk hd) }

theorem Linked.keepContext (h : a.Linked) {x : FileContext} (module : x.module = some m) :
    a.Leads (a.keepContext m x).2 ∧
      ((a.keepContext m x).2.context (a.keepContext m x).1).module = some m := by
  cases hc : a.currentContext? m with
  | some c =>
      have he : a.keepContext m x = (c, a) := by simp only [Analysis.keepContext, hc]
      rw [he]
      exact ⟨.refl h, h.cached (currentContext?_eq_some hc).1⟩
  | none =>
      rw [keepContext_of_none h.cached x hc]
      have l : a.Leads (a.destroyContexts (a.cached.get? m).toList) := h.destroyContexts _ id Or.inr
      have hsize := contexts_size_destroyContexts a (a.cached.get? m).toList
      refine ⟨l.trans (l.linked.addContext module ?_), ?_⟩
      · intro c hm
        rw [destroyContexts_eq] at hm
        exact (destroyed_destroyContexts (lt_of_context (h.cached hm))).mpr (Or.inr (Option.mem_toList.mpr hm))
      · rw [← hsize, context_addContext_self]
        exact module

/-- What is needed of a service that is made the one of its module: it is built from a context of it. -/
structure Fits (a : Analysis) (m : ModuleId) (x : Service) : Prop where
  module : x.module = some m
  destroyed : x.destroyed = false
  context_module : (a.context x.context).module = some m
  context_generation : (a.context x.context).generation = x.generation

theorem forall_service_addService {x : Service} {P : ServiceId → Service → Prop} (new : P a.services.size x)
    (old : ∀ s, P s (a.service s)) (s : ServiceId) : P s ((a.addService m x).service s) := by
  by_cases hs : s = a.services.size
  · subst hs
    rw [service_addService_self]
    exact new
  · rw [service_addService_of_ne hs]
    exact old s

theorem Linked.addService (h : a.Linked) {x : Service} (f : a.Fits m x)
    (before : a.policy = .dispose → ∀ s, a.registered.get? m = some s → (a.service s).destroyed = true) :
    a.Leads (a.addService m x) := by
  refine ⟨?_, id⟩
  exact {
    registered := by
      intro k s hr
      rcases registered_addService hr with ⟨rfl, rfl⟩ | hra
      · rw [service_addService_self]
        exact f.module
      · rw [service_addService_of_ne (Nat.ne_of_lt (h.lt hra))]
        exact h.registered hra
    cached := h.cached
    context_module := by
      intro s k
      refine forall_service_addService (P := fun _ y => y.module = some k →
        (a.context y.context).module = some k) ?_ (fun _ => h.context_module) s
      exact fun hk => f.context_module.trans (f.module.symm.trans hk)
    context_generation := by
      intro s k
      exact forall_service_addService (P := fun _ y => y.module = some k →
        (a.context y.context).generation = y.generation) (fun _ => f.context_generation)
        (fun _ => h.context_generation) s
    kept := h.kept
    held := by
      intro hp s k
      refine forall_service_addService (P := fun s y => y.module = some k → y.destroyed = false →
        (a.registered.put m a.services.size).get? k = some s) ?_ ?_ s
      · intro hk _
        cases f.module.symm.trans hk
        exact Table.get?_put_self
      · intro s hk hd
        have hra := h.held hp hk hd
        -- The service that was there before is released.
        have hkm : k ≠ m := by
          rintro rfl
          cases hd.symm.trans (before hp s hra)
        exact (Table.get?_put_of_ne hkm).trans hra
    destroyed := by
      intro s k
      refine forall_service_addService (P := fun _ y => y.module = some k → y.destroyed = true →
        (a.context y.context).destroyed = true) ?_ (fun _ => h.destroyed) s
      intro _ hd
      cases f.destroyed.symm.trans hd }

theorem Leads.fits (l : a.Leads b) {x : Service} (f : a.Fits m x)
    (generation : (b.context x.context).generation = (a.context x.context).generation) : b.Fits m x where
  module := f.module
  destroyed := f.destroyed
  context_module := l.context_module f.context_module
  context_generation := generation.trans f.context_generation

theorem Linked.register (h : a.Linked) {x : Service} (f : a.Fits m x) : a.Leads (a.register m x).2 := by
  cases hs : a.liveService? m with
  | some s =>
      have he : a.register m x = (s, a) := by simp only [Analysis.register, hs]
      rw [he]
      exact .refl h
  | none =>
      rw [register_of_none h.registered x hs]
      have hout {s : ServiceId} (hmem : s ∈ a.outgoing m) : s < a.services.size := h.lt (get?_of_mem_outgoing hmem)
      have l : a.Leads (a.destroyServices (a.outgoing m)) := h.destroyServices a.epoch _ (fun _ => hout) id Or.inr
      have f' : (a.destroyServices (a.outgoing m)).Fits m x :=
        l.fits f ((destroyServices_persists a _).context_generation_eq (lt_of_context f.context_module))
      refine l.trans (l.linked.addService f' ?_)
      intro hp s hr
      rw [destroyServices_eq] at hp hr
      have hmem : s ∈ a.outgoing m := by
        rw [outgoing, hp]
        exact Option.mem_toList.mpr hr
      exact (destroyed_destroyServices (hout hmem)).mpr (Or.inr hmem)

end Analysis

end ClassScope
