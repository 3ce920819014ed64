import ClassScope.Proofs.Analysis.Changes
import ClassScope.Proofs.Analysis.Effects

/-!
# What the operations do

Each operation on contexts, services and modules takes a sound state to a later sound one. Those that end in
a context or a service also say which one.
-/

namespace ClassScope.Analysis

variable {rs : List ServiceId} {a b : Analysis}

/-! ## Dropping -/

theorem stale_of_not_isCurrent (h : a.Sound rs) {m : ModuleId} {c : ContextId}
    (hm : (a.context c).module = some m) (hd : (a.context c).destroyed = false)
    (hc : ¬ a.IsCurrent m c) : a.Stale c := by
  have hle := h.generation_le hm
  have hne : (a.context c).generation ≠ (a.module m).generation := fun he => hc ⟨hd, he⟩
  exact ⟨m, hm, Or.inr (Nat.lt_of_le_of_ne hle hne)⟩

theorem stale_of_not_isLive (h : a.Sound rs) {m : ModuleId} {s : ServiceId}
    (hm : (a.service s).module = some m) (hd : (a.service s).destroyed = false)
    (hs : ¬ a.IsLive s) : a.Stale (a.service s).context := by
  have hc := h.context_module hm
  refine ⟨m, hc, ?_⟩
  cases hl : (a.module m).live with
  | false => exact Or.inl rfl
  | true =>
      right
      have hle := h.generation_le hc
      have hg := h.context_generation hm
      have hne : (a.module m).generation ≠ (a.service s).generation :=
        fun he => hs ((isLive_iff hm).mpr ⟨hd, hl, he⟩)
      omega

/-- Services and contexts can be forgotten and released together: what is forgotten is released or no longer
live, and what is released has a reason to be. -/
structure Drop (rs : List ServiceId) (a : Analysis) (epoch : Nat) (services : Table ModuleId ServiceId)
    (contexts : Table ModuleId ContextId) (ss : List ServiceId) (cs : List ContextId) : Prop where
  epoch_le : a.epoch ≤ epoch
  registered : ∀ {m s}, services.get? m = some s → a.registered.get? m = some s
  forgotten : ∀ {m s}, a.registered.get? m = some s → a.IsLive s → s ∈ ss ∨ services.get? m = some s
  cached : ∀ {m c}, contexts.get? m = some c → a.cached.get? m = some c
  dropped : ∀ {m c}, a.cached.get? m = some c → c ∈ cs ∨ contexts.get? m = some c
  lt : ∀ s ∈ ss, s < a.services.size
  service_spent : ∀ s ∈ ss, (a.service s).destroyed = false → a.Spent rs (a.service s).context ∨
    a.epoch < epoch ∧ ∀ m, services.get? m = none
  context_spent : ∀ c ∈ cs, (a.context c).destroyed = false → a.Spent rs c ∨
    a.epoch < epoch ∧ ∀ m, services.get? m = none

theorem Drop.release {epoch : Nat} {registered : Table ModuleId ServiceId} {cached : Table ModuleId ContextId}
    {ss : List ServiceId} {cs : List ContextId} (h : a.Sound rs)
    (drop : a.Drop rs epoch registered cached ss cs) :
    a.Release rs ((({ a with epoch, registered, cached }).destroyServices ss).destroyContexts cs) := by
  let x : Analysis := { a with epoch, registered, cached }
  have hx : x.Persists ((x.destroyServices ss).destroyContexts cs) :=
    (destroyServices_persists x ss).trans (destroyContexts_persists _ cs)
  have hp : a.Persists ((x.destroyServices ss).destroyContexts cs) :=
    ⟨hx.modules, hx.contexts, hx.services⟩
  have hservice (s : ServiceId) :
      ((x.destroyServices ss).destroyContexts cs).service s = (x.destroyServices ss).service s := by
    rw [destroyContexts_eq]; rfl
  have hdestroyed {s : ServiceId} (hs : s < a.services.size) :
      (((x.destroyServices ss).destroyContexts cs).service s).destroyed = true ↔
        (a.service s).destroyed = true ∨ s ∈ ss := by
    rw [hservice]
    exact destroyed_destroyServices hs
  have hcontext {c : ContextId} (hc : c < a.contexts.size) :
      (((x.destroyServices ss).destroyContexts cs).context c).destroyed = true ↔
        ((a.context c).destroyed = true ∨
          ∃ s ∈ ss, (a.service s).destroyed = false ∧ c = (a.service s).context) ∨ c ∈ cs := by
    rw [destroyed_destroyContexts (by rw [contexts_size_destroyServices]; exact hc),
      destroyed_context_destroyServices (a := x) hc drop.lt]
    rfl
  exact {
    persists := hp
    modules := by rw [destroyContexts_eq, destroyServices_eq]
    contexts_size := by rw [contexts_size_destroyContexts, contexts_size_destroyServices]
    services_size := by rw [destroyContexts_eq]; exact services_size_destroyServices x ss
    epoch_le := by rw [destroyContexts_eq, destroyServices_eq]; exact drop.epoch_le
    registered := by rw [destroyContexts_eq, destroyServices_eq]; exact drop.registered
    forgotten := by
      intro m s hr hl hb
      have hm := h.registered hr
      rcases drop.forgotten hr hl with hs | hr'
      · have hd := (hdestroyed (lt_of_service hm)).mpr (Or.inr hs)
        have hmb := (hp.service_module_eq (lt_of_service hm)).trans hm
        rw [((isLive_iff hmb).mp hb).1] at hd
        cases hd
      · rw [destroyContexts_eq, destroyServices_eq]; exact hr'
    cached := by rw [destroyContexts_eq, destroyServices_eq]; exact drop.cached
    dropped := by
      intro m c hc hd
      rcases drop.dropped hc with hmem | hc'
      · have := (hcontext (lt_of_context (h.cached hc))).mpr (Or.inr hmem)
        rw [hd] at this
        cases this
      · rw [destroyContexts_eq, destroyServices_eq]; exact hc'
    destroyed := by
      intro s m hm hd
      have hc := lt_of_context (h.context_module hm)
      cases hda : (a.service s).destroyed with
      | true => exact (hcontext hc).mpr (Or.inl (Or.inl (h.destroyed hm hda)))
      | false =>
          rcases (hdestroyed (lt_of_service hm)).mp hd with hd | hs
          · rw [hda] at hd
            cases hd
          · exact (hcontext hc).mpr (Or.inl (Or.inr ⟨s, hs, hda, rfl⟩))
    spent := by
      intro c hc hd
      rw [destroyContexts_eq, destroyServices_eq]
      cases hda : (a.context c).destroyed with
      | true => exact Or.inl rfl
      | false =>
          right
          rcases (hcontext hc).mp hd with (hd | ⟨s, hs, hds, rfl⟩) | hmem
          · rw [hda] at hd
            cases hd
          · exact drop.service_spent s hs hds
          · exact drop.context_spent c hmem hda }

theorem release_contexts (h : a.Sound rs) (cs : List ContextId)
    (spent : ∀ c ∈ cs, (a.context c).destroyed = false → a.Spent rs c) :
    a.Release rs (a.destroyContexts cs) := by
  have drop : a.Drop rs a.epoch a.registered a.cached [] cs := {
    epoch_le := Nat.le_refl _
    registered := id
    forgotten := fun hr _ => Or.inr hr
    cached := id
    dropped := Or.inr
    lt := nofun
    service_spent := nofun
    context_spent := fun c hc hd => Or.inl (spent c hc hd) }
  exact drop.release h

theorem release_services (h : a.Sound rs) (ss : List ServiceId) (lt : ∀ s ∈ ss, s < a.services.size)
    (spent : ∀ s ∈ ss, (a.service s).destroyed = false → a.Spent rs (a.service s).context) :
    a.Release rs (a.destroyServices ss) := by
  have drop : a.Drop rs a.epoch a.registered a.cached ss [] := {
    epoch_le := Nat.le_refl _
    registered := id
    forgotten := fun hr _ => Or.inr hr
    cached := id
    dropped := Or.inr
    lt := lt
    service_spent := fun s hs hd => Or.inl (spent s hs hd)
    context_spent := nofun }
  exact drop.release h

theorem purgeContexts_evolves (h : a.Sound rs) : a.Evolves rs a.purgeContexts.2 := by
  have drop : a.Drop rs a.epoch a.registered a.keptContexts [] (a.staleContexts.entries.map Prod.snd) := {
    epoch_le := Nat.le_refl _
    registered := id
    forgotten := fun hr _ => Or.inr hr
    cached := fun hc => (get?_keptContexts.mp hc).1
    dropped := stale_or_kept
    lt := nofun
    service_spent := nofun
    context_spent := by
      intro c hc hd
      obtain ⟨m, hm, hk⟩ := mem_staleContexts.mp hc
      cases hl : (a.module m).live with
      | false => exact Or.inl (Or.inl ⟨m, h.cached hm, Or.inl hl⟩)
      | true =>
          have hcur : ¬ a.IsCurrent m c := fun hcur => hk ⟨hl, hcur⟩
          exact Or.inl (Or.inl (stale_of_not_isCurrent h (h.cached hm) hd hcur)) }
  rw [purgeContexts_split]
  exact (drop.release h).evolves h

theorem purge_evolves (h : a.Sound rs) : a.Evolves rs a.purge.2 := by
  cases hp : a.policy with
  | retain =>
      rw [purge_of_retain hp]
      exact .refl h
  | dispose =>
      have drop : a.Drop rs a.epoch a.liveServices a.cached (a.staleServices.entries.map Prod.snd) [] := {
        epoch_le := Nat.le_refl _
        registered := fun hs => (get?_liveServices.mp hs).1
        forgotten := fun hr _ => stale_or_live hr
        cached := id
        dropped := Or.inr
        lt := by
          intro s hs
          obtain ⟨m, hm, -⟩ := mem_staleServices.mp hs
          exact lt_of_service (h.registered hm)
        service_spent := by
          intro s hs hd
          obtain ⟨m, hm, hl⟩ := mem_staleServices.mp hs
          exact Or.inl (Or.inl (stale_of_not_isLive h (h.registered hm) hd hl))
        context_spent := nofun }
      have e := (drop.release h).evolves h
      rw [purge_of_dispose hp]
      exact e.trans (purgeContexts_evolves e.sound)

theorem destroyAll_evolves (h : a.Sound rs) : a.Evolves rs a.destroyAll := by
  let services := a.registered.entries.map (·.2)
  let contexts := a.cached.entries.map (·.2)
  have torn : a.epoch < a.epoch + 1 ∧ ∀ m, (∅ : Table ModuleId ServiceId).get? m = none :=
    ⟨Nat.lt_succ_self _, Table.get?_empty⟩
  have drop : a.Drop rs (a.epoch + 1) ∅ ∅ services contexts := {
    epoch_le := Nat.le_succ _
    registered := nofun
    forgotten := fun hr _ => Or.inl (Table.mem_values.mpr ⟨_, hr⟩)
    cached := nofun
    dropped := fun hc => Or.inl (Table.mem_values.mpr ⟨_, hc⟩)
    lt := by
      intro s hs
      obtain ⟨m, hm⟩ := Table.mem_values.mp hs
      exact lt_of_service (h.registered hm)
    service_spent := fun _ _ _ => Or.inr torn
    context_spent := fun _ _ _ => Or.inr torn }
  have e := (drop.release h).evolves h
  rw [destroyServices_with_cached { a with epoch := a.epoch + 1, registered := ∅ }] at e
  have hcontexts : (({ a with epoch := a.epoch + 1, registered := ∅ }).destroyServices services).cached =
      a.cached := by
    rw [destroyServices_eq]
  refine e.trans (Scans.evolves e.sound ?_)
  rw [destroyAll, clearContexts, hcontexts]
  exact ⟨_, _, _, _, rfl⟩

theorem Spent.subset {rs' : List ServiceId} {c : ContextId} (h : a.Spent rs c) (hs : rs ⊆ rs') :
    a.Spent rs' c := by
  rcases h with hst | ⟨t, ht, hlt, he⟩
  · exact Or.inl hst
  · exact Or.inr ⟨t, hs ht, hlt, he⟩

theorem Sound.subset {rs' : List ServiceId} (h : a.Sound rs) (hs : rs ⊆ rs') : a.Sound rs' := { h with
  spent := fun hr hd => (h.spent hr hd).subset hs }

theorem destroyService_evolves (h : a.Sound rs) {s : ServiceId} (hs : s < a.services.size) :
    a.Evolves (s :: rs) (a.destroyService s) := by
  have h' : a.Sound (s :: rs) := h.subset (List.subset_cons_self s rs)
  have r : a.Release (s :: rs) (a.destroyServices [s]) := by
    apply release_services h' [s]
    · intro t ht
      rw [List.mem_singleton.mp ht]; exact hs
    · intro t ht _
      rw [List.mem_singleton.mp ht]
      exact Or.inr ⟨s, List.mem_cons_self, hs, rfl⟩
  exact r.evolves h'

/-! ## Reading boot classes anew -/

theorem refresh_evolves (h : a.Sound rs) (s : ServiceId) (declared : Option (List Path)) :
    a.Evolves rs (a.refresh s declared) := by
  have hb (boot : ClassNameSet) {b : Analysis} (h : b.Sound rs) :
      b.Evolves rs { b with services := b.services.modify s fun x => { x with boot } } := by
    have hp : b.Persists { b with services := b.services.modify s fun x => { x with boot } } :=
      { Persists.refl b with
        services := .modify Service.Later.refl _ _ fun _ => ⟨rfl, id⟩ }
    have r : b.Release rs { b with services := b.services.modify s fun x => { x with boot } } := {
      persists := hp
      modules := rfl
      contexts_size := rfl
      services_size := Row.size_modify _ _ _
      epoch_le := Nat.le_refl _
      registered := id
      forgotten := fun hr _ _ => hr
      cached := id
      dropped := fun hc _ => hc
      destroyed := by
        intro t m hm hd
        have ht : ({ b with services := b.services.modify s fun x => { x with boot } }).service t =
            if s = t then { b.service t with boot } else b.service t :=
          Row.get_modify (lt_of_service hm)
        refine h.destroyed hm ?_
        rw [ht] at hd
        split at hd
        · exact hd
        · exact hd
      spent := fun _ hd => Or.inl hd }
    exact r.evolves h
  rw [refresh]
  cases (a.service s).module with
  | none => exact hb ∅ h
  | some m =>
      have e := (moduleBootClasses_scans a declared).evolves h
      exact e.trans (hb _ e.sound)

/-! ## Making a context the module's one -/

theorem FreshContext.of_modules {m : ModuleId} {x : FileContext} (f : a.FreshContext m x)
    (h : b.modules = a.modules) : b.FreshContext m x := by
  have hm : b.module m = a.module m := by rw [Analysis.module, h, Analysis.module]
  exact {
    module_lt := by rw [h]; exact f.module_lt
    module := f.module
    destroyed := f.destroyed
    generation_le := by rw [hm]; exact f.generation_le
    shows := by rw [hm]; exact f.shows }

theorem currentContext?_eq_some {m : ModuleId} {c : ContextId} (h : a.currentContext? m = some c) :
    a.cached.get? m = some c ∧ a.IsCurrent m c := by
  rw [currentContext?, Option.filter_eq_some_iff] at h
  exact ⟨h.1, of_decide_eq_true h.2⟩

theorem not_isCurrent_of_currentContext? {m : ModuleId} {c : ContextId}
    (h : a.currentContext? m = none) (hc : a.cached.get? m = some c) : ¬ a.IsCurrent m c := by
  rw [currentContext?, hc, Option.filter_some] at h
  intro hcur
  rw [if_pos (decide_eq_true hcur)] at h
  cases h

/-- The old context may as well be released before the new one is added. -/
theorem keepContext_of_none {m : ModuleId}
    (cached : ∀ {c}, a.cached.get? m = some c → (a.context c).module = some m) (x : FileContext)
    (hc : a.currentContext? m = none) :
    a.keepContext m x =
      (a.contexts.size, (a.destroyContexts (a.cached.get? m).toList).addContext m x) := by
  simp only [keepContext, hc, Prod.mk.injEq, true_and]
  cases hp : a.cached.get? m with
  | none => rfl
  | some c =>
      have hlt := lt_of_context (cached hp)
      simp only [Option.toList_some, destroyContexts, List.foldl_cons, List.foldl_nil, destroyContext,
        addContext, Row.modify_push_of_lt hlt, Row.size_modify]

/-- A context that can be used from a generation on. -/
structure IsUsable (a : Analysis) (m : ModuleId) (since : Nat) (c : ContextId) : Prop where
  module : (a.context c).module = some m
  destroyed : (a.context c).destroyed = false
  since_le : since ≤ (a.context c).generation

theorem keepContext_evolves (h : a.Sound rs) {m : ModuleId} {x : FileContext} (f : a.FreshContext m x) :
    a.Evolves rs (a.keepContext m x).2 ∧
      (a.keepContext m x).2.IsUsable m x.generation (a.keepContext m x).1 := by
  cases hc : a.currentContext? m with
  | some c =>
      have he : a.keepContext m x = (c, a) := by simp only [keepContext, hc]
      obtain ⟨hm, hd, hg⟩ := currentContext?_eq_some hc
      rw [he]
      exact ⟨.refl h, h.cached hm, hd, hg ▸ f.generation_le⟩
  | none =>
      let before := (a.cached.get? m).toList
      have hbefore {c : ContextId} (hmem : c ∈ before) : a.cached.get? m = some c :=
        Option.mem_toList.mp hmem
      have r : a.Release rs (a.destroyContexts before) := by
        apply release_contexts h before
        intro c hmem hd
        have hm := hbefore hmem
        exact Or.inl (stale_of_not_isCurrent h (h.cached hm) hd (not_isCurrent_of_currentContext? hc hm))
      have e := r.evolves h
      have e' := e.trans (addContext_evolves e.sound (f.of_modules r.modules) (by
        intro c hm
        have hm := r.cached hm
        exact (destroyed_destroyContexts (lt_of_context (h.cached hm))).mpr
          (Or.inr (Option.mem_toList.mpr hm))))
      have hx : ((a.destroyContexts before).addContext m x).context a.contexts.size = x := by
        rw [← r.contexts_size]
        exact context_addContext_self m x
      rw [keepContext_of_none h.cached x hc]
      exact ⟨e', by rw [hx]; exact f.module, by rw [hx]; exact f.destroyed, Nat.le_of_eq (by rw [hx])⟩

/-! ## Making a service the module's one -/

theorem liveService?_eq_some {m : ModuleId} {s : ServiceId} (h : a.liveService? m = some s) :
    a.registered.get? m = some s ∧ a.IsLive s := by
  rw [liveService?, Option.filter_eq_some_iff] at h
  exact ⟨h.1, of_decide_eq_true h.2⟩

theorem not_isLive_of_liveService? {m : ModuleId} {s : ServiceId} (h : a.liveService? m = none)
    (hs : a.registered.get? m = some s) : ¬ a.IsLive s := by
  rw [liveService?, hs, Option.filter_some] at h
  intro hl
  rw [if_pos (decide_eq_true hl)] at h
  cases h

theorem destroyService_addService {m : ModuleId} {x : Service} {s : ServiceId} (h : s < a.services.size) :
    (a.addService m x).destroyService s = (a.destroyService s).addService m x := by
  have hs : (a.addService m x).service s = a.service s := service_addService_of_ne (Nat.ne_of_lt h)
  rw [destroyService, destroyService, hs]
  split
  · rfl
  · simp only [addService, destroyContext, Row.modify_push_of_lt h, Row.size_modify]

/-- The services that make place for a new one. -/
def outgoing (a : Analysis) (m : ModuleId) : List ServiceId :=
  match a.policy with
  | .dispose => (a.registered.get? m).toList
  | .retain => []

theorem get?_of_mem_outgoing {m : ModuleId} {s : ServiceId} (h : s ∈ a.outgoing m) :
    a.registered.get? m = some s := by
  unfold outgoing at h
  split at h
  · exact Option.mem_toList.mp h
  · cases h

/-- The old service may as well be released before the new one is added. -/
theorem register_of_none {m : ModuleId}
    (registered : ∀ {s}, a.registered.get? m = some s → (a.service s).module = some m) (x : Service)
    (hs : a.liveService? m = none) :
    a.register m x = (a.services.size, (a.destroyServices (a.outgoing m)).addService m x) := by
  have hr : a.register m x = match a.policy with
      | .dispose => (a.services.size, (a.addService m x).destroyServices (a.registered.get? m).toList)
      | .retain => (a.services.size, a.addService m x) := by
    simp only [register, hs]
    rfl
  rw [hr, outgoing]
  cases a.policy with
  | retain => rfl
  | dispose =>
      cases hb : a.registered.get? m with
      | none => rfl
      | some s =>
          exact congrArg (a.services.size, ·) (destroyService_addService (lt_of_service (registered hb)))

/-- A service that a get may end in: it is its module's one, and it is live unless its module has gone or
has come to declare something else since a generation. -/
structure IsServed (a : Analysis) (m : ModuleId) (since : Nat) (s : ServiceId) : Prop where
  module : (a.service s).module = some m
  registered : a.registered.get? m = some s
  since_le : since ≤ (a.service s).generation
  live : (a.module m).live = true → (a.module m).generation ≤ since → a.IsLive s

theorem register_evolves (h : a.Sound rs) {m : ModuleId} {x : Service} (f : a.FreshService rs m x) :
    a.Evolves rs (a.register m x).2 ∧ (a.register m x).2.IsServed m x.generation (a.register m x).1 := by
  cases hs : a.liveService? m with
  | some s =>
      have he : a.register m x = (s, a) := by simp only [register, hs]
      obtain ⟨hr, hl⟩ := liveService?_eq_some hs
      have hg := ((isLive_iff (h.registered hr)).mp hl).2.2
      have hle := h.generation_le f.context_module
      rw [f.context_generation, hg] at hle
      rw [he]
      exact ⟨.refl h, h.registered hr, hr, hle, fun _ _ => hl⟩
  | none =>
      have r : a.Release rs (a.destroyServices (a.outgoing m)) := by
        apply release_services h (a.outgoing m)
        · intro s hmem
          exact lt_of_service (h.registered (get?_of_mem_outgoing hmem))
        · intro s hmem hd
          have hr := get?_of_mem_outgoing hmem
          exact Or.inl (stale_of_not_isLive h (h.registered hr) hd (not_isLive_of_liveService? hs hr))
      have e := r.evolves h
      have hlt := lt_of_context f.context_module
      have f' : (a.destroyServices (a.outgoing m)).FreshService rs m x := {
        module := f.module
        destroyed := f.destroyed
        context_module := (r.persists.context_module_eq hlt).trans f.context_module
        context_generation := (r.persists.context_generation_eq hlt).trans f.context_generation
        spent := by
          intro hd
          rcases r.spent hlt hd with ha | hsp | ⟨he, -⟩
          · exact r.persists.spent_mono h (f.spent ha)
          · exact r.persists.spent_mono h hsp
          · rw [destroyServices_eq] at he
            exact absurd he (Nat.lt_irrefl _) }
      have e' := e.trans (addService_evolves e.sound f' (by
        intro s hr hl
        have hr := r.registered hr
        exact not_isLive_of_liveService? hs hr
          (r.persists.isLive h (lt_of_service (h.registered hr)) hl)))
      rw [register_of_none h.registered x hs]
      have hx : ((a.destroyServices (a.outgoing m)).addService m x).service a.services.size = x := by
        rw [← r.services_size]
        exact service_addService_self m x
      have hmod : ((a.destroyServices (a.outgoing m)).addService m x).module m = a.module m := by
        rw [module, module, ← r.modules]
        rfl
      have hm : (((a.destroyServices (a.outgoing m)).addService m x).service a.services.size).module =
          some m := by
        rw [hx]; exact f.module
      refine ⟨e', hm, ?_, ?_, ?_⟩
      · rw [← r.services_size]
        exact Table.get?_put_self
      · exact Nat.le_of_eq (by rw [hx])
      · intro hl hg
        have hle := h.generation_le f.context_module
        rw [f.context_generation] at hle
        rw [hmod] at hg
        refine (isLive_iff hm).mpr ⟨by rw [hx]; exact f.destroyed, hl, ?_⟩
        rw [hx, hmod]
        exact Nat.le_antisymm hg hle

/-! ## What leaves the modules alone -/

@[simp] theorem modules_destroyContexts (a : Analysis) (cs : List ContextId) :
    (a.destroyContexts cs).modules = a.modules := by
  rw [destroyContexts_eq]

@[simp] theorem modules_destroyService (a : Analysis) (s : ServiceId) :
    (a.destroyService s).modules = a.modules := by
  rw [destroyService_eq]

@[simp] theorem modules_destroyServices (a : Analysis) (ss : List ServiceId) :
    (a.destroyServices ss).modules = a.modules := by
  rw [destroyServices_eq]

@[simp] theorem modules_purge (a : Analysis) : a.purge.2.modules = a.modules := by
  unfold purge
  split
  · rfl
  · simp [purgeContexts]

@[simp] theorem modules_destroyAll (a : Analysis) : a.destroyAll.modules = a.modules := by
  simp [destroyAll, clearContexts]

@[simp] theorem modules_keepContext (a : Analysis) (m : ModuleId) (x : FileContext) :
    (a.keepContext m x).2.modules = a.modules := by
  unfold keepContext
  split
  · rfl
  · simp

@[simp] theorem modules_register (a : Analysis) (m : ModuleId) (x : Service) :
    (a.register m x).2.modules = a.modules := by
  unfold register
  split
  · rfl
  · dsimp only
    split
    · simp
    · rfl

theorem Scans.modules_eq (h : a.Scans b) : b.modules = a.modules := by
  obtain ⟨_, _, _, _, rfl⟩ := h
  rfl

@[simp] theorem modules_refresh (a : Analysis) (s : ServiceId) (declared : Option (List Path)) :
    (a.refresh s declared).modules = a.modules := by
  rw [refresh]
  cases (a.service s).module with
  | some m => exact (moduleBootClasses_scans a declared).modules_eq
  | none => rfl

end ClassScope.Analysis
