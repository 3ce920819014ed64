import ClassScope.Proofs.Analysis.Reachable
import ClassScope.Proofs.Analysis.Services
import ClassScope.Proofs.Table

/-!
# What a purge does

A purge goes over the registry and then over the contexts, each time by another test of what is stale. The two
agree: whatever is left is live and current, and only what was stale has gone.
-/

namespace ClassScope

namespace Analysis

variable {a b : Analysis} {m : ModuleId} {s : ServiceId} {c : ContextId}

/-- A purge has put away what was stale, and only that. -/
structure Purged (a : Analysis) (r : Nat × Analysis) : Prop where
  frame : r.2 = { a with
    registered := r.2.registered, cached := r.2.cached, services := r.2.services, contexts := r.2.contexts }
  live : ∀ {m s}, r.2.registered.get? m = some s → r.2.IsLive s
  current : ∀ {m c}, r.2.cached.get? m = some c → (r.2.context c).module = some m ∧ r.2.IsKept m c
  /-- Who was registered and not live is released and forgotten, and so is its context. -/
  gone : ∀ {m s}, a.registered.get? m = some s → ¬ a.IsLive s →
    (r.2.service s).destroyed = true ∧ (∀ k, r.2.registered.get? k ≠ some s) ∧
      (r.2.context (a.service s).context).destroyed = true ∧
      ∀ k, r.2.cached.get? k ≠ some (a.service s).context
  /-- Who was live stays as it was, and so does its context unless that was released before. -/
  untouched : ∀ {s}, a.IsLive s → ∃ m, (a.service s).module = some m ∧ r.2.service s = a.service s ∧
    r.2.registered.get? m = some s ∧
    ((a.context (a.service s).context).destroyed = false →
      r.2.context (a.service s).context = a.context (a.service s).context ∧
      r.2.cached.get? m = some (a.service s).context)
  /-- Nothing is released but stale services, their contexts and stale contexts. -/
  services : ∀ s, r.2.service s = a.service s ∨ ∃ m, a.registered.get? m = some s ∧ ¬ a.IsLive s
  contexts : ∀ c, r.2.context c = a.context c ∨
    (∃ m s, a.registered.get? m = some s ∧ ¬ a.IsLive s ∧ (a.service s).context = c) ∨
    ∃ m, a.cached.get? m = some c ∧ ¬ a.IsKept m c
  count : r.1 = Set.ncard {s | (∃ m, a.registered.get? m = some s) ∧ ∀ m, r.2.registered.get? m ≠ some s}
  again : r.2.purge = (0, r.2)

/-! ## Contexts -/

theorem isCurrent_congr (context : b.context c = a.context c) (modules : b.modules = a.modules) :
    b.IsCurrent m c ↔ a.IsCurrent m c := by
  rw [IsCurrent, IsCurrent, context, module, module, modules]

theorem isKept_congr (context : b.context c = a.context c) (modules : b.modules = a.modules) :
    b.IsKept m c ↔ a.IsKept m c := by
  rw [IsKept, IsKept, isCurrent_congr context modules, module, module, modules]

theorem get?_cached_purgeContexts :
    a.purgeContexts.2.cached.get? m = some c ↔ a.cached.get? m = some c ∧ a.IsKept m c := by
  rw [purgeContexts_split, destroyContexts_eq]
  exact get?_keptContexts

theorem context_purgeContexts (a : Analysis) (c : ContextId) :
    a.purgeContexts.2.context c = a.context c ∨ ∃ m, a.cached.get? m = some c ∧ ¬ a.IsKept m c := by
  by_cases hc : c ∈ a.staleContexts.entries.map Prod.snd
  · exact Or.inr (mem_staleContexts.mp hc)
  · exact Or.inl (context_destroyContexts_of_not_mem hc)

theorem destroyed_purgeContexts (h : (a.context c).destroyed = true) :
    (a.purgeContexts.2.context c).destroyed = true :=
  (destroyed_destroyContexts (a := { a with cached := a.keptContexts }) (lt_of_destroyed_context h)).mpr (Or.inl h)

/-- What is left in the cache is not touched. -/
theorem Linked.context_of_isKept (h : a.Linked) (hm : (a.context c).module = some m) (hc : a.IsKept m c) :
    a.purgeContexts.2.context c = a.context c := by
  rcases context_purgeContexts a c with he | ⟨k, hk, hs⟩
  · exact he
  · cases hm.symm.trans (h.cached hk)
    exact absurd hc hs

theorem purgeContexts_of_isKept (h : ∀ {m c}, a.cached.get? m = some c → a.IsKept m c) : a.purgeContexts.2 = a := by
  have none : a.staleContexts = ∅ :=
    Table.filter_eq_empty fun hc => decide_eq_false (not_not_intro (isKept_iff.mpr (h hc)))
  have all : a.keptContexts = a.cached := Table.filter_eq_self fun hc => isKept_iff.mpr (h hc)
  rw [purgeContexts_split, none, all]
  rfl

/-! ## Services -/

theorem isLive_congr (service : b.service s = a.service s) (modules : b.modules = a.modules) :
    b.IsLive s ↔ a.IsLive s := by
  simp only [IsLive, service, module, modules]

@[simp] theorem cached_purgeServices (a : Analysis) : a.purgeServices.cached = a.cached := by
  rw [purgeServices, destroyServices_eq]

@[simp] theorem modules_purgeServices (a : Analysis) : a.purgeServices.modules = a.modules := by
  rw [purgeServices, destroyServices_eq]

theorem service_purgeServices (a : Analysis) (s : ServiceId) :
    a.purgeServices.service s = a.service s ∨ ∃ m, a.registered.get? m = some s ∧ ¬ a.IsLive s := by
  by_cases hs : s ∈ a.staleServices.entries.map Prod.snd
  · exact Or.inr (mem_staleServices.mp hs)
  · exact Or.inl (service_destroyServices_of_not_mem hs)

theorem context_purgeServices (a : Analysis) (c : ContextId) :
    a.purgeServices.context c = a.context c ∨
      ∃ m s, a.registered.get? m = some s ∧ ¬ a.IsLive s ∧ (a.service s).context = c := by
  by_cases hc : ∃ m s, a.registered.get? m = some s ∧ ¬ a.IsLive s ∧ (a.service s).context = c
  · exact Or.inr hc
  · left
    apply context_destroyServices_of_forall_ne
    intro s hs he
    obtain ⟨m, hr, hl⟩ := mem_staleServices.mp hs
    exact hc ⟨m, s, hr, hl, he⟩

theorem service_of_isLive (h : a.IsLive s) : a.purgeServices.service s = a.service s := by
  rcases service_purgeServices a s with he | ⟨_, -, hs⟩
  · exact he
  · exact absurd h hs

/-- A stale service is released with its context. -/
theorem Linked.destroyed_purgeServices (h : a.Linked) (hr : a.registered.get? m = some s) (hl : ¬ a.IsLive s) :
    (a.purgeServices.service s).destroyed = true ∧
      (a.purgeServices.context (a.service s).context).destroyed = true := by
  let x : Analysis := { a with registered := a.liveServices }
  have hp : x.Persists a.purgeServices := destroyServices_persists x _
  have hm := h.registered hr
  have hlt : s < x.services.size := h.lt hr
  have hd : (a.purgeServices.service s).destroyed = true :=
    (destroyed_destroyServices hlt).mpr (Or.inr (mem_staleServices.mpr ⟨m, hr, hl⟩))
  refine ⟨hd, ?_⟩
  have hc := h.purgeServices.linked.destroyed ((hp.service_module_eq hlt).trans hm) hd
  rw [hp.service_context_eq hlt] at hc
  exact hc

theorem purgeServices_of_live (h : ∀ {m s}, a.registered.get? m = some s → a.IsLive s) :
    a.staleServices = ∅ ∧ a.purgeServices = a := by
  have none : a.staleServices = ∅ := Table.filter_eq_empty fun hr => by simp [h hr]
  have all : a.liveServices = a.registered := Table.filter_eq_self fun hr => decide_eq_true (h hr)
  refine ⟨none, ?_⟩
  rw [purgeServices, none, all]
  rfl

/-! ## The whole purge -/

/-- Both passes of a purge. -/
def purgeBoth (a : Analysis) : Analysis :=
  a.purgeServices.purgeContexts.2

theorem purgeBoth_eq (a : Analysis) : a.purgeBoth = { a with
    registered := a.purgeBoth.registered, cached := a.purgeBoth.cached, services := a.purgeBoth.services,
    contexts := a.purgeBoth.contexts } := by
  rw [purgeBoth, purgeContexts_eq, purgeServices_eq]

theorem get?_registered_purgeBoth :
    a.purgeBoth.registered.get? m = some s ↔ a.registered.get? m = some s ∧ a.IsLive s := by
  rw [purgeBoth, purgeContexts_eq]
  exact get?_registered_purgeServices

theorem service_purgeBoth (a : Analysis) (s : ServiceId) : a.purgeBoth.service s = a.purgeServices.service s := by
  rw [purgeBoth, purgeContexts_eq]
  rfl

theorem modules_purgeBoth (a : Analysis) : a.purgeBoth.modules = a.modules := by
  rw [purgeBoth_eq]

theorem get?_cached_purgeBoth :
    a.purgeBoth.cached.get? m = some c ↔ a.cached.get? m = some c ∧ a.purgeServices.IsKept m c := by
  rw [purgeBoth, get?_cached_purgeContexts, cached_purgeServices]

/-! ## What is left -/

theorem isLive_purgeBoth (hr : a.purgeBoth.registered.get? m = some s) : a.purgeBoth.IsLive s := by
  obtain ⟨-, hl⟩ := get?_registered_purgeBoth.mp hr
  have hs := (service_purgeBoth a s).trans (service_of_isLive hl)
  exact (isLive_congr hs (modules_purgeBoth a)).mpr hl

theorem Linked.isKept_purgeBoth (h : a.Linked) (hc : a.purgeBoth.cached.get? m = some c) :
    (a.purgeBoth.context c).module = some m ∧ a.purgeBoth.IsKept m c := by
  have y := h.purgeServices.linked
  obtain ⟨hcached, hkept⟩ := get?_cached_purgeBoth.mp hc
  have hm : (a.purgeServices.context c).module = some m := by
    apply y.cached
    rw [cached_purgeServices]
    exact hcached
  have he : a.purgeBoth.context c = a.purgeServices.context c := y.context_of_isKept hm hkept
  have modules : a.purgeBoth.modules = a.purgeServices.modules :=
    (modules_purgeBoth a).trans (modules_purgeServices a).symm
  exact ⟨by rw [he]; exact hm, (isKept_congr he modules).mpr hkept⟩

/-- The context of a live service is current unless it was released. -/
theorem Linked.isKept_of_isLive (h : a.Linked) (hm : (a.service s).module = some m) (hl : a.IsLive s)
    (hd : (a.context (a.service s).context).destroyed = false) : a.IsKept m (a.service s).context := by
  obtain ⟨-, live, generation⟩ := (isLive_iff hm).mp hl
  exact ⟨live, hd, (h.context_generation hm).trans generation.symm⟩

/-- No two modules have one service, so none of those put away has the context of a live one. -/
theorem Linked.context_of_isLive (h : a.Linked) (hp : a.policy = .dispose) (hl : a.IsLive s) :
    a.purgeServices.context (a.service s).context = a.context (a.service s).context := by
  obtain ⟨m, hm⟩ := hl.module
  rcases context_purgeServices a (a.service s).context with he | ⟨k, t, hr, ht, hc⟩
  · exact he
  · have hk := h.context_module (h.registered hr)
    rw [hc, h.context_module hm] at hk
    cases hk
    cases (h.held hp hm ((isLive_iff hm).mp hl).1).symm.trans hr
    exact absurd hl ht

theorem Linked.context_purgeBoth_of_isLive (h : a.Linked) (hp : a.policy = .dispose)
    (hm : (a.service s).module = some m) (hl : a.IsLive s)
    (hd : (a.context (a.service s).context).destroyed = false) :
    a.purgeBoth.context (a.service s).context = a.context (a.service s).context ∧
      a.purgeBoth.cached.get? m = some (a.service s).context := by
  have hc := h.context_module hm
  have he := h.context_of_isLive hp hl
  have hkept : a.purgeServices.IsKept m (a.service s).context :=
    (isKept_congr he (modules_purgeServices a)).mpr (h.isKept_of_isLive hm hl hd)
  have hy : (a.purgeServices.context (a.service s).context).module = some m := by
    rw [he]
    exact hc
  have same := h.purgeServices.linked.context_of_isKept hy hkept
  exact ⟨same.trans he, get?_cached_purgeBoth.mpr ⟨h.kept hc hd, hkept⟩⟩

/-! ## What has gone -/

theorem Linked.destroyed_purgeBoth (h : a.Linked) (hr : a.registered.get? m = some s) (hl : ¬ a.IsLive s) :
    (a.purgeBoth.service s).destroyed = true ∧
      (a.purgeBoth.context (a.service s).context).destroyed = true := by
  obtain ⟨hs, hc⟩ := h.destroyed_purgeServices hr hl
  refine ⟨?_, destroyed_purgeContexts hc⟩
  rw [service_purgeBoth]
  exact hs

theorem context_purgeBoth (a : Analysis) (c : ContextId) : a.purgeBoth.context c = a.context c ∨
    (∃ m s, a.registered.get? m = some s ∧ ¬ a.IsLive s ∧ (a.service s).context = c) ∨
    ∃ m, a.cached.get? m = some c ∧ ¬ a.IsKept m c := by
  rcases context_purgeServices a c with he | hs
  · rcases context_purgeContexts a.purgeServices c with hb | ⟨m, hm, hk⟩
    · exact Or.inl (hb.trans he)
    · rw [cached_purgeServices] at hm
      rw [isKept_congr he (modules_purgeServices a)] at hk
      exact Or.inr (Or.inr ⟨m, hm, hk⟩)
  · exact Or.inr (Or.inl hs)

/-- A service is registered for its module only, so each one counts once. -/
theorem Linked.size_staleServices (h : a.Linked) : a.staleServices.size =
    Set.ncard {s | (∃ m, a.registered.get? m = some s) ∧ ∀ m, a.purgeBoth.registered.get? m ≠ some s} := by
  have one {k j : ModuleId} {s : ServiceId} (hk : a.staleServices.get? k = some s)
      (hj : a.staleServices.get? j = some s) : k = j := by
    have hmk := h.registered (get?_staleServices.mp hk).1
    have hmj := h.registered (get?_staleServices.mp hj).1
    exact Option.some.inj (hmk.symm.trans hmj)
  rw [Table.size_eq_ncard_values one]
  refine congrArg Set.ncard (Set.ext fun s => ?_)
  rw [Set.mem_ofPred_eq, Set.mem_ofPred_eq]
  constructor
  · rintro ⟨m, hs⟩
    obtain ⟨hr, hl⟩ := get?_staleServices.mp hs
    exact ⟨⟨m, hr⟩, fun k hk => hl (get?_registered_purgeBoth.mp hk).2⟩
  · rintro ⟨⟨m, hr⟩, hgone⟩
    have hl : ¬ a.IsLive s := fun hl => hgone m (get?_registered_purgeBoth.mpr ⟨hr, hl⟩)
    exact ⟨m, get?_staleServices.mpr ⟨hr, hl⟩⟩

theorem Linked.purge_purgeBoth (h : a.Linked) (hp : a.policy = .dispose) :
    a.purgeBoth.purge = (0, a.purgeBoth) := by
  obtain ⟨none, same⟩ := purgeServices_of_live isLive_purgeBoth
  have policy : a.purgeBoth.policy = .dispose := by
    rw [purgeBoth_eq]
    exact hp
  rw [purge_of_dispose policy, none, same, purgeContexts_of_isKept fun hc => (h.isKept_purgeBoth hc).2]
  rfl

theorem Linked.purged (h : a.Linked) (hp : a.policy = .dispose) : a.Purged a.purge := by
  have e : a.purge = (a.staleServices.size, a.purgeBoth) := purge_of_dispose hp
  rw [e]
  exact {
    frame := purgeBoth_eq a
    live := isLive_purgeBoth
    current := h.isKept_purgeBoth
    gone := by
      intro m s hr hl
      obtain ⟨hs, hc⟩ := h.destroyed_purgeBoth hr hl
      refine ⟨hs, fun k hk => hl (get?_registered_purgeBoth.mp hk).2, hc, fun k hk => ?_⟩
      obtain ⟨-, -, undestroyed, -⟩ := h.isKept_purgeBoth hk
      cases hc.symm.trans undestroyed
    untouched := by
      intro s hl
      obtain ⟨m, hm⟩ := hl.module
      have hr := h.held hp hm ((isLive_iff hm).mp hl).1
      exact ⟨m, hm, (service_purgeBoth a s).trans (service_of_isLive hl),
        get?_registered_purgeBoth.mpr ⟨hr, hl⟩, h.context_purgeBoth_of_isLive hp hm hl⟩
    services := by
      intro s
      rw [service_purgeBoth]
      exact service_purgeServices a s
    contexts := context_purgeBoth a
    count := h.size_staleServices
    again := h.purge_purgeBoth hp }

end Analysis

namespace Session

/-- A purge removes what is stale, and only that, in whatever state it finds the services and contexts. Where
stale services are retained it does nothing. -/
theorem purge_removes_stale :
    (∀ x : Session, x.Reachable → x.analysis.policy = .dispose → x.analysis.Purged x.analysis.purge) ∧
      ∀ a : Analysis, a.policy = .retain → a.purge = (0, a) :=
  ⟨fun _ h hp => h.linked.analysis.purged hp, fun _ => Analysis.purge_of_retain⟩

/-- Three modules have services. One module goes and another one declares something else. -/
def partlyStale : List Event :=
  [.add { name := "app", path := ⟨[]⟩ }, .add { name := "lib", path := ⟨[]⟩ },
    .add { name := "web", path := ⟨[]⟩ }, .start 0, .answer 0, .resume 0, .start 1, .answer 1, .resume 1,
    .start 2, .answer 2, .resume 2, .detach 1, .reconfigure 2 {}]

theorem purge_removes_stale_of_partly :
    let a := (sample partlyStale).analysis
    let retaining := { a with policy := .retain }
    a.purge.1 = 2 ∧ a.purge.2.registered.get? 0 = some 1 ∧ a.purge.2.service 1 = a.service 1 ∧
      a.purge.2.cached.get? 0 = some (a.service 1).context ∧
      (a.purge.2.service 2).destroyed = true ∧ (a.purge.2.context (a.service 3).context).destroyed = true ∧
      a.purge.2.purge = (0, a.purge.2) ∧ retaining.purge = (0, retaining) := by
  intro a retaining
  have reachable : (sample partlyStale).Reachable := (Reachable.start {} {} (.empty 0)).run partlyStale
  have policy : a.policy = .dispose := by decide +kernel
  have purged : a.Purged a.purge := purge_removes_stale.1 (sample partlyStale) reachable policy
  have live : a.IsLive 1 := by decide +kernel
  obtain ⟨m, hm, same, registered, context⟩ := purged.untouched live
  have first : (a.service 1).module = some 0 := by decide +kernel
  cases hm.symm.trans first
  have undestroyed : (a.context (a.service 1).context).destroyed = false := by decide +kernel
  have detached : a.registered.get? 1 = some 2 ∧ ¬ a.IsLive 2 := by decide +kernel
  have reconfigured : a.registered.get? 2 = some 3 ∧ ¬ a.IsLive 3 := by decide +kernel
  exact ⟨by decide +kernel, registered, same, (context undestroyed).2, (purged.gone detached.1 detached.2).1,
    (purged.gone reconfigured.1 reconfigured.2).2.2.1, purged.again, purge_removes_stale.2 retaining rfl⟩

end Session

end ClassScope
