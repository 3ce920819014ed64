import ClassScope.Proofs.Analysis.Invariant

/-!
# What releasing does

Releasing contexts and services touches nothing but their flags, and exactly these flags.
-/

namespace ClassScope.Analysis

variable {a : Analysis}

/-! ## Contexts -/

theorem destroyContext_persists (a : Analysis) (c : ContextId) : a.Persists (a.destroyContext c) :=
  { Persists.refl a with
    contexts := .modify FileContext.Later.refl _ _ fun _ => ⟨rfl, fun _ => rfl⟩ }

theorem destroyed_destroyContext {c i : ContextId} (h : i < a.contexts.size) :
    ((a.destroyContext c).context i).destroyed = true ↔ (a.context i).destroyed = true ∨ i = c := by
  have he : (a.destroyContext c).context i =
      if c = i then { a.context i with destroyed := true } else a.context i := Row.get_modify h
  rw [he]
  by_cases hc : c = i
  · simp [hc]
  · simp [hc, Ne.symm hc]

theorem context_destroyContext_of_ne {c i : ContextId} (h : c ≠ i) :
    (a.destroyContext c).context i = a.context i :=
  Row.get_modify_of_ne h

theorem destroyContexts_eq (a : Analysis) (cs : List ContextId) :
    a.destroyContexts cs = { a with contexts := (a.destroyContexts cs).contexts } := by
  induction cs generalizing a with
  | nil => rfl
  | cons c cs ih => exact ih (a.destroyContext c)

theorem destroyContexts_persists (a : Analysis) (cs : List ContextId) :
    a.Persists (a.destroyContexts cs) := by
  induction cs generalizing a with
  | nil => exact .refl a
  | cons c cs ih => exact (destroyContext_persists a c).trans (ih _)

@[simp] theorem contexts_size_destroyContexts (a : Analysis) (cs : List ContextId) :
    (a.destroyContexts cs).contexts.size = a.contexts.size := by
  induction cs generalizing a with
  | nil => rfl
  | cons c cs ih => exact (ih (a.destroyContext c)).trans (Row.size_modify _ _ _)

theorem destroyed_destroyContexts {cs : List ContextId} {i : ContextId} (h : i < a.contexts.size) :
    ((a.destroyContexts cs).context i).destroyed = true ↔ (a.context i).destroyed = true ∨ i ∈ cs := by
  induction cs generalizing a with
  | nil => simp [destroyContexts]
  | cons c cs ih =>
      have hi : i < (a.destroyContext c).contexts.size := by
        rw [destroyContext, Row.size_modify]; exact h
      have hih := ih hi
      rw [destroyed_destroyContext h] at hih
      rw [List.mem_cons, ← or_assoc]
      exact hih

theorem context_destroyContexts_of_not_mem {cs : List ContextId} {i : ContextId} (h : i ∉ cs) :
    (a.destroyContexts cs).context i = a.context i := by
  induction cs generalizing a with
  | nil => rfl
  | cons c cs ih =>
      have hih := ih (a := a.destroyContext c) (List.not_mem_of_not_mem_cons h)
      exact hih.trans (context_destroyContext_of_ne (List.ne_of_not_mem_cons h).symm)

/-! ## Services -/

theorem destroyService_of_destroyed {s : ServiceId} (h : (a.service s).destroyed = true) :
    a.destroyService s = a := by
  rw [destroyService, if_pos h]

theorem destroyService_eq (a : Analysis) (s : ServiceId) :
    a.destroyService s = { a with
      services := (a.destroyService s).services, contexts := (a.destroyService s).contexts } := by
  unfold destroyService
  split
  · rfl
  · rfl

theorem destroyService_persists (a : Analysis) (s : ServiceId) : a.Persists (a.destroyService s) := by
  unfold destroyService
  split
  · exact .refl a
  · exact { Persists.refl a with
      services := .modify Service.Later.refl _ _ fun _ => ⟨rfl, fun _ => rfl⟩
      contexts := .modify FileContext.Later.refl _ _ fun _ => ⟨rfl, fun _ => rfl⟩ }

@[simp] theorem services_size_destroyService (a : Analysis) (s : ServiceId) :
    (a.destroyService s).services.size = a.services.size := by
  unfold destroyService
  split
  · rfl
  · exact Row.size_modify _ _ _

@[simp] theorem contexts_size_destroyService (a : Analysis) (s : ServiceId) :
    (a.destroyService s).contexts.size = a.contexts.size := by
  unfold destroyService
  split
  · rfl
  · exact Row.size_modify _ _ _

theorem destroyed_destroyService {s i : ServiceId} (h : i < a.services.size) :
    ((a.destroyService s).service i).destroyed = true ↔ (a.service i).destroyed = true ∨ i = s := by
  by_cases hd : (a.service s).destroyed = true
  · rw [destroyService_of_destroyed hd]
    constructor
    · exact Or.inl
    · rintro (hi | rfl)
      · exact hi
      · exact hd
  · have he : (a.destroyService s).service i =
        if s = i then { a.service i with destroyed := true } else a.service i := by
      rw [destroyService, if_neg hd]
      exact Row.get_modify h
    rw [he]
    by_cases hs : s = i
    · simp [hs]
    · simp [hs, Ne.symm hs]

/-- A context is released together with a service that was not released before. -/
theorem destroyed_context_destroyService {s : ServiceId} {i : ContextId} (h : i < a.contexts.size) :
    ((a.destroyService s).context i).destroyed = true ↔
      (a.context i).destroyed = true ∨ (a.service s).destroyed = false ∧ i = (a.service s).context := by
  by_cases hd : (a.service s).destroyed = true
  · rw [destroyService_of_destroyed hd]
    simp [hd]
  · rw [destroyService, if_neg hd]
    have he := destroyed_destroyContext (a := { a with
      services := a.services.modify s fun x => { x with destroyed := true } })
      (c := (a.service s).context) h
    rw [Bool.not_eq_true] at hd
    simp only [hd, true_and]
    exact he

theorem destroyServices_eq (a : Analysis) (ss : List ServiceId) :
    a.destroyServices ss = { a with
      services := (a.destroyServices ss).services, contexts := (a.destroyServices ss).contexts } := by
  induction ss generalizing a with
  | nil => rfl
  | cons s ss ih =>
      have he (services : Row Service) (contexts : Row FileContext) :
          { a.destroyService s with services, contexts } = { a with services, contexts } := by
        rw [destroyService_eq a s]
      exact (ih (a.destroyService s)).trans (he _ _)

theorem destroyServices_with_cached (a : Analysis) (ss : List ServiceId) (cached : Table ModuleId ContextId) :
    ({ a with cached }).destroyServices ss = { a.destroyServices ss with cached } := by
  induction ss generalizing a with
  | nil => rfl
  | cons s ss ih =>
      have he : ({ a with cached }).destroyService s = { a.destroyService s with cached } := by
        rw [destroyService, destroyService]
        split
        · rw [if_pos ‹_›]
        · rw [if_neg ‹_›]; rfl
      exact (congrArg (destroyServices ss) he).trans (ih _)

theorem destroyServices_persists (a : Analysis) (ss : List ServiceId) :
    a.Persists (a.destroyServices ss) := by
  induction ss generalizing a with
  | nil => exact .refl a
  | cons s ss ih => exact (destroyService_persists a s).trans (ih _)

@[simp] theorem services_size_destroyServices (a : Analysis) (ss : List ServiceId) :
    (a.destroyServices ss).services.size = a.services.size := by
  induction ss generalizing a with
  | nil => rfl
  | cons s ss ih => exact (ih (a.destroyService s)).trans (services_size_destroyService a s)

@[simp] theorem contexts_size_destroyServices (a : Analysis) (ss : List ServiceId) :
    (a.destroyServices ss).contexts.size = a.contexts.size := by
  induction ss generalizing a with
  | nil => rfl
  | cons s ss ih => exact (ih (a.destroyService s)).trans (contexts_size_destroyService a s)

theorem destroyed_destroyServices {ss : List ServiceId} {i : ServiceId} (h : i < a.services.size) :
    ((a.destroyServices ss).service i).destroyed = true ↔ (a.service i).destroyed = true ∨ i ∈ ss := by
  induction ss generalizing a with
  | nil => simp [destroyServices]
  | cons s ss ih =>
      have hih := ih (a := a.destroyService s) (by rw [services_size_destroyService]; exact h)
      rw [destroyed_destroyService h] at hih
      rw [List.mem_cons, ← or_assoc]
      exact hih

theorem destroyed_context_destroyServices {ss : List ServiceId} {i : ContextId}
    (hi : i < a.contexts.size) (hs : ∀ s ∈ ss, s < a.services.size) :
    ((a.destroyServices ss).context i).destroyed = true ↔
      (a.context i).destroyed = true ∨
        ∃ s ∈ ss, (a.service s).destroyed = false ∧ i = (a.service s).context := by
  induction ss generalizing a with
  | nil => simp [destroyServices]
  | cons s ss ih =>
      have hlt := hs s List.mem_cons_self
      have hih := ih (a := a.destroyService s) (by rw [contexts_size_destroyService]; exact hi)
        (by rw [services_size_destroyService]; exact fun t ht => hs t (List.mem_cons_of_mem s ht))
      rw [destroyed_context_destroyService hi] at hih
      have hold (t : ServiceId) (ht : t ∈ ss) :
          ((a.destroyService s).service t).destroyed = false ↔
            (a.service t).destroyed = false ∧ t ≠ s := by
        have hd := destroyed_destroyService (s := s) (hs t (List.mem_cons_of_mem s ht))
        rw [← Bool.not_eq_true, ← Bool.not_eq_true, hd, not_or]
      have hctx (t : ServiceId) (ht : t ∈ ss) :
          ((a.destroyService s).service t).context = (a.service t).context :=
        (destroyService_persists a s).service_context_eq (hs t (List.mem_cons_of_mem s ht))
      refine Iff.trans hih ?_
      constructor
      · rintro ((hd | ⟨hd, rfl⟩) | ⟨t, ht, hd, he⟩)
        · exact Or.inl hd
        · exact Or.inr ⟨s, List.mem_cons_self, hd, rfl⟩
        · rw [hctx t ht] at he
          exact Or.inr ⟨t, List.mem_cons_of_mem s ht, ((hold t ht).mp hd).1, he⟩
      · rintro (hd | ⟨t, ht, hd, rfl⟩)
        · exact Or.inl (Or.inl hd)
        · by_cases hts : t = s
          · subst hts
            exact Or.inl (Or.inr ⟨hd, rfl⟩)
          · have hmem := (List.mem_cons.mp ht).resolve_left hts
            exact Or.inr ⟨t, hmem, (hold t hmem).mpr ⟨hd, hts⟩, (hctx t hmem).symm⟩

/-! ## What is left alone -/

theorem service_destroyService_of_ne {s i : ServiceId} (h : s ≠ i) :
    (a.destroyService s).service i = a.service i := by
  unfold destroyService
  split
  · rfl
  · exact Row.get_modify_of_ne h

theorem service_destroyServices_of_not_mem {ss : List ServiceId} {i : ServiceId} (h : i ∉ ss) :
    (a.destroyServices ss).service i = a.service i := by
  induction ss generalizing a with
  | nil => rfl
  | cons s ss ih =>
      have hih := ih (a := a.destroyService s) (List.not_mem_of_not_mem_cons h)
      exact hih.trans (service_destroyService_of_ne (List.ne_of_not_mem_cons h).symm)

theorem service_context_destroyService (a : Analysis) (s i : ServiceId) :
    ((a.destroyService s).service i).context = (a.service i).context := by
  unfold destroyService
  split
  · rfl
  · refine Row.get_modify_rel (R := fun x y : Service => y.context = x.context) ?_ ?_ s i
    · exact fun _ => rfl
    · exact fun _ => rfl

theorem context_destroyService_of_ne {s : ServiceId} {i : ContextId} (h : (a.service s).context ≠ i) :
    (a.destroyService s).context i = a.context i := by
  unfold destroyService
  split
  · rfl
  · exact context_destroyContext_of_ne h

/-- A context none of whose services is released stays as it is. -/
theorem context_destroyServices_of_forall_ne {ss : List ServiceId} {i : ContextId}
    (h : ∀ s ∈ ss, (a.service s).context ≠ i) : (a.destroyServices ss).context i = a.context i := by
  induction ss generalizing a with
  | nil => rfl
  | cons s ss ih =>
      have hih := ih (a := a.destroyService s) (by
        intro t ht
        rw [service_context_destroyService]
        exact h t (List.mem_cons_of_mem s ht))
      exact hih.trans (context_destroyService_of_ne (h s List.mem_cons_self))

/-! ## Putting stale services and contexts away -/

section

variable {m : ModuleId} {s : ServiceId} {c : ContextId}

/-- A purge keeps the context of a module that is there and still declares that. -/
def IsKept (a : Analysis) (m : ModuleId) (c : ContextId) : Prop :=
  (a.module m).live = true ∧ a.IsCurrent m c

theorem isKept_iff : ((a.module m).live && decide (a.IsCurrent m c)) = true ↔ a.IsKept m c := by
  rw [Bool.and_eq_true, decide_eq_true_eq, IsKept]

def staleContexts (a : Analysis) : Table ModuleId ContextId :=
  a.cached.filter fun m c => ¬ ((a.module m).live && a.IsCurrent m c)

def keptContexts (a : Analysis) : Table ModuleId ContextId :=
  a.cached.filter fun m c => (a.module m).live && a.IsCurrent m c

theorem purgeContexts_split (a : Analysis) : a.purgeContexts = (a.staleContexts.size,
    ({ a with cached := a.keptContexts }).destroyContexts (a.staleContexts.entries.map Prod.snd)) := rfl

theorem get?_staleContexts : a.staleContexts.get? m = some c ↔ a.cached.get? m = some c ∧ ¬ a.IsKept m c := by
  rw [staleContexts, Table.get?_filter_eq_some_iff, decide_eq_true_eq, isKept_iff]

theorem get?_keptContexts : a.keptContexts.get? m = some c ↔ a.cached.get? m = some c ∧ a.IsKept m c := by
  rw [keptContexts, Table.get?_filter_eq_some_iff, isKept_iff]

theorem mem_staleContexts :
    c ∈ a.staleContexts.entries.map Prod.snd ↔ ∃ m, a.cached.get? m = some c ∧ ¬ a.IsKept m c := by
  simp only [Table.mem_values, get?_staleContexts]

theorem stale_or_kept (h : a.cached.get? m = some c) :
    c ∈ a.staleContexts.entries.map Prod.snd ∨ a.keptContexts.get? m = some c := by
  by_cases hk : a.IsKept m c
  · exact Or.inr (get?_keptContexts.mpr ⟨h, hk⟩)
  · exact Or.inl (mem_staleContexts.mpr ⟨m, h, hk⟩)

theorem purgeContexts_eq (a : Analysis) : a.purgeContexts.2 =
    { a with cached := a.purgeContexts.2.cached, contexts := a.purgeContexts.2.contexts } := by
  rw [purgeContexts, destroyContexts_eq]

/-- The services that a purge puts away. -/
def staleServices (a : Analysis) : Table ModuleId ServiceId :=
  a.registered.filter fun _ s => ¬ a.IsLive s

/-- The services that it leaves in the registry. -/
def liveServices (a : Analysis) : Table ModuleId ServiceId :=
  a.registered.filter fun _ s => a.IsLive s

theorem get?_staleServices : a.staleServices.get? m = some s ↔ a.registered.get? m = some s ∧ ¬ a.IsLive s := by
  rw [staleServices, Table.get?_filter_eq_some_iff, decide_eq_true_eq]

theorem get?_liveServices : a.liveServices.get? m = some s ↔ a.registered.get? m = some s ∧ a.IsLive s := by
  rw [liveServices, Table.get?_filter_eq_some_iff, decide_eq_true_eq]

theorem mem_staleServices :
    s ∈ a.staleServices.entries.map Prod.snd ↔ ∃ m, a.registered.get? m = some s ∧ ¬ a.IsLive s := by
  simp only [Table.mem_values, get?_staleServices]

theorem stale_or_live (h : a.registered.get? m = some s) :
    s ∈ a.staleServices.entries.map Prod.snd ∨ a.liveServices.get? m = some s := by
  by_cases hl : a.IsLive s
  · exact Or.inr (get?_liveServices.mpr ⟨h, hl⟩)
  · exact Or.inl (mem_staleServices.mpr ⟨m, h, hl⟩)

/-- A purge up to the point at which it turns to the contexts. -/
def purgeServices (a : Analysis) : Analysis :=
  ({ a with registered := a.liveServices }).destroyServices (a.staleServices.entries.map Prod.snd)

theorem purgeServices_eq (a : Analysis) : a.purgeServices = { a with
    registered := a.purgeServices.registered, services := a.purgeServices.services,
    contexts := a.purgeServices.contexts } := by
  rw [purgeServices, destroyServices_eq]

theorem get?_registered_purgeServices :
    a.purgeServices.registered.get? m = some s ↔ a.registered.get? m = some s ∧ a.IsLive s := by
  rw [purgeServices, destroyServices_eq]
  exact get?_liveServices

theorem purge_of_dispose (h : a.policy = .dispose) :
    a.purge = (a.staleServices.size, a.purgeServices.purgeContexts.2) := by
  unfold purge
  split
  case h_1 hp => cases h.symm.trans hp
  case h_2 => rfl

theorem purge_of_retain (h : a.policy = .retain) : a.purge = (0, a) := by
  rw [purge, h]

end

end ClassScope.Analysis
