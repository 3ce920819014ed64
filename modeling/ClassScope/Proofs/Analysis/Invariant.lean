import ClassScope.Analysis.Registry

/-!
# What every operation keeps

Modules, contexts and services keep their numbers and most of what they hold; what may change only ever
changes one way (`Later`). On top of it stands an invariant that ties the two tables to what was made
(`Sound`). Both are parameterised by the services that their holders have released by themselves.
-/

namespace ClassScope

/-! ## Rows that grow -/

namespace Row

variable {α : Type} [Inhabited α] {R : α → α → Prop} {r s t : Row α}

/-- Values keep their numbers and change only as the relation says; further ones may be added. -/
structure Grows (R : α → α → Prop) (r s : Row α) : Prop where
  size_le : r.size ≤ s.size
  rel : ∀ {i}, i < r.size → R (r.get i) (s.get i)

theorem Grows.refl (hR : ∀ a, R a a) (r : Row α) : r.Grows R r :=
  ⟨Nat.le_refl _, fun _ => hR _⟩

theorem Grows.trans (hR : ∀ a b c, R a b → R b c → R a c) (h₁ : r.Grows R s) (h₂ : s.Grows R t) :
    r.Grows R t :=
  ⟨Nat.le_trans h₁.size_le h₂.size_le,
    fun hi => hR _ _ _ (h₁.rel hi) (h₂.rel (Nat.lt_of_lt_of_le hi h₁.size_le))⟩

theorem Grows.push (hR : ∀ a, R a a) (r : Row α) (a : α) : r.Grows R (r.push a) :=
  ⟨by simp, fun hi => by rw [get_push_of_ne (Nat.ne_of_lt hi)]; exact hR _⟩

theorem Grows.modify (hR : ∀ a, R a a) (r : Row α) (i : Nat) {f : α → α} (hf : ∀ a, R a (f a)) :
    r.Grows R (r.modify i f) :=
  ⟨by simp, fun hj => by
    rw [get_modify hj]
    split
    · exact hf _
    · exact hR _⟩

end Row

/-! ## How things change -/

/-- A module may be configured anew, which its generation tells, and it may be let go. -/
structure Module.Later (m n : Module) : Prop where
  generation_le : m.generation ≤ n.generation
  settings_eq : n.generation ≤ m.generation → n.settings = m.settings
  live_of_live : n.live = true → m.live = true

theorem Module.Later.refl (m : Module) : m.Later m :=
  ⟨Nat.le_refl _, fun _ => rfl, id⟩

theorem Module.Later.trans {l m n : Module} (h₁ : l.Later m) (h₂ : m.Later n) : l.Later n where
  generation_le := Nat.le_trans h₁.generation_le h₂.generation_le
  settings_eq h := by
    have hm := h₂.settings_eq (Nat.le_trans h h₁.generation_le)
    have hl := h₁.settings_eq (Nat.le_trans h₂.generation_le h)
    exact hm.trans hl
  live_of_live h := h₁.live_of_live (h₂.live_of_live h)

theorem Module.Later.reconfigure (settings : Settings) (m : Module) : m.Later (m.reconfigure settings) where
  generation_le := Nat.le_succ _
  settings_eq h := absurd h (Nat.not_succ_le_self _)
  live_of_live h := h

theorem Module.Later.detach (m : Module) : m.Later m.detach :=
  ⟨Nat.le_refl _, fun _ => rfl, nofun⟩

/-- A context is never changed but by its release. -/
structure FileContext.Later (x y : FileContext) : Prop where
  eq : y = { x with destroyed := y.destroyed }
  destroyed : x.destroyed = true → y.destroyed = true

theorem FileContext.Later.refl (x : FileContext) : x.Later x := ⟨rfl, id⟩

theorem FileContext.Later.trans {x y z : FileContext} (h₁ : x.Later y) (h₂ : y.Later z) : x.Later z :=
  ⟨by rw [h₂.eq, h₁.eq], fun h => h₂.destroyed (h₁.destroyed h)⟩

theorem FileContext.Later.undestroyed {x y : FileContext} (h : x.Later y) (hd : y.destroyed = false) :
    x.destroyed = false :=
  Bool.eq_false_iff.mpr fun hx => Bool.eq_false_iff.mp hd (h.destroyed hx)

/-- A service is never changed but by its release and by reading its boot classes anew. -/
structure Service.Later (x y : Service) : Prop where
  eq : y = { x with boot := y.boot, destroyed := y.destroyed }
  destroyed : x.destroyed = true → y.destroyed = true

theorem Service.Later.refl (x : Service) : x.Later x := ⟨rfl, id⟩

theorem Service.Later.trans {x y z : Service} (h₁ : x.Later y) (h₂ : y.Later z) : x.Later z :=
  ⟨by rw [h₂.eq, h₁.eq], fun h => h₂.destroyed (h₁.destroyed h)⟩

theorem Service.Later.undestroyed {x y : Service} (h : x.Later y) (hd : y.destroyed = false) :
    x.destroyed = false :=
  Bool.eq_false_iff.mpr fun hx => Bool.eq_false_iff.mp hd (h.destroyed hx)

structure FileContext.Shows (x : FileContext) (m : Module) : Prop where
  classPaths : x.classPaths = .ofLast m.settings.compile
  isPlatform : x.isPlatform = true ↔ m.kind = .platform
  bootPaths : x.bootPaths = match m.kind with
    | .platform => .ofLast m.settings.boot
    | .plain => ∅

namespace Analysis

variable {rs : List ServiceId} {a b c : Analysis}

/-! ## The invariant -/

/-- No service over a context can be live: its module is gone or declares something else by now. -/
def Stale (a : Analysis) (c : ContextId) : Prop :=
  ∃ m, (a.context c).module = some m ∧
    ((a.module m).live = false ∨ (a.context c).generation < (a.module m).generation)

/-- A context that may be found released: a stale one, or that of a service which a holder has released. -/
def Spent (rs : List ServiceId) (a : Analysis) (c : ContextId) : Prop :=
  a.Stale c ∨ ∃ s ∈ rs, s < a.services.size ∧ (a.service s).context = c

/-- What ties the tables to the contexts and services that were made. -/
structure Sound (rs : List ServiceId) (a : Analysis) : Prop where
  registered : ∀ {m s}, a.registered.get? m = some s → (a.service s).module = some m
  cached : ∀ {m c}, a.cached.get? m = some c → (a.context c).module = some m
  /-- A context was built for a module that is there, at a generation that has been; if it still is, the
  context holds what the module declares. -/
  module_lt : ∀ {c m}, (a.context c).module = some m → m < a.modules.size
  generation_le : ∀ {c m}, (a.context c).module = some m →
    (a.context c).generation ≤ (a.module m).generation
  shows : ∀ {c m}, (a.context c).module = some m →
    (a.module m).generation ≤ (a.context c).generation → (a.context c).Shows (a.module m)
  /-- A service is of the module and the generation of its context. -/
  context_module : ∀ {s m}, (a.service s).module = some m →
    (a.context (a.service s).context).module = some m
  context_generation : ∀ {s m}, (a.service s).module = some m →
    (a.context (a.service s).context).generation = (a.service s).generation
  /-- A live service is the registered one of its module. -/
  live : ∀ {s m}, (a.service s).module = some m → a.IsLive s → a.registered.get? m = some s
  /-- A context that nobody has released is the one of its module. -/
  kept : ∀ {c m}, (a.context c).module = some m → (a.context c).destroyed = false →
    a.cached.get? m = some c
  /-- A released service has released its context. -/
  destroyed : ∀ {s m}, (a.service s).module = some m → (a.service s).destroyed = true →
    (a.context (a.service s).context).destroyed = true
  /-- A service of no module has the context of no module. -/
  first : 0 < a.contexts.size ∧ (a.context 0).module = none
  absent : ∀ {s}, (a.service s).module = none → (a.service s).context = 0
  /-- Of a registered service only a spent context can be released. -/
  spent : ∀ {m s}, a.registered.get? m = some s →
    (a.context (a.service s).context).destroyed = true → a.Spent rs (a.service s).context

structure Persists (a b : Analysis) : Prop where
  modules : a.modules.Grows Module.Later b.modules
  contexts : a.contexts.Grows FileContext.Later b.contexts
  services : a.services.Grows Service.Later b.services

/-- A state that comes after another one. -/
structure Later (rs : List ServiceId) (a b : Analysis) : Prop extends a.Persists b where
  epoch_le : a.epoch ≤ b.epoch
  /-- Unless everything is torn down, only spent contexts are released. -/
  spent : ∀ {c}, c < a.contexts.size → (b.context c).destroyed = true →
    (a.context c).destroyed = true ∨ b.Spent rs c ∨ a.epoch < b.epoch

/-- A later state with the invariant. -/
structure Evolves (rs : List ServiceId) (a b : Analysis) : Prop where
  sound : b.Sound rs
  later : a.Later rs b

/-! ## Numbers that were given out -/

theorem lt_of_context {c : ContextId} {m : ModuleId} (h : (a.context c).module = some m) :
    c < a.contexts.size := by
  rcases Nat.lt_or_ge c a.contexts.size with hlt | hge
  · exact hlt
  · rw [context, Row.get_of_size_le hge] at h
    cases h

theorem lt_of_service {s : ServiceId} {m : ModuleId} (h : (a.service s).module = some m) :
    s < a.services.size := by
  rcases Nat.lt_or_ge s a.services.size with hlt | hge
  · exact hlt
  · rw [service, Row.get_of_size_le hge] at h
    cases h

theorem isLive_iff {s : ServiceId} {m : ModuleId} (h : (a.service s).module = some m) :
    a.IsLive s ↔ (a.service s).destroyed = false ∧ (a.module m).live = true ∧
      (a.module m).generation = (a.service s).generation := by
  simp only [IsLive, h]

theorem IsLive.module {s : ServiceId} (h : a.IsLive s) : ∃ m, (a.service s).module = some m := by
  unfold IsLive at h
  split at h
  · exact ⟨_, ‹_›⟩
  · exact h.elim

/-- What there is at the start: the context and the service of no module. -/
theorem sound_of_nothing_made {x : Service} (contexts : a.contexts = ⟨[{}]⟩) (services : a.services = ⟨[x]⟩)
    (module : x.module = none) (context : x.context = 0)
    (registered : a.registered = ∅) (cached : a.cached = ∅) : a.Sound rs := by
  have hcontext (c : ContextId) : (a.context c).module = none := by
    rw [Analysis.context, contexts]
    cases c <;> rfl
  have hservice (s : ServiceId) : (a.service s).module = none ∧ (a.service s).context = 0 := by
    rw [Analysis.service, services]
    cases s with
    | zero => exact ⟨module, context⟩
    | succ s => exact ⟨rfl, rfl⟩
  have ofContext {c : ContextId} {m : ModuleId} {p : Prop} (h : (a.context c).module = some m) : p := by
    rw [hcontext] at h
    cases h
  have ofService {s : ServiceId} {m : ModuleId} {p : Prop} (h : (a.service s).module = some m) : p := by
    rw [(hservice s).1] at h
    cases h
  have ofRegistered {m : ModuleId} {s : ServiceId} {p : Prop} (h : a.registered.get? m = some s) : p := by
    rw [registered] at h
    cases h
  exact {
    registered := ofRegistered
    cached := by
      intro m c h
      rw [cached] at h
      cases h
    module_lt := ofContext
    generation_le := ofContext
    shows := ofContext
    context_module := ofService
    context_generation := ofService
    live := ofService
    kept := ofContext
    destroyed := ofService
    first := by
      refine ⟨?_, hcontext 0⟩
      rw [contexts]
      exact Nat.zero_lt_one
    absent := fun _ => (hservice _).2
    spent := ofRegistered }

/-! ## Going on -/

namespace Persists

theorem refl (a : Analysis) : a.Persists a where
  modules := .refl Module.Later.refl _
  contexts := .refl FileContext.Later.refl _
  services := .refl Service.Later.refl _

theorem trans (h₁ : a.Persists b) (h₂ : b.Persists c) : a.Persists c where
  modules := h₁.modules.trans (fun _ _ _ => .trans) h₂.modules
  contexts := h₁.contexts.trans (fun _ _ _ => .trans) h₂.contexts
  services := h₁.services.trans (fun _ _ _ => .trans) h₂.services

variable (l : a.Persists b)

include l

theorem module {m : ModuleId} (h : m < a.modules.size) : (a.module m).Later (b.module m) :=
  l.modules.rel h

theorem context {c : ContextId} (h : c < a.contexts.size) : (a.context c).Later (b.context c) :=
  l.contexts.rel h

theorem service {s : ServiceId} (h : s < a.services.size) : (a.service s).Later (b.service s) :=
  l.services.rel h

theorem context_module_eq {c : ContextId} (h : c < a.contexts.size) :
    (b.context c).module = (a.context c).module := by
  rw [(l.context h).eq]

theorem context_generation_eq {c : ContextId} (h : c < a.contexts.size) :
    (b.context c).generation = (a.context c).generation := by
  rw [(l.context h).eq]

theorem service_module_eq {s : ServiceId} (h : s < a.services.size) :
    (b.service s).module = (a.service s).module := by
  rw [(l.service h).eq]

theorem service_generation_eq {s : ServiceId} (h : s < a.services.size) :
    (b.service s).generation = (a.service s).generation := by
  rw [(l.service h).eq]

theorem service_context_eq {s : ServiceId} (h : s < a.services.size) :
    (b.service s).context = (a.service s).context := by
  rw [(l.service h).eq]

theorem lt_modules {m : ModuleId} (h : m < a.modules.size) : m < b.modules.size :=
  Nat.lt_of_lt_of_le h l.modules.size_le

theorem lt_contexts {c : ContextId} (h : c < a.contexts.size) : c < b.contexts.size :=
  Nat.lt_of_lt_of_le h l.contexts.size_le

theorem lt_services {s : ServiceId} (h : s < a.services.size) : s < b.services.size :=
  Nat.lt_of_lt_of_le h l.services.size_le

theorem stale (h : a.Sound rs) {c : ContextId} (hc : a.Stale c) : b.Stale c := by
  obtain ⟨m, hm, hs⟩ := hc
  have hlt := lt_of_context hm
  have hl := l.module (h.module_lt hm)
  refine ⟨m, (l.context_module_eq hlt).trans hm, ?_⟩
  rcases hs with hd | hg
  · left
    cases hb : (b.module m).live
    · rfl
    · rw [hl.live_of_live hb] at hd
      cases hd
  · right
    rw [l.context_generation_eq hlt]
    exact Nat.lt_of_lt_of_le hg hl.generation_le

theorem spent_mono (h : a.Sound rs) {c : ContextId} (hc : a.Spent rs c) : b.Spent rs c := by
  rcases hc with hs | ⟨s, hs, hlt, he⟩
  · exact Or.inl (l.stale h hs)
  · exact Or.inr ⟨s, hs, l.lt_services hlt, (l.service_context_eq hlt).trans he⟩

theorem isLive (h : a.Sound rs) {s : ServiceId} (hs : s < a.services.size) (hb : b.IsLive s) :
    a.IsLive s := by
  obtain ⟨m, hm⟩ := hb.module
  have hma : (a.service s).module = some m := (l.service_module_eq hs).symm.trans hm
  obtain ⟨hd, hl, hg⟩ := (isLive_iff hm).mp hb
  have hml := l.module (h.module_lt (h.context_module hma))
  have hle := h.generation_le (h.context_module hma)
  have hge := hml.generation_le
  rw [h.context_generation hma] at hle
  rw [l.service_generation_eq hs] at hg
  exact (isLive_iff hma).mpr ⟨(l.service hs).undestroyed hd, hml.live_of_live hl, by omega⟩

end Persists

namespace Evolves

theorem refl (h : a.Sound rs) : a.Evolves rs a where
  sound := h
  later := { Persists.refl a with
    epoch_le := Nat.le_refl _
    spent := fun _ hd => Or.inl hd }

theorem trans (h₁ : a.Evolves rs b) (h₂ : b.Evolves rs c) : a.Evolves rs c where
  sound := h₂.sound
  later := { h₁.later.toPersists.trans h₂.later.toPersists with
    epoch_le := Nat.le_trans h₁.later.epoch_le h₂.later.epoch_le
    spent := by
      intro i hi hd
      rcases h₂.later.spent (h₁.later.lt_contexts hi) hd with hb | hs | he
      · rcases h₁.later.spent hi hb with ha | hs | he
        · exact Or.inl ha
        · exact Or.inr (Or.inl (h₂.later.spent_mono h₁.sound hs))
        · exact Or.inr (Or.inr (Nat.lt_of_lt_of_le he h₂.later.epoch_le))
      · exact Or.inr (Or.inl hs)
      · exact Or.inr (Or.inr (Nat.lt_of_le_of_lt h₁.later.epoch_le he)) }

end Evolves

end Analysis

end ClassScope
