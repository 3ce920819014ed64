import ClassScope.Proofs.Analysis.Progress

/-!
# Registrations

Who comes into the registry and who leaves it. Only a get registers a service, and it is the one that the
get ends in. Who leaves the registry is released, where stale services are not retained, and only who was
registered is released without a holder asking for it.
-/

namespace ClassScope.Analysis

variable {rs : List ServiceId} {a b c : Analysis} {m : ModuleId} {s : ServiceId}

/-- Only what is new comes into the registry. -/
structure Turnover (new : ModuleId → ServiceId → Prop) (a b : Analysis) : Prop where
  policy : b.policy = a.policy
  registered : ∀ {m s}, b.registered.get? m = some s → a.registered.get? m = some s ∨ new m s
  destroyed : ∀ {s}, (a.service s).destroyed = true → (b.service s).destroyed = true
  released : ∀ {s}, (b.service s).destroyed = true →
    (a.service s).destroyed = true ∨ ∃ m, a.registered.get? m = some s
  disposed : a.policy = .dispose → ∀ {m s}, a.registered.get? m = some s →
    b.registered.get? m = some s ∨ (b.service s).destroyed = true

/-- Nothing new comes into the registry, and no pass begins. -/
structure Keeps (a b : Analysis) : Prop extends Turnover (fun _ _ => False) a b where
  epoch : b.epoch = a.epoch
  stats : b.stats = a.stats
  services_size : b.services.size = a.services.size

/-! ## Putting changes together -/

theorem Turnover.mono {new new' : ModuleId → ServiceId → Prop} (h : a.Turnover new b)
    (hn : ∀ m s, new m s → new' m s) : a.Turnover new' b where
  policy := h.policy
  registered hr := (h.registered hr).imp_right (hn _ _)
  destroyed := h.destroyed
  released := h.released
  disposed := h.disposed

theorem Turnover.of_eq (policy : b.policy = a.policy) (registered : b.registered = a.registered)
    (services : ∀ s, (b.service s).destroyed = (a.service s).destroyed) :
    a.Turnover (fun _ _ => False) b where
  policy := policy
  registered hr := Or.inl (registered ▸ hr)
  destroyed hd := (services _).trans hd
  released hd := Or.inl ((services _).symm.trans hd)
  disposed _ _ _ hr := Or.inl (registered ▸ hr)

theorem Turnover.trans {new : ModuleId → ServiceId → Prop} (h₁ : a.Turnover (fun _ _ => False) b)
    (h₂ : b.Turnover new c) : a.Turnover new c where
  policy := h₂.policy.trans h₁.policy
  registered hr := (h₂.registered hr).imp_left fun hb => (h₁.registered hb).resolve_right id
  destroyed hd := h₂.destroyed (h₁.destroyed hd)
  released hd := by
    rcases h₂.released hd with hb | ⟨m, hb⟩
    · exact h₁.released hb
    · exact Or.inr ⟨m, (h₁.registered hb).resolve_right id⟩
  disposed hp _ _ hr := by
    rcases h₁.disposed hp hr with hb | hb
    · exact h₂.disposed (h₁.policy.trans hp) hb
    · exact Or.inr (h₂.destroyed hb)

namespace Keeps

theorem trans (h₁ : a.Keeps b) (h₂ : b.Keeps c) : a.Keeps c where
  toTurnover := h₁.toTurnover.trans h₂.toTurnover
  epoch := h₂.epoch.trans h₁.epoch
  stats := h₂.stats.trans h₁.stats
  services_size := h₂.services_size.trans h₁.services_size

/-- What touches neither services nor the registry, the policy and the counts. -/
theorem of_eq (policy : b.policy = a.policy) (epoch : b.epoch = a.epoch) (stats : b.stats = a.stats)
    (services : b.services = a.services) (registered : b.registered = a.registered) : a.Keeps b where
  toTurnover := .of_eq policy registered fun s => by rw [service, service, services]
  epoch := epoch
  stats := stats
  services_size := by rw [services]

theorem refl (a : Analysis) : a.Keeps a :=
  .of_eq rfl rfl rfl rfl rfl

end Keeps

theorem lt_of_destroyed (h : (a.service s).destroyed = true) : s < a.services.size := by
  rcases Nat.lt_or_ge s a.services.size with hlt | hge
  · exact hlt
  · rw [service, Row.get_of_size_le hge] at h
    cases h

theorem lt_of_destroyed_context {c : ContextId} (h : (a.context c).destroyed = true) :
    c < a.contexts.size := by
  rcases Nat.lt_or_ge c a.contexts.size with hlt | hge
  · exact hlt
  · rw [context, Row.get_of_size_le hge] at h
    cases h

theorem Sound.context_lt (h : a.Sound rs) (s : ServiceId) : (a.service s).context < a.contexts.size := by
  cases hm : (a.service s).module with
  | some m => exact lt_of_context (h.context_module hm)
  | none => exact h.absent hm ▸ h.first.1

theorem Sound.lt_of_registered (h : a.Sound rs) (hr : a.registered.get? m = some s) :
    s < a.services.size :=
  lt_of_service (h.registered hr)

/-! ## Releases -/

theorem destroyed_of_destroyServices {ss : List ServiceId}
    (h : ((a.destroyServices ss).service s).destroyed = true) : (a.service s).destroyed = true ∨ s ∈ ss := by
  have hlt := lt_of_destroyed h
  rw [services_size_destroyServices] at hlt
  exact (destroyed_destroyServices hlt).mp h

theorem destroyed_destroyServices_of_destroyed (ss : List ServiceId) (h : (a.service s).destroyed = true) :
    ((a.destroyServices ss).service s).destroyed = true :=
  (destroyed_destroyServices (lt_of_destroyed h)).mpr (Or.inl h)

/-- Some services are taken out of the registry and released; the others stay as they are. -/
theorem destroyServices_turnover {epoch : Nat} {registered : Table ModuleId ServiceId} {ss : List ServiceId}
    (h : a.Sound rs) (hs : ∀ s ∈ ss, ∃ m, a.registered.get? m = some s)
    (kept : ∀ {m s}, registered.get? m = some s → a.registered.get? m = some s)
    (out : a.policy = .dispose → ∀ {m s}, a.registered.get? m = some s →
      registered.get? m = some s ∨ s ∈ ss) :
    a.Turnover (fun _ _ => False) (({ a with epoch, registered }).destroyServices ss) where
  policy := by rw [destroyServices_eq]
  registered hr := by
    rw [destroyServices_eq] at hr
    exact Or.inl (kept hr)
  destroyed hd := destroyed_destroyServices_of_destroyed (a := { a with epoch, registered }) ss hd
  released hd := (destroyed_of_destroyServices hd).imp_right (hs _)
  disposed hp m s hr := by
    rcases out hp hr with hr' | hmem
    · rw [destroyServices_eq]
      exact Or.inl hr'
    · right
      exact (destroyed_destroyServices (a := { a with epoch, registered }) (h.lt_of_registered hr)).mpr
        (Or.inr hmem)

theorem purgeContexts_keeps (a : Analysis) : a.Keeps a.purgeContexts.2 := by
  rw [purgeContexts_eq]
  exact .of_eq rfl rfl rfl rfl rfl

theorem purge_keeps (h : a.Sound rs) : a.Keeps a.purge.2 := by
  cases hp : a.policy with
  | retain =>
      rw [purge_of_retain hp]
      exact .refl a
  | dispose =>
      rw [purge_of_dispose hp]
      refine Keeps.trans ?_ (purgeContexts_keeps _)
      refine ⟨destroyServices_turnover h ?_ ?_ ?_, ?_, ?_, services_size_destroyServices _ _⟩
      · intro s hs
        obtain ⟨m, hr, -⟩ := mem_staleServices.mp hs
        exact ⟨m, hr⟩
      · exact fun hr => (get?_liveServices.mp hr).1
      · exact fun _ _ _ hr => (stale_or_live hr).symm
      · rw [purgeServices, destroyServices_eq]
      · rw [purgeServices, destroyServices_eq]

theorem destroyAll_turnover (h : a.Sound rs) : a.Turnover (fun _ _ => False) a.destroyAll := by
  let services : List ServiceId := a.registered.entries.map (·.2)
  have ht : a.Turnover (fun _ _ => False)
      (({ a with epoch := a.epoch + 1, registered := ∅ }).destroyServices services) := by
    apply destroyServices_turnover h
    · exact fun s hs => Table.mem_values.mp hs
    · exact nofun
    · exact fun _ _ _ hr => Or.inr (Table.mem_values.mpr ⟨_, hr⟩)
  refine ht.trans ?_
  rw [destroyAll, clearContexts, destroyContexts_eq]
  exact .of_eq rfl rfl fun _ => rfl

/-! ## Scans and contexts -/

theorem updateBoot_keeps (a : Analysis) (paths : List Path) : a.Keeps (a.updateBoot paths) :=
  .of_eq rfl rfl rfl rfl rfl

theorem dependencyClasses_keeps (a : Analysis) (paths : List Path) :
    a.Keeps (a.dependencyClasses paths).2 :=
  .of_eq rfl rfl rfl rfl rfl

theorem moduleBootClasses_keeps (a : Analysis) (declared : Option (List Path)) :
    a.Keeps (a.moduleBootClasses declared).2 := by
  cases declared with
  | some paths => exact .of_eq rfl rfl rfl rfl rfl
  | none => exact .of_eq rfl rfl rfl rfl rfl

theorem refresh_keeps (a : Analysis) (s : ServiceId) (declared : Option (List Path)) :
    a.Keeps (a.refresh s declared) := by
  have reads (b : Analysis) (boot : ClassNameSet) :
      b.Keeps { b with services := b.services.modify s fun x => { x with boot } } := by
    refine ⟨.of_eq rfl rfl fun t => ?_, rfl, rfl, Row.size_modify _ _ _⟩
    refine Row.get_modify_rel (R := fun x y : Service => y.destroyed = x.destroyed) ?_ ?_ s t
    · exact fun _ => rfl
    · exact fun _ => rfl
  rw [refresh]
  cases (a.service s).module with
  | none => exact reads a ∅
  | some m => exact (moduleBootClasses_keeps a declared).trans (reads _ _)

theorem types_keeps (a : Analysis) (s : ServiceId) (sources : Except ModuleError ClassNameSet) :
    a.Keeps (a.types s sources).2 := by
  cases hm : (a.service s).module with
  | none => simp only [types, hm]; exact .refl a
  | some m =>
      cases sources with
      | error _ => simp only [types, hm]; exact .refl a
      | ok sources =>
          simp only [types, hm, localClasses]
          split
          · exact .refl a
          · exact .of_eq rfl rfl rfl rfl rfl

theorem keepContext_keeps (a : Analysis) (m : ModuleId) (x : FileContext) :
    a.Keeps (a.keepContext m x).2 := by
  unfold keepContext
  split
  · exact .refl a
  · dsimp only
    rw [destroyContexts_eq]
    exact .of_eq rfl rfl rfl rfl rfl

theorem resumeContext_keeps (a : Analysis) (m : ModuleId) (stage : ContextStage) (reply : Answer) :
    a.Keeps (a.resumeContext m stage reply).2 := by
  unfold resumeContext
  split
  case h_3 =>
      dsimp only
      split
      · exact .refl a
      · exact keepContext_keeps a m _
  case h_5 => exact (updateBoot_keeps a _).trans (keepContext_keeps _ m _)
  all_goals exact .refl a

/-! ## Passes -/

/-- A service that was built is one of the module, and nobody has released it. -/
def Built.New (m : ModuleId) : Built → Prop
  | .service x => x.module = some m ∧ x.destroyed = false
  | _ => True

theorem withContext_keeps (a : Analysis) (m : ModuleId) (p : ContextProgress) :
    a.Keeps (a.withContext m p).2 ∧ (a.withContext m p).1.New m := by
  cases p with
  | failed e => exact ⟨.refl a, trivial⟩
  | asks q stage => exact ⟨.refl a, trivial⟩
  | found c =>
      have hd := dependencyClasses_keeps a (a.context c).classPaths.toList
      simp only [withContext]
      split
      · exact ⟨hd, trivial⟩
      · exact ⟨hd.trans (moduleBootClasses_keeps _ none), rfl, rfl⟩

theorem resumeBuild_keeps (a : Analysis) (m : ModuleId) (stage : Stage) (reply : Answer) :
    a.Keeps (a.resumeBuild m stage reply).2 ∧ (a.resumeBuild m stage reply).1.New m := by
  unfold resumeBuild
  split
  case h_1 =>
      obtain ⟨hk, hn⟩ := withContext_keeps (a.resumeContext m _ reply).2 m (a.resumeContext m _ reply).1
      exact ⟨(resumeContext_keeps a m _ reply).trans hk, hn⟩
  case h_2 => exact ⟨.refl a, trivial⟩
  case h_3 => exact ⟨moduleBootClasses_keeps a _, rfl, rfl⟩

/-- How many passes of gets have begun: each one found its service missing or stale. -/
def passes (a : Analysis) : Nat :=
  a.stats.misses + a.stats.staleRebuilds

/-- A get goes on from a state within a pass that began at an epoch. -/
structure Advances (m : ModuleId) (epoch : Nat) (a : Analysis) (r : Progress × Analysis) : Prop where
  turnover : a.Turnover (fun k s => k = m ∧ s = a.services.size ∧ r.1 = .found s) r.2
  epoch_eq : r.2.epoch = a.epoch
  asks : ∀ {q p}, r.1 = .asks q p → p.epoch = epoch
  found : ∀ {s}, r.1 = .found s → (r.2.service s).destroyed = false

theorem destroyed_addService_iff {x : Service} (hx : x.destroyed = false) :
    ((a.addService m x).service s).destroyed = true ↔ (a.service s).destroyed = true := by
  by_cases hs : s = a.services.size
  · subst hs
    rw [service_addService_self, hx, service, Row.get_of_size_le (Nat.le_refl _)]
    rfl
  · rw [service_addService_of_ne hs]

/-- A service comes in the place of one that is released by now, unless stale services are retained. -/
theorem addService_turnover {x : Service} (hx : x.destroyed = false)
    (before : a.policy = .dispose → ∀ s, a.registered.get? m = some s → (a.service s).destroyed = true) :
    a.Turnover (fun k s => k = m ∧ s = a.services.size) (a.addService m x) where
  policy := rfl
  registered hr := (registered_addService hr).symm.imp_right And.symm
  destroyed := (destroyed_addService_iff hx).mpr
  released hd := Or.inl ((destroyed_addService_iff hx).mp hd)
  disposed hp k s hr := by
    by_cases hk : k = m
    · subst hk
      exact Or.inr ((destroyed_addService_iff hx).mpr (before hp s hr))
    · exact Or.inl ((Table.get?_put_of_ne hk).trans hr)

theorem register_advances (h : a.Sound rs) {x : Service} (hx : x.destroyed = false) (m : ModuleId)
    (epoch : Nat) :
    a.Advances m epoch (.found (a.register m x).1, (a.register m x).2) ∧
      (a.register m x).2.stats = a.stats := by
  cases hs : a.liveService? m with
  | some s =>
      have he : a.register m x = (s, a) := by simp only [register, hs]
      obtain ⟨hr, hl⟩ := liveService?_eq_some hs
      rw [he]
      refine ⟨⟨(Keeps.refl a).mono fun _ _ hf => hf.elim, rfl, ?_, ?_⟩, rfl⟩
      · intro q p hq
        cases hq
      · intro s' hf
        cases hf
        exact ((isLive_iff (h.registered hr)).mp hl).1
  | none =>
      have ht : a.Turnover (fun _ _ => False) (a.destroyServices (a.outgoing m)) := by
        apply destroyServices_turnover h
        · exact fun s hs => ⟨m, get?_of_mem_outgoing hs⟩
        · exact id
        · exact fun _ _ _ hr => Or.inl hr
      have hadd : (a.destroyServices (a.outgoing m)).Turnover
          (fun k s => k = m ∧ s = (a.destroyServices (a.outgoing m)).services.size)
          ((a.destroyServices (a.outgoing m)).addService m x) := by
        apply addService_turnover hx
        intro hp s hr
        have hra := (ht.registered hr).resolve_right id
        have hmem : s ∈ a.outgoing m := by
          rw [outgoing, ← ht.policy, hp]
          exact Option.mem_toList.mpr hra
        exact (destroyed_destroyServices (h.lt_of_registered hra)).mpr (Or.inr hmem)
      rw [register_of_none h.registered x hs]
      rw [services_size_destroyServices] at hadd
      refine ⟨⟨(ht.trans hadd).mono ?_, ?_, ?_, ?_⟩, ?_⟩
      · rintro k s ⟨rfl, rfl⟩
        exact ⟨rfl, rfl, rfl⟩
      · rw [destroyServices_eq]; rfl
      · intro q p hq
        cases hq
      · intro s hf
        cases hf
        rw [← services_size_destroyServices a (a.outgoing m), service_addService_self]
        exact hx
      · rw [destroyServices_eq]; rfl

theorem settle_advances (h : a.Sound rs) {b : Built} (hb : b.New m) (epoch : Nat) :
    a.Advances m epoch (a.settle m b epoch) ∧ (a.settle m b epoch).2.passes = a.passes := by
  cases b with
  | service x =>
      obtain ⟨ha, hs⟩ := register_advances h hb.2 m epoch
      exact ⟨ha, by rw [settle, passes, hs, passes]⟩
  | failed e => exact ⟨⟨.mono (.of_eq rfl rfl fun _ => rfl) nofun, rfl, nofun, nofun⟩, rfl⟩
  | asks q stage =>
      refine ⟨⟨(Keeps.refl a).mono nofun, rfl, fun hf => ?_, nofun⟩, rfl⟩
      cases hf
      rfl

theorem Advances.of_turnover {epoch : Nat} {r : Progress × Analysis}
    (ht : a.Turnover (fun _ _ => False) b) (he : b.epoch = a.epoch)
    (hsize : b.services.size = a.services.size) (h : b.Advances m epoch r) : a.Advances m epoch r where
  turnover := hsize ▸ ht.trans h.turnover
  epoch_eq := h.epoch_eq.trans he
  asks := h.asks
  found := h.found

/-- A get that finds no live service begins a pass. -/
theorem begin_advances (h : a.Sound rs) (hl : a.liveService? m = none) :
    a.Advances m a.epoch (a.begin m) ∧ (a.begin m).2.passes = a.passes + 1 := by
  simp only [begin, hl]
  generalize hstats : (if a.registered.has m then _ else _ : Stats) = stats
  have hpasses : stats.misses + stats.staleRebuilds = a.passes + 1 := by
    rw [← hstats, passes]
    split <;> simp only <;> omega
  have e₁ : a.Evolves rs { a with stats } := Scans.evolves h ⟨_, _, _, _, rfl⟩
  have hpurge := purge_keeps e₁.sound
  have e₂ := e₁.trans (purge_evolves e₁.sound)
  generalize ({ a with stats }.purge.2) = b at hpurge e₂
  have hholds : (b.beginContext m).Holds b m 0 := beginContext_holds e₂.sound (Nat.zero_le _)
  have e₃ := (withContext_evolves e₂.sound hholds b.epoch).1
  obtain ⟨hwith, hnew⟩ := withContext_keeps b m (b.beginContext m)
  have hk := hpurge.trans hwith
  obtain ⟨hadv, hsame⟩ := settle_advances e₃.sound hnew (b.withContext m (b.beginContext m)).2.epoch
  have hepoch : (b.withContext m (b.beginContext m)).2.epoch = a.epoch := hk.epoch
  constructor
  · rw [hepoch] at hadv ⊢
    exact .of_turnover (b := { a with stats }) (.of_eq rfl rfl fun _ => rfl) rfl rfl
      (.of_turnover hk.toTurnover hk.epoch hk.services_size hadv)
  · rw [hsame, passes, hk.stats]
    exact hpasses

theorem begin_of_live (hl : a.liveService? m = some s) :
    (a.begin m).1 = .found s ∧ a.Turnover (fun _ _ => False) (a.begin m).2 ∧
      (a.begin m).2.epoch = a.epoch ∧ (a.begin m).2.passes = a.passes ∧
      (a.begin m).2.services = a.services := by
  have he : a.begin m = (.found s, { a with stats := { a.stats with hits := a.stats.hits + 1 } }) := by
    simp only [begin, hl]
  rw [he]
  exact ⟨rfl, .of_eq rfl rfl fun _ => rfl, rfl, rfl, rfl⟩

/-- A get that begins finds a live service at once, or it begins a pass. -/
theorem begin_cases (h : a.Sound rs) (m : ModuleId) :
    (∃ s, (a.begin m).1 = .found s ∧ s < a.services.size ∧ (a.begin m).2.passes = a.passes) ∨
      (a.begin m).2.passes = a.passes + 1 ∧
        ∀ {q p}, (a.begin m).1 = .asks q p → p.epoch = a.epoch := by
  cases hl : a.liveService? m with
  | some s =>
      obtain ⟨hf, -, -, hp, -⟩ := begin_of_live hl
      exact Or.inl ⟨s, hf, h.lt_of_registered (liveService?_eq_some hl).1, hp⟩
  | none =>
      obtain ⟨hadv, hp⟩ := begin_advances h hl
      exact Or.inr ⟨hp, hadv.asks⟩

theorem epoch_begin (h : a.Sound rs) (m : ModuleId) : (a.begin m).2.epoch = a.epoch := by
  cases hl : a.liveService? m with
  | some s => exact (begin_of_live hl).2.2.1
  | none => exact (begin_advances h hl).1.epoch_eq

theorem destroyed_begin (h : a.Sound rs) (hf : (a.begin m).1 = .found s) :
    ((a.begin m).2.service s).destroyed = false := by
  cases hl : a.liveService? m with
  | some t =>
      obtain ⟨ht, -, -, -, hs⟩ := begin_of_live hl
      obtain ⟨hr, hlive⟩ := liveService?_eq_some hl
      cases ht.symm.trans hf
      rw [service, hs]
      exact ((isLive_iff (h.registered hr)).mp hlive).1
  | none => exact (begin_advances h hl).1.found hf

theorem begin_turnover (h : a.Sound rs) (m : ModuleId) :
    a.Turnover (fun k s => k = m ∧ s = a.services.size ∧ (a.begin m).1 = .found s) (a.begin m).2 := by
  cases hl : a.liveService? m with
  | some s =>
      obtain ⟨-, ht, -⟩ := begin_of_live hl
      exact ht.mono nofun
  | none => exact (begin_advances h hl).1.turnover

/-- A get goes on in its pass, and it ends in a service only if nothing was torn down since the pass began;
or else it begins anew. -/
theorem resume_cases (h : a.Sound rs) {p : Pending} {q : Question} {reply : Answer}
    (hp : p.Holds rs a m 0 q (some reply)) :
    (a.Advances m p.epoch (a.resume p reply) ∧ (a.resume p reply).2.passes = a.passes ∧
        ∀ s, (a.resume p reply).1 = .found s → a.epoch = p.epoch) ∨
      ∃ b, a.Keeps b ∧ b.Sound rs ∧ a.epoch ≠ p.epoch ∧ a.resume p reply = b.begin m := by
  obtain ⟨rfl, hm, hs, he, hst⟩ := hp
  obtain ⟨e, -⟩ := resumeBuild_evolves h hm hs hst
  obtain ⟨hk, hnew⟩ := resumeBuild_keeps a p.module p.stage reply
  rw [resume]
  generalize a.resumeBuild p.module p.stage reply = r at e hk hnew
  obtain ⟨b, c⟩ := r
  have go : a.Advances p.module p.epoch (c.settle p.module b p.epoch) ∧
      (c.settle p.module b p.epoch).2.passes = a.passes := by
    obtain ⟨hadv, hsame⟩ := settle_advances e.sound hnew p.epoch
    exact ⟨.of_turnover hk.toTurnover hk.epoch hk.services_size hadv, by rw [hsame, passes, hk.stats, passes]⟩
  cases b with
  | failed _ =>
      refine Or.inl ⟨go.1, go.2, ?_⟩
      intro s hs
      cases hs
  | asks _ _ =>
      refine Or.inl ⟨go.1, go.2, ?_⟩
      intro s hs
      cases hs
  | service x =>
      by_cases hep : c.epoch = p.epoch
      · simp only [if_pos hep]
        exact Or.inl ⟨go.1, go.2, fun _ _ => hk.epoch.symm.trans hep⟩
      · simp only [if_neg hep]
        exact Or.inr ⟨c, hk, e.sound, fun ha => hep (hk.epoch.trans ha), rfl⟩

theorem resume_turnover (h : a.Sound rs) {p : Pending} {q : Question} {reply : Answer}
    (hp : p.Holds rs a m 0 q (some reply)) :
    a.Turnover (fun k s => k = m ∧ s = a.services.size ∧ (a.resume p reply).1 = .found s)
      (a.resume p reply).2 := by
  rcases resume_cases h hp with ⟨hadv, -⟩ | ⟨b, hk, hb, -, he⟩
  · exact hadv.turnover
  · rw [he, ← hk.services_size]
    exact hk.toTurnover.trans (begin_turnover hb m)

end ClassScope.Analysis
