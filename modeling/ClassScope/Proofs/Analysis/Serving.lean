import ClassScope.Proofs.Analysis.Parts
import ClassScope.Proofs.Analysis.Visibility

/-!
# Services stay what they are

Gets, teardowns and releases leave to a service everything but whether it is released, and the registry and the
gets know services by their modules. Only reading its boot classes anew changes what a service answers from. All
this holds of every state, sound or not.
-/

namespace ClassScope

variable {a b c : Analysis} {m : ModuleId} {s : ServiceId} {r : Progress × Analysis}

namespace Analysis

/-! ## Changes of services -/

/-- The registry knows services by their modules. -/
def Filed (a : Analysis) : Prop :=
  ∀ ⦃m s⦄, a.registered.get? m = some s → (a.service s).module = some m

/-- Services may be added and released. -/
structure Serves (a b : Analysis) : Prop where
  size_le : a.services.size ≤ b.services.size
  same : ∀ {s}, s < a.services.size → b.service s = { a.service s with destroyed := (b.service s).destroyed }
  filed : a.Filed → b.Filed

namespace Serves

theorem module (h : a.Serves b) (hm : (a.service s).module = some m) : (b.service s).module = some m := by
  rw [h.same (lt_of_service hm)]
  exact hm

theorem trans (h₁ : a.Serves b) (h₂ : b.Serves c) : a.Serves c where
  size_le := Nat.le_trans h₁.size_le h₂.size_le
  same hs := by rw [h₂.same (Nat.lt_of_lt_of_le hs h₁.size_le), h₁.same hs]
  filed h := h₂.filed (h₁.filed h)

theorem of_eq (services : b.services = a.services) (registered : b.registered = a.registered) : a.Serves b where
  size_le := Nat.le_of_eq (by rw [services])
  same _ := by rw [service, services, service]
  filed h _ _ hr := by
    rw [service, services]
    exact h (registered ▸ hr)

theorem refl (a : Analysis) : a.Serves a :=
  of_eq rfl rfl

/-- Services may be released and forgotten. -/
theorem of_frames (f : a.Frames b) (size : b.services.size = a.services.size)
    (registered : ∀ {m s}, b.registered.get? m = some s → a.registered.get? m = some s) : a.Serves b where
  size_le := Nat.le_of_eq size.symm
  same _ := f.service _
  filed h _ s hr := by
    rw [f.service s]
    exact h (registered hr)

end Serves

theorem Scans.serves (h : a.Scans b) : a.Serves b := by
  obtain ⟨_, _, _, _, rfl⟩ := h
  exact .of_eq rfl rfl

theorem destroyContexts_serves (a : Analysis) (cs : List ContextId) : a.Serves (a.destroyContexts cs) := by
  rw [destroyContexts_eq]
  exact .of_eq rfl rfl

theorem purgeContexts_serves (a : Analysis) : a.Serves a.purgeContexts.2 := by
  rw [purgeContexts_eq]
  exact .of_eq rfl rfl

theorem clearContexts_serves (a : Analysis) : a.Serves a.clearContexts := by
  rw [clearContexts, destroyContexts_eq]
  exact .of_eq rfl rfl

theorem keepContext_serves (a : Analysis) (m : ModuleId) (x : FileContext) : a.Serves (a.keepContext m x).2 := by
  unfold keepContext
  split
  · exact .refl a
  · dsimp only
    rw [destroyContexts_eq]
    exact .of_eq rfl rfl

theorem destroyServices_serves (a : Analysis) (ss : List ServiceId) : a.Serves (a.destroyServices ss) := by
  refine .of_frames (destroyServices_frames a ss) (services_size_destroyServices a ss) ?_
  rw [destroyServices_eq]
  exact id

/-- Services are forgotten, and others are released. -/
theorem forget_serves {epoch : Nat} {registered : Table ModuleId ServiceId}
    (kept : ∀ {m s}, registered.get? m = some s → a.registered.get? m = some s) :
    a.Serves { a with epoch, registered } where
  size_le := Nat.le_refl _
  same _ := rfl
  filed h _ _ hr := h (kept hr)

theorem purge_serves (a : Analysis) : a.Serves a.purge.2 := by
  unfold purge
  split
  case h_1 => exact .refl a
  case h_2 =>
      have kept : a.Serves { a with registered := a.registered.filter fun _ s => a.IsLive s } :=
        forget_serves fun hr => (Table.get?_filter_eq_some_iff.mp hr).1
      exact (kept.trans (destroyServices_serves _ _)).trans (purgeContexts_serves _)

theorem destroyAll_serves (a : Analysis) : a.Serves a.destroyAll := by
  have forgotten : a.Serves { a with epoch := a.epoch + 1, registered := ∅ } := forget_serves nofun
  have released := (forgotten.trans (destroyServices_serves _ (a.registered.entries.map (·.2)))).trans
    (clearContexts_serves _)
  exact released.trans (.of_eq rfl rfl)

theorem addService_serves (a : Analysis) {x : Service} (hx : x.module = some m) : a.Serves (a.addService m x) where
  size_le := by simp [addService]
  same hs := by rw [service_addService_of_ne (Nat.ne_of_lt hs)]
  filed h k s hr := by
    rcases registered_addService hr with ⟨rfl, rfl⟩ | hold
    · rw [service_addService_self]
      exact hx
    · rw [service_addService_of_ne (Nat.ne_of_lt (lt_of_service (h hold)))]
      exact h hold

/-! ## Gets -/

theorem register_serves (a : Analysis) {x : Service} (hx : x.module = some m) : a.Serves (a.register m x).2 := by
  unfold register
  split
  · exact .refl a
  · dsimp only
    split
    · exact (addService_serves a hx).trans (destroyServices_serves _ _)
    · exact addService_serves a hx

/-- A get for a module ends in a service of that module, or it waits for the module. -/
structure Returns (m : ModuleId) (a : Analysis) (r : Progress × Analysis) : Prop where
  serves : a.Serves r.2
  found : ∀ {s}, r.1 = .found s → a.Filed → (r.2.service s).module = some m
  asks : ∀ {q p}, r.1 = .asks q p → p.module = m

theorem Returns.after (h : a.Serves b) (hr : b.Returns m r) : a.Returns m r where
  serves := h.trans hr.serves
  found hs filed := hr.found hs (h.filed filed)
  asks := hr.asks

theorem register_returns (a : Analysis) {x : Service} (hx : x.module = some m) :
    a.Returns m (.found (a.register m x).1, (a.register m x).2) := by
  refine ⟨register_serves a hx, ?_, nofun⟩
  intro s hs filed
  cases hs
  cases hl : a.liveService? m with
  | some t =>
      simp only [register, hl]
      exact filed (liveService?_eq_some hl).1
  | none =>
      have hmodule : ((a.addService m x).service a.services.size).module = some m := by
        rw [service_addService_self]
        exact hx
      simp only [register, hl]
      split
      · exact (destroyServices_serves (a.addService m x) _).module hmodule
      · exact hmodule

theorem Settles.returns (h : a.Settles m r) : a.Returns m r := by
  cases h with
  | scans h unfound asks => exact ⟨h.serves, fun hs => absurd hs (unfound _), asks⟩
  | registers module _ => exact register_returns a module

theorem Begins.returns (h : a.Begins m r) : a.Returns m r := by
  cases h with
  | live found scans =>
      refine ⟨scans.serves, ?_, nofun⟩
      intro s hs filed
      cases hs
      exact scans.serves.module (filed (liveService?_eq_some found).1)
  | pass before after settles =>
      exact .after ((before.serves.trans (purge_serves _)).trans after.serves) settles.returns

theorem Prepares.serves (h : a.Prepares m b) : a.Serves b := by
  cases h with
  | scans h => exact h.serves
  | keeps before _ _ after => exact (before.serves.trans (keepContext_serves _ m _)).trans after.serves

theorem begin_returns (a : Analysis) (m : ModuleId) : a.Returns m (a.begin m) :=
  (begin_begins a m).returns

theorem resume_returns (a : Analysis) (p : Pending) (reply : Answer) : a.Returns p.module (a.resume p reply) := by
  obtain ⟨b, hb, hr⟩ := resume_settles_or_begins a p reply
  rcases hr with hr | hr
  · exact .after hb.serves hr.returns
  · exact .after hb.serves hr.returns

/-! ## Reading anew, and listing -/

theorem service_refresh (a : Analysis) {t : ServiceId} (hs : s < a.services.size)
    (declared : Option (List Path)) :
    (a.refresh t declared).service s =
      if t = s then { a.service s with boot := a.bootRead t declared } else a.service s := by
  obtain ⟨b, hb, he⟩ := refresh_eq a t declared
  obtain ⟨_, _, _, _, rfl⟩ := hb
  rw [he]
  exact Row.get_modify hs

theorem registered_refresh (a : Analysis) (t : ServiceId) (declared : Option (List Path)) :
    (a.refresh t declared).registered = a.registered := by
  obtain ⟨b, hb, he⟩ := refresh_eq a t declared
  obtain ⟨_, _, _, _, rfl⟩ := hb
  rw [he]

theorem services_size_refresh (a : Analysis) (t : ServiceId) (declared : Option (List Path)) :
    (a.refresh t declared).services.size = a.services.size := by
  obtain ⟨b, hb, he⟩ := refresh_eq a t declared
  obtain ⟨_, _, _, _, rfl⟩ := hb
  rw [he]
  exact Row.size_modify _ _ _

theorem mem_localClasses {sources : ClassNameSet} {outputs : List Path} {name : String} :
    name ∈ (a.localClasses sources outputs).1 ↔
      name ∈ sources ∨ name ∈ (Scan.all a.dependencies.index (outputs.filter a.disk.has) a.disk).1.classes := by
  unfold localClasses
  split
  case h_1 h =>
      have hnone : name ∉ (Scan.all a.dependencies.index [] a.disk).1.classes := ClassNameSet.not_mem_empty name
      rw [h]
      simp [hnone]
  case h_2 => exact ClassNameSet.mem_merge

theorem isAvailable_iff {name : String} : a.isAvailable s name = true ↔
    name ∈ (a.service s).dependencies.classes ∨ name ∈ (a.service s).boot := by
  simp [isAvailable, ClassNameSet.contains]

/-- A name is among the classes of the own of a service's module: it is in the sources, which the module must
have told, or in one of the output directories that are there. -/
def Own (a : Analysis) (s : ServiceId) (sources : Except ModuleError ClassNameSet) (name : String) : Prop :=
  ∃ m own, (a.service s).module = some m ∧ sources = .ok own ∧ (name ∈ own ∨
    name ∈ (Scan.all a.dependencies.index ((a.module m).outputs.filter a.disk.has) a.disk).1.classes)

theorem mem_types {sources : Except ModuleError ClassNameSet} {name : String} :
    name ∈ (a.types s sources).1 ↔
      name ∈ (a.service s).dependencies.classes ∨ name ∈ (a.service s).boot ∨ a.Own s sources name := by
  have hempty : name ∉ (∅ : ClassNameSet) := ClassNameSet.not_mem_empty name
  cases hm : (a.service s).module with
  | none => simp [types, hm, ClassNameSet.mem_union, Own, hempty]
  | some m =>
      cases sources with
      | error e => simp [types, hm, ClassNameSet.mem_union, Own, hempty]
      | ok sources => simp [types, hm, ClassNameSet.mem_union, Own, mem_localClasses]

end Analysis

end ClassScope
