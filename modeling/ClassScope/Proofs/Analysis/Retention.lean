import ClassScope.Proofs.Analysis.Disposal
import ClassScope.Proofs.Analysis.Parts

/-!
# Stale services that are retained

Where stale services are retained, no service is released but by a teardown or by a holder. Contexts are not
retained: a module that has come to declare something else gets a new context, and the old one is released,
whatever services there are over it.
-/

namespace ClassScope

variable {rs : List ServiceId} {a b : Analysis} {m : ModuleId} {r : Progress × Analysis}

namespace Analysis

/-- No service is released, and a context only for a newer one of its module, once the module has come to
declare something else. -/
structure Retained (a : Analysis) : Prop where
  policy : a.policy = .retain
  services : ∀ s, (a.service s).destroyed = false
  replaced : ∀ {c m}, (a.context c).module = some m → (a.context c).destroyed = true →
    (a.context c).generation < (a.module m).generation ∧ ∃ i, a.cached.get? m = some i ∧ c < i

namespace Retained

variable (k : a.Retained)

include k

theorem scans (h : a.Scans b) : b.Retained := by
  obtain ⟨_, _, _, _, rfl⟩ := h
  exact ⟨k.policy, k.services, k.replaced⟩

theorem cached (h : a.Sound rs) {c : ContextId} (hc : a.cached.get? m = some c) :
    (a.context c).destroyed = false := by
  rw [← Bool.not_eq_true]
  intro hd
  obtain ⟨-, i, hi, hlt⟩ := k.replaced (h.cached hc) hd
  cases hc.symm.trans hi
  exact Nat.lt_irrefl _ hlt

theorem purge_eq : a.purge.2 = a := by
  simp only [purge, k.policy]

theorem modules (h : a.Sound rs) {modules : Row Module} (g : a.modules.Grows Module.Later modules) :
    ({ a with modules }).Retained where
  policy := k.policy
  services := k.services
  replaced hm hd := by
    obtain ⟨hg, newer⟩ := k.replaced hm hd
    exact ⟨Nat.lt_of_lt_of_le hg (g.rel (h.module_lt hm)).generation_le, newer⟩

theorem refresh (s : ServiceId) (declared : Option (List Path)) : (a.refresh s declared).Retained := by
  obtain ⟨b, hs, he⟩ := refresh_eq a s declared
  have kb := k.scans hs
  rw [he]
  refine ⟨kb.policy, fun t => ?_, kb.replaced⟩
  have same : ((b.services.modify s fun x => { x with boot := a.bootRead s declared }).get t).destroyed =
      (b.services.get t).destroyed := by
    refine Row.get_modify_rel (R := fun x y : Service => y.destroyed = x.destroyed) ?_ ?_ s t
    · exact fun _ => rfl
    · exact fun _ => rfl
  exact same.trans (kb.services t)

theorem keepContext (h : a.Sound rs) {x : FileContext} (destroyed : x.destroyed = false) :
    (a.keepContext m x).2.Retained := by
  cases hc : a.currentContext? m with
  | some c =>
      simp only [Analysis.keepContext, hc]
      exact k
  | none =>
      let before := (a.cached.get? m).toList
      have hsize := contexts_size_destroyContexts a before
      rw [keepContext_of_none h.cached x hc]
      refine ⟨?_, ?_, ?_⟩
      · rw [destroyContexts_eq]
        exact k.policy
      · rw [destroyContexts_eq]
        exact k.services
      · intro c n hn hd
        have hne : c ≠ (a.destroyContexts before).contexts.size := by
          rintro rfl
          rw [context_addContext_self, destroyed] at hd
          cases hd
        rw [context_addContext_of_ne hne] at hn hd ⊢
        have hlt : c < a.contexts.size := hsize ▸ lt_of_context hn
        have hp := destroyContexts_persists a before
        rw [hp.context_module_eq hlt] at hn
        have hmodule : ((a.destroyContexts before).addContext m x).module n = a.module n := by
          rw [destroyContexts_eq]
          rfl
        have hother (hnm : n ≠ m) : ((a.destroyContexts before).addContext m x).cached.get? n =
            a.cached.get? n := by
          rw [destroyContexts_eq]
          exact Table.get?_put_of_ne hnm
        have hnew : ((a.destroyContexts before).addContext m x).cached.get? m = some a.contexts.size := by
          rw [← hsize]
          exact Table.get?_put_self
        rw [hp.context_generation_eq hlt, hmodule]
        rcases (destroyed_destroyContexts hlt).mp hd with hda | hmem
        · obtain ⟨hg, i, hi, hci⟩ := k.replaced hn hda
          refine ⟨hg, ?_⟩
          by_cases hnm : n = m
          · subst hnm
            exact ⟨_, hnew, hlt⟩
          · exact ⟨i, (hother hnm).trans hi, hci⟩
        · -- The context that makes place was the module's one, and it was no longer current.
          have hcm := Option.mem_toList.mp hmem
          cases hn.symm.trans (h.cached hcm)
          have hdc := k.cached h hcm
          have hne : (a.context c).generation ≠ (a.module m).generation :=
            fun he => not_isCurrent_of_currentContext? hc hcm ⟨hdc, he⟩
          exact ⟨Nat.lt_of_le_of_ne (h.generation_le hn) hne, _, hnew, hlt⟩

theorem register {x : Service} (destroyed : x.destroyed = false) : (a.register m x).2.Retained := by
  cases hs : a.liveService? m with
  | some s =>
      simp only [Analysis.register, hs]
      exact k
  | none =>
      have he : (a.register m x).2 = a.addService m x := by
        simp only [Analysis.register, hs]
        split
        case h_1 hp => cases hp.symm.trans k.policy
        case h_2 => rfl
      rw [he]
      refine ⟨k.policy, fun s => ?_, k.replaced⟩
      rw [← Bool.not_eq_true, destroyed_addService_iff destroyed, Bool.not_eq_true]
      exact k.services s

theorem settles (hr : a.Settles m r) : r.2.Retained := by
  cases hr with
  | scans h _ _ => exact k.scans h
  | registers _ destroyed => exact k.register destroyed

theorem begins (hr : a.Begins m r) : r.2.Retained := by
  cases hr with
  | live _ scans => exact k.scans scans
  | pass before after hs =>
      have kb := k.scans before
      rw [kb.purge_eq] at after
      exact (kb.scans after).settles hs

theorem prepares (h : a.Sound rs) (hb : a.Prepares m b) : b.Retained := by
  cases hb with
  | scans hs => exact k.scans hs
  | keeps before _ destroyed after =>
      exact ((k.scans before).keepContext (before.evolves h).sound destroyed).scans after

theorem resume (h : a.Sound rs) (p : Pending) (reply : Answer) : (a.resume p reply).2.Retained := by
  obtain ⟨b, hb, hr⟩ := resume_settles_or_begins a p reply
  have kb := k.prepares h hb
  rcases hr with hr | hr
  · exact kb.settles hr
  · exact kb.begins hr

end Retained

end Analysis

/-- Somebody releases services: all of them, or one that was got. -/
def Event.Releases : Event → Prop
  | .destroyAll => True
  | .destroy _ => True
  | _ => False

namespace Session

variable {x : Session}

theorem retained_step (k : x.analysis.Retained) (h : x.Sound) {e : Event} (he : ¬ e.Releases) :
    (x.step e).analysis.Retained := by
  have modules {modules : Row Module} (g : x.analysis.modules.Grows Module.Later modules) :=
    k.modules h.analysis g
  have modify (m : ModuleId) (f : Module → Module) (hf : ∀ u : Module, u.Later (f u)) :=
    modules (.modify Module.Later.refl _ m hf)
  cases e with
  | add m => exact modules (.push Module.Later.refl _ _)
  | reconfigure m settings => exact modify m _ (.reconfigure settings)
  | detach m => exact modify m _ .detach
  | hinder m c b s => exact modify m _ fun u => ⟨Nat.le_refl _, fun _ => rfl, id⟩
  | start m =>
      simp only [step]
      split
      · exact k.begins (Analysis.begin_begins _ _)
      · exact k
  | answer i =>
      simp only [step]
      split
      · exact k
      · exact k
  | resume i =>
      simp only [step]
      split
      · exact k.resume h.analysis _ _
      · exact k
  | purge =>
      show x.analysis.purge.2.Retained
      rw [k.purge_eq]
      exact k
  | size =>
      show x.analysis.purge.2.Retained
      rw [k.purge_eq]
      exact k
  | destroyAll => exact absurd trivial he
  | destroy s => exact absurd trivial he
  | refresh s declared =>
      simp only [step]
      split
      · exact k.refresh s declared
      · exact k
  | types s sources => exact k.scans (Analysis.types_scans _ s sources)
  | files d => exact k.scans ⟨_, _, _, _, rfl⟩

theorem retained_run (k : x.analysis.Retained) (h : x.Sound) {es : List Event} (hes : ∀ e ∈ es, ¬ e.Releases) :
    (x.run es).analysis.Retained := by
  induction es generalizing x with
  | nil => exact k
  | cons e es ih =>
      obtain ⟨he, hes⟩ := List.forall_mem_cons.mp hes
      exact ih (retained_step k h he) (h.step e) hes

theorem ofConfig_retained (c : Config) (env : Environment) (d : Disk) (hc : c.stale = .retain) :
    (ofConfig c env d).analysis.Retained where
  policy := hc
  services s := by cases s <;> rfl
  replaced {i} _ _ hd := by cases i <;> cases hd

/-- Where stale services are retained, no service that a get has returned is ever released. Its context is
released just when another one has taken its place, which its module must have declared something else for. -/
theorem retained_service_undestroyed (c : Config) (env : Environment) (d : Disk) (es : List Event)
    (hc : c.stale = .retain) (hes : ∀ e ∈ es, ¬ e.Releases) :
    let x := (ofConfig c env d).run es
    ∀ m s, x.Returned m s →
      (x.analysis.service s).destroyed = false ∧
      ((x.analysis.context (x.analysis.service s).context).destroyed = true ↔
        ∃ i, x.analysis.cached.get? m = some i ∧ (x.analysis.service s).context < i) ∧
      ((x.analysis.context (x.analysis.service s).context).destroyed = true →
        (x.analysis.service s).generation < (x.analysis.module m).generation) := by
  intro x m s r
  have h : x.Sound := run_sound (ofConfig_sound c env d) es
  have k : x.analysis.Retained := retained_run (ofConfig_retained c env d hc) (ofConfig_sound c env d) hes
  have hm := r.module h
  have hmc := h.analysis.context_module hm
  refine ⟨k.services s, ⟨fun hd => (k.replaced hmc hd).2, ?_⟩, ?_⟩
  · rintro ⟨i, hi, hlt⟩
    rw [← Bool.not_eq_false]
    intro hd
    cases hi.symm.trans (h.analysis.kept hmc hd)
    exact Nat.lt_irrefl _ hlt
  · intro hd
    have hg := (k.replaced hmc hd).1
    rw [h.analysis.context_generation hm] at hg
    exact hg

/-- A platform module is configured anew and asked for again. That get fails, once it has made a context. -/
def reconfigured : List Event :=
  [.add { name := "app", path := ⟨[]⟩, settings := { kind := .platform } },
    .start 0, .answer 0, .resume 0, .answer 0, .resume 0, .answer 0, .resume 0,
    .reconfigure 0 { kind := .platform },
    .start 0, .answer 1, .resume 1, .answer 1, .resume 1,
    .hinder 0 none (some (.unavailable "app" "closed")) none, .answer 1, .resume 1]

theorem context_destroyed_of_retained_service :
    let x := (ofConfig { stale := .retain } {} (.empty 0)).run reconfigured
    x.analysis.registered.get? 0 = some 1 ∧ (x.analysis.service 1).destroyed = false ∧
      (x.analysis.context (x.analysis.service 1).context).destroyed = true ∧
      (x.analysis.service 1).generation < (x.analysis.module 0).generation := by
  intro x
  have quiet : ∀ e ∈ reconfigured, ¬ e.Releases := by simp [reconfigured, Event.Releases]
  obtain ⟨alive, released, declared⟩ :=
    retained_service_undestroyed { stale := .retain } {} (.empty 0) reconfigured rfl quiet 0 1
      ⟨0, by decide +kernel⟩
  have destroyed := released.mpr ⟨2, by decide +kernel⟩
  exact ⟨by decide +kernel, alive, destroyed, declared destroyed⟩

end Session

end ClassScope
