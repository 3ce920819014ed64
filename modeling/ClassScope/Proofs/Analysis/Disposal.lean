import ClassScope.Proofs.Analysis.Steps

/-!
# Nothing is left behind

Where stale services are not retained, a service that a get has returned stays registered until it is
released, however it leaves the registry. And whoever releases a service releases its context with it.
-/

namespace ClassScope.Session

variable {x : Session} {e : Event} {m : ModuleId} {s : ServiceId}

theorem returned_step (r : (x.step e).Returned m s) : x.Returned m s ∨ ∃ k, x.Returns e k m s :=
  (desk_step x e).returned_or_returns r

/-- Unless a holder releases a service, whoever leaves the registry is released, and nobody else is. -/
theorem step_turnover (h : x.Sound) (he : ∀ s, e ≠ .destroy s) :
    x.analysis.Turnover (fun m s => s = x.analysis.services.size ∧ ∃ k, x.Returns e k m s)
      (x.step e).analysis := by
  cases x.kind h e with
  | drives d =>
      rw [d.analysis_eq]
      refine (d.turnover h).mono ?_
      rintro m s ⟨rfl, hs, hf⟩
      exact ⟨hs, _, d.returns hf⟩
  | tears eq =>
      subst eq
      exact (Analysis.destroyAll_turnover h.analysis).mono nofun
  | releases eq => exact absurd eq (he _)
  | keeps hk => exact hk.mono nofun

theorem step_destroy_eq (x : Session) (s : ServiceId) :
    (x.step (.destroy s)).analysis =
      if s < x.analysis.services.size then x.analysis.destroyService s else x.analysis := by
  simp only [step]
  split
  · rfl
  · rfl

/-- What the session holds on to, and what it lets go of. -/
structure Tidy (x : Session) : Prop where
  policy : x.analysis.policy = .dispose
  returned : ∀ {m s}, x.Returned m s →
    x.analysis.registered.get? m = some s ∨ (x.analysis.service s).destroyed = true
  contexts : ∀ {s}, (x.analysis.service s).destroyed = true →
    (x.analysis.context (x.analysis.service s).context).destroyed = true

/-- Services that were released before have their contexts released before, and so have those of modules. -/
theorem Tidy.contexts_step (t : x.Tidy) (h : x.Sound)
    (released : ∀ s, ((x.step e).analysis.service s).destroyed = true →
      (x.analysis.service s).destroyed = true ∨ ∃ m, (x.analysis.service s).module = some m)
    (hd : ((x.step e).analysis.service s).destroyed = true) :
    ((x.step e).analysis.context ((x.step e).analysis.service s).context).destroyed = true := by
  have later := (step_steps h e).evolves.later
  rcases released s hd with hx | ⟨m, hm⟩
  · have hc := t.contexts hx
    rw [later.service_context_eq (Analysis.lt_of_destroyed hx)]
    exact (later.context (Analysis.lt_of_destroyed_context hc)).destroyed hc
  · have hm' := (later.service_module_eq (Analysis.lt_of_service hm)).trans hm
    exact (h.step e).analysis.destroyed hm' hd

theorem Tidy.step_destroy (t : x.Tidy) (h : x.Sound) (s : ServiceId) : (x.step (.destroy s)).Tidy := by
  have he := step_destroy_eq x s
  by_cases hs : s < x.analysis.services.size
  · rw [if_pos hs] at he
    have hp := Analysis.destroyService_persists x.analysis s
    refine ⟨?_, ?_, ?_⟩
    · rw [he, Analysis.destroyService_eq]
      exact t.policy
    · intro m i r
      rw [he]
      rcases returned_step r with r | ⟨k, r⟩
      · rcases t.returned r with hr | hd
        · rw [Analysis.destroyService_eq]
          exact Or.inl hr
        · exact Or.inr ((hp.service (Analysis.lt_of_destroyed hd)).destroyed hd)
      · left
        rw [← he]
        exact r.registered h
    · intro i
      rw [he]
      intro hd
      have hi : i < x.analysis.services.size := by
        have hlt := Analysis.lt_of_destroyed hd
        rw [Analysis.services_size_destroyService] at hlt
        exact hlt
      rw [hp.service_context_eq hi]
      apply (Analysis.destroyed_context_destroyService (h.analysis.context_lt i)).mpr
      rcases (Analysis.destroyed_destroyService hi).mp hd with hx | rfl
      · exact Or.inl (t.contexts hx)
      · cases hx : (x.analysis.service i).destroyed with
        | true => exact Or.inl (t.contexts hx)
        | false => exact Or.inr ⟨rfl, rfl⟩
  · have : x.step (.destroy s) = x := by simp only [step, if_neg hs]
    rw [this]
    exact t

theorem Tidy.step (t : x.Tidy) (h : x.Sound) (e : Event) : (x.step e).Tidy := by
  have other (he : ∀ s, e ≠ .destroy s) : (x.step e).Tidy := by
    have turn := step_turnover h he
    refine ⟨turn.policy.trans t.policy, ?_, ?_⟩
    · intro m s r
      rcases returned_step r with r | ⟨k, r⟩
      · rcases t.returned r with hr | hd
        · exact turn.disposed t.policy hr
        · exact Or.inr (turn.destroyed hd)
      · exact Or.inl (r.registered h)
    · intro s hd
      refine t.contexts_step h (fun i hi => ?_) hd
      rcases turn.released hi with hx | ⟨m, hr⟩
      · exact Or.inl hx
      · exact Or.inr ⟨m, h.analysis.registered hr⟩
  cases e with
  | destroy s => exact t.step_destroy h s
  | _ => exact other nofun

theorem Tidy.run (t : x.Tidy) (h : x.Sound) (es : List Event) : (x.run es).Tidy := by
  have both : (x.run es).Sound ∧ (x.run es).Tidy :=
    run_induction (P := fun y => y.Sound ∧ y.Tidy)
      (fun _ e ⟨h, t⟩ => ⟨h.step e, t.step h e⟩) ⟨h, t⟩ es
  exact both.2

theorem ofConfig_tidy (c : Config) (env : Environment) (d : Disk) (hc : c.stale = .dispose) :
    (ofConfig c env d).Tidy where
  policy := hc
  returned r := by
    obtain ⟨k, g, hk, -⟩ := r
    cases hk
  contexts := by
    intro s hd
    cases s with
    | zero => cases hd
    | succ s => cases hd

/-- Where stale services are not retained, every service that a get has returned is registered or released,
and the context of a released service is released too. -/
theorem returned_registered_or_destroyed (c : Config) (env : Environment) (d : Disk) (es : List Event)
    (hc : c.stale = .dispose) :
    let x := (ofConfig c env d).run es
    (∀ m s, x.Returned m s →
      x.analysis.registered.get? m = some s ∨ (x.analysis.service s).destroyed = true) ∧
    (∀ s, (x.analysis.service s).destroyed = true →
      (x.analysis.context (x.analysis.service s).context).destroyed = true) := by
  intro x
  have t : x.Tidy := (ofConfig_tidy c env d hc).run (ofConfig_sound c env d) es
  exact ⟨fun m s r => t.returned r, fun s hd => t.contexts hd⟩

/-- A second get returns first, its module is configured anew, and the first get comes in its place. -/
def displacing : List Event :=
  [.add { name := "app", path := ⟨[]⟩ }, .start 0, .start 0, .answer 1, .resume 1, .reconfigure 0 {},
    .answer 0, .resume 0]

theorem destroyed_of_displaced :
    (sample displacing).analysis.registered.get? 0 = some 2 ∧
      ((sample displacing).analysis.service 1).destroyed = true ∧
      ((sample displacing).analysis.context ((sample displacing).analysis.service 1).context).destroyed =
        true := by
  obtain ⟨kept, contexts⟩ := returned_registered_or_destroyed {} {} (.empty 0) displacing rfl
  have registered : (sample displacing).analysis.registered.get? 0 = some 2 := by decide +kernel
  have returned : (sample displacing).Returned 0 1 := ⟨1, by decide +kernel⟩
  have destroyed : ((sample displacing).analysis.service 1).destroyed = true := by
    rcases kept 0 1 returned with hr | hd
    · cases registered.symm.trans hr
    · exact hd
  exact ⟨registered, destroyed, contexts 1 destroyed⟩

end ClassScope.Session
