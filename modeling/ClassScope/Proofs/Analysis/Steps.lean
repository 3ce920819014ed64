import ClassScope.Proofs.Analysis.Registrations
import ClassScope.Proofs.Analysis.Services

/-!
# What one event does

An event drives one get, or it tears everything down, or a holder releases a service, or it concerns neither
the registry nor the gets on their way.
-/

namespace ClassScope.Session

variable {x : Session} {e : Event} {k : Nat} {m : ModuleId} {s : ServiceId} {r : Progress × Analysis}

def progress? (x : Session) (k : Nat) : Option Progress :=
  (x.gets.get? k).map (·.progress)

/-- What a get was asked for, and how far it has come. -/
def course? (x : Session) (k : Nat) : Option (ModuleId × Progress) :=
  (x.gets.get? k).map fun g => (g.module, g.progress)

theorem progress?_eq_course? (x : Session) (k : Nat) : x.progress? k = (x.course? k).map Prod.snd := by
  rw [progress?, course?, Option.map_map]
  rfl

/-- An event starts a get, or resumes it with the answer to its question. -/
inductive Drives (x : Session) : Event → Nat → ModuleId → Progress × Analysis → Prop where
  | start {m : ModuleId} (lt : m < x.analysis.modules.size) :
      Drives x (.start m) x.gets.size m (x.analysis.begin m)
  | resume {k : Nat} {m : ModuleId} {q : Question} {p : Pending} {reply : Answer}
      (waits : x.gets.get? k = some ⟨m, .asks q p, some reply⟩) :
      Drives x (.resume k) k m (x.analysis.resume p reply)

/-- The get that an event starts or resumes. -/
def driven? (x : Session) : Event → Option Nat
  | .start _ => some x.gets.size
  | .resume k => some k
  | _ => none

namespace Drives

theorem step_eq (d : x.Drives e k m r) :
    x.step e = { x with analysis := r.2, gets := (x.step e).gets } ∧
      (x.step e).gets.get? k = some { module := m, progress := r.1 } := by
  cases d with
  | start lt =>
      simp only [step, if_pos lt]
      exact ⟨trivial, Row.get?_push_self _ _⟩
  | resume waits =>
      simp only [step, waits]
      refine ⟨trivial, ?_⟩
      rw [Row.get?_modify, if_pos rfl, waits]
      rfl

theorem analysis_eq (d : x.Drives e k m r) : (x.step e).analysis = r.2 := by
  rw [d.step_eq.1]

theorem course?_eq (d : x.Drives e k m r) : (x.step e).course? k = some (m, r.1) := by
  rw [course?, d.step_eq.2]
  rfl

theorem progress?_eq (d : x.Drives e k m r) : (x.step e).progress? k = some r.1 := by
  rw [progress?_eq_course?, d.course?_eq]
  rfl

theorem driven?_eq (d : x.Drives e k m r) : x.driven? e = some k := by
  cases d with
  | start lt => rfl
  | resume waits => rfl

theorem returns (d : x.Drives e k m r) (hf : r.1 = .found s) : x.Returns e k m s := by
  refine ⟨?_, { module := m, progress := r.1 }, d.step_eq.2, rfl, hf⟩
  intro g hg
  cases d with
  | start lt => exact absurd (Row.lt_of_get? hg) (Nat.lt_irrefl _)
  | resume waits =>
      cases waits.symm.trans hg
      trivial

theorem turnover (d : x.Drives e k m r) (h : x.Sound) :
    x.analysis.Turnover (fun i s => i = m ∧ s = x.analysis.services.size ∧ r.1 = .found s) r.2 := by
  cases d with
  | start lt => exact Analysis.begin_turnover h.analysis m
  | resume waits => exact Analysis.resume_turnover h.analysis (h.gets waits)

end Drives

/-! ## The kinds of events -/

theorem step_eq_or_drives (hk : x.driven? e = some k) : x.step e = x ∨ ∃ m r, x.Drives e k m r := by
  cases e with
  | start m =>
      cases hk
      by_cases hm : m < x.analysis.modules.size
      · exact Or.inr ⟨m, _, .start hm⟩
      · left
        simp only [step, if_neg hm]
  | resume i =>
      cases hk
      simp only [step]
      split
      case h_1 m q p reply hi => exact Or.inr ⟨m, _, .resume hi⟩
      case h_2 => exact Or.inl rfl
  | _ => cases hk

/-- Other gets than the one that is driven stay where they are. -/
theorem course?_step_or_drives (x : Session) (e : Event) (k : Nat) :
    (x.step e).course? k = x.course? k ∨ ∃ m r, x.Drives e k m r := by
  cases e with
  | start m =>
      by_cases hm : m < x.analysis.modules.size
      · by_cases hk : k = x.gets.size
        · subst hk
          exact Or.inr ⟨m, _, .start hm⟩
        · left
          simp only [course?, step, if_pos hm]
          rw [Row.get?_push_of_ne hk]
      · left
        simp only [step, if_neg hm]
  | resume i =>
      simp only [step]
      split
      case h_1 m q p reply hi =>
          by_cases hk : i = k
          · subst hk
            exact Or.inr ⟨m, _, .resume hi⟩
          · left
            simp only [course?, Row.get?_modify, if_neg hk]
      case h_2 => exact Or.inl rfl
  | answer i =>
      left
      simp only [step]
      split
      case h_1 m q p reply hi =>
          by_cases hk : i = k
          · subst hk
            simp only [course?, Row.get?_modify, if_pos, hi, Option.map_some]
          · simp only [course?, Row.get?_modify, if_neg hk]
      case h_2 => rfl
  | destroy s =>
      simp only [step]
      split
      · exact Or.inl rfl
      · exact Or.inl rfl
  | refresh s declared =>
      simp only [step]
      split
      · exact Or.inl rfl
      · exact Or.inl rfl
  | _ => exact Or.inl rfl

theorem progress?_step_or_drives (x : Session) (e : Event) (k : Nat) :
    (x.step e).progress? k = x.progress? k ∨ ∃ m r, x.Drives e k m r := by
  rcases course?_step_or_drives x e k with hcourse | hd
  · left
    rw [progress?_eq_course?, hcourse, ← progress?_eq_course?]
  · exact Or.inr hd

inductive Kind (x : Session) (e : Event) : Prop where
  | drives {k : Nat} {m : ModuleId} {r : Progress × Analysis} (d : x.Drives e k m r)
  | tears (eq : e = .destroyAll)
  | releases {s : ServiceId} (eq : e = .destroy s)
  | keeps (h : x.analysis.Keeps (x.step e).analysis)

theorem kind (h : x.Sound) (e : Event) : x.Kind e := by
  have same (he : x.step e = x) : x.Kind e := .keeps (by rw [he]; exact .refl _)
  have driven {k : Nat} (hk : x.driven? e = some k) : x.Kind e := by
    rcases step_eq_or_drives hk with he | ⟨m, r, d⟩
    · exact same he
    · exact .drives d
  cases e with
  | start m => exact driven rfl
  | resume k => exact driven rfl
  | answer i =>
      refine .keeps ?_
      simp only [step]
      split
      · exact .refl _
      · exact .refl _
  | purge => exact .keeps (Analysis.purge_keeps h.analysis)
  | size => exact .keeps (Analysis.purge_keeps h.analysis)
  | destroyAll => exact .tears rfl
  | destroy s => exact .releases rfl
  | refresh s declared =>
      by_cases hs : s < x.analysis.services.size
      · refine .keeps ?_
        simp only [step, if_pos hs]
        exact Analysis.refresh_keeps _ _ _
      · exact same (by simp only [step, if_neg hs])
  | types s sources => exact .keeps (Analysis.types_keeps x.analysis s sources)
  | _ => exact .keeps (.of_eq rfl rfl rfl rfl rfl)

/-- Only a get that an event drives can return a service. -/
theorem Returns.drives (r : x.Returns e k m s) : ∃ r, x.Drives e k m r ∧ r.1 = .found s := by
  obtain ⟨waits, g, hg, rfl, hfound⟩ := r
  have hy : (x.step e).progress? k = some (.found s) := by
    rw [progress?, hg, Option.map_some, hfound]
  rcases progress?_step_or_drives x e k with hprogress | ⟨m, r, d⟩
  · rw [hprogress] at hy
    obtain ⟨f, hf, hff⟩ := Option.map_eq_some_iff.mp hy
    exact absurd (waits f hf) (Ticket.Found.not_waits ⟨rfl, hff⟩)
  · have he := d.step_eq.2
    cases hg.symm.trans he
    exact ⟨r, d, hfound⟩

theorem Returns.registered (h : x.Sound) {k : Nat} (r : x.Returns e k m s) :
    (x.step e).analysis.registered.get? m = some s := by
  have served : (x.step e).analysis.IsServed m 0 s :=
    r.isServed h (fun _ hf _ => h.gets hf) fun _ => Nat.zero_le _
  exact served.registered

/-- Only a get that has built a service brings it into the registry. -/
theorem registered_step (h : x.Sound) (hr : (x.step e).analysis.registered.get? m = some s) :
    x.analysis.registered.get? m = some s ∨
      ∃ k r, x.Drives e k m r ∧ r.1 = .found s ∧ s = x.analysis.services.size := by
  cases x.kind h e with
  | @drives k i r d =>
      rw [d.analysis_eq] at hr
      rcases (d.turnover h).registered hr with hold | ⟨rfl, hs, hf⟩
      · exact Or.inl hold
      · exact Or.inr ⟨k, r, d, hf, hs⟩
  | tears eq =>
      subst eq
      exact Or.inl (((Analysis.destroyAll_turnover h.analysis).registered hr).resolve_right id)
  | @releases i eq =>
      subst eq
      have hold : (x.step (.destroy i)).analysis.registered = x.analysis.registered := by
        simp only [step]
        split
        · rw [Analysis.destroyService_eq]
        · rfl
      exact Or.inl (hold ▸ hr)
  | keeps hk => exact Or.inl ((hk.registered hr).resolve_right id)

end ClassScope.Session
