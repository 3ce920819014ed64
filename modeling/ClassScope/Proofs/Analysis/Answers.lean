import ClassScope.Proofs.Analysis.Serving
import ClassScope.Proofs.Analysis.Steps
import ClassScope.Proofs.Analysis.Usage

/-!
# What changes the answers of a service

Whatever happens to services, contexts, modules, files and caches, the dependency classes of a service stay, and
its boot classes change only when it has read them anew itself, also after its release.
-/

namespace ClassScope

variable {m : ModuleId} {s : ServiceId}

/-! ## Steps of sessions -/

namespace Session

variable {x : Session} {k : Nat} {e : Event} {r : Progress × Analysis}

/-- An event has a service read its boot classes anew, or it leaves services what they are. -/
theorem rereads_or_serves (x : Session) (e : Event) :
    (∃ t declared, e = .refresh t declared) ∨
      (∀ s, x.read? s e = none) ∧ x.analysis.Serves (x.step e).analysis := by
  cases e with
  | refresh t declared => exact Or.inl ⟨t, declared, rfl⟩
  | start m =>
      refine Or.inr ⟨fun _ => rfl, ?_⟩
      simp only [step]
      split
      · exact (Analysis.begin_returns _ m).serves
      · exact .refl _
  | answer k =>
      refine Or.inr ⟨fun _ => rfl, ?_⟩
      simp only [step]
      split
      · exact .refl _
      · exact .refl _
  | resume k =>
      refine Or.inr ⟨fun _ => rfl, ?_⟩
      simp only [step]
      split
      · exact (Analysis.resume_returns _ _ _).serves
      · exact .refl _
  | purge => exact Or.inr ⟨fun _ => rfl, Analysis.purge_serves _⟩
  | size => exact Or.inr ⟨fun _ => rfl, Analysis.purge_serves _⟩
  | destroyAll => exact Or.inr ⟨fun _ => rfl, Analysis.destroyAll_serves _⟩
  | destroy s =>
      refine Or.inr ⟨fun _ => rfl, ?_⟩
      simp only [step]
      split
      · exact Analysis.destroyServices_serves _ [s]
      · exact .refl _
  | types s sources => exact Or.inr ⟨fun _ => rfl, (Analysis.types_scans _ s sources).serves⟩
  | _ => exact Or.inr ⟨fun _ => rfl, .of_eq rfl rfl⟩

theorem service_step (hs : s < x.analysis.services.size) (e : Event) :
    (x.step e).analysis.service s = { x.analysis.service s with
      boot := (x.read? s e).getD (x.analysis.service s).boot
      destroyed := ((x.step e).analysis.service s).destroyed } := by
  rcases rereads_or_serves x e with ⟨t, declared, rfl⟩ | ⟨hnone, serves⟩
  · by_cases ht : t = s
    · subst ht
      simp only [step, if_pos hs, update, Analysis.service_refresh _ hs, read?, if_pos, Option.getD_some]
    · by_cases hlt : t < x.analysis.services.size
      · simp only [step, if_pos hlt, update, Analysis.service_refresh _ hs, if_neg ht, read?, Option.getD_none]
      · simp only [step, if_neg hlt, if_neg ht, read?, Option.getD_none]
  · rw [hnone s]
    exact serves.same hs

theorem size_services_le_step (x : Session) (e : Event) :
    x.analysis.services.size ≤ (x.step e).analysis.services.size := by
  rcases rereads_or_serves x e with ⟨t, declared, rfl⟩ | ⟨-, serves⟩
  · simp only [step]
    split
    · exact Nat.le_of_eq (Analysis.services_size_refresh _ _ _).symm
    · exact Nat.le_refl _
  · exact serves.size_le

/-- The registry and the gets know services by their modules. -/
structure Known (x : Session) : Prop where
  filed : x.analysis.Filed
  found : ∀ {k m s}, x.course? k = some (m, .found s) → (x.analysis.service s).module = some m
  asks : ∀ {k m q p}, x.course? k = some (m, .asks q p) → p.module = m

theorem module_step (hm : (x.analysis.service s).module = some m) (e : Event) :
    ((x.step e).analysis.service s).module = some m := by
  rw [service_step (Analysis.lt_of_service hm)]
  exact hm

theorem Known.returns (h : x.Known) (d : x.Drives e k m r) : x.analysis.Returns m r := by
  cases d with
  | start lt => exact Analysis.begin_returns _ m
  | @resume _ _ q p reply waits =>
      have hcourse : x.course? k = some (m, .asks q p) := by
        rw [course?, waits]
        rfl
      obtain rfl := h.asks hcourse
      exact Analysis.resume_returns _ p reply

theorem Known.filed_step (h : x.Known) (e : Event) : (x.step e).analysis.Filed := by
  rcases rereads_or_serves x e with ⟨t, declared, rfl⟩ | ⟨-, serves⟩
  · have hold : (x.step (.refresh t declared)).analysis.registered = x.analysis.registered := by
      simp only [step]
      split
      · exact Analysis.registered_refresh _ _ _
      · rfl
    exact fun _ _ hr => module_step (h.filed (hold ▸ hr)) _
  · exact serves.filed h.filed

theorem Known.step (h : x.Known) (e : Event) : (x.step e).Known where
  filed := h.filed_step e
  found {k m s} hk := by
    rcases course?_step_or_drives x e k with hcourse | ⟨i, r, d⟩
    · exact module_step (h.found (hcourse ▸ hk)) e
    · obtain ⟨rfl, hr⟩ := Prod.mk.inj (Option.some.inj (d.course?_eq.symm.trans hk))
      rw [d.analysis_eq]
      exact (h.returns d).found hr h.filed
  asks {k m q p} hk := by
    rcases course?_step_or_drives x e k with hcourse | ⟨i, r, d⟩
    · exact h.asks (hcourse ▸ hk)
    · obtain ⟨rfl, hr⟩ := Prod.mk.inj (Option.some.inj (d.course?_eq.symm.trans hk))
      exact (h.returns d).asks hr

theorem Known.returned (h : x.Known) (r : x.Returned m s) : (x.analysis.service s).module = some m := by
  obtain ⟨k, g, hk, rfl, hfound⟩ := r
  refine h.found (k := k) ?_
  rw [course?, hk, Option.map_some, hfound]

end Session

/-! ## Whole runs -/

theorem Act.serves (a : Analysis) (act : Act) : a.Serves (act.apply a) := by
  cases act with
  | context m stage reply =>
      have h := Analysis.resumeContext_step a m stage reply
      simp only [apply]
      generalize a.resumeContext m stage reply = r at h
      cases h with
      | stays _ => exact .refl a
      | keeps scans _ _ => exact scans.serves.trans (Analysis.keepContext_serves _ m _)
  | destroyContext c => exact Analysis.destroyContexts_serves a [c]
  | purgeContexts => exact Analysis.purgeContexts_serves a
  | clearContexts => exact Analysis.clearContexts_serves a
  | scans d boot dependencies => exact .of_eq rfl rfl
  | _ => exact .refl a

namespace Usage

variable {x : Usage}

theorem session_step (x : Usage) (act : Act) :
    (∃ e, x.event? act = some e ∧ (x.step act).session = x.session.step e) ∨
      x.event? act = none ∧ (x.step act).session = x.session.update (Act.apply · act) := by
  cases he : x.event? act with
  | some e => exact Or.inl ⟨e, rfl, by simp only [step, he]⟩
  | none => exact Or.inr ⟨rfl, by simp only [step, he]⟩

theorem service_step (hs : s < x.analysis.services.size) (act : Act) :
    (x.step act).analysis.service s = { x.analysis.service s with
      boot := (x.refreshed? s act).getD (x.analysis.service s).boot
      destroyed := ((x.step act).analysis.service s).destroyed } := by
  rcases session_step x act with ⟨e, he, hsession⟩ | ⟨he, hsession⟩
  · rw [analysis, hsession, refreshed?, he]
    exact Session.service_step hs e
  · rw [analysis, hsession, refreshed?, he]
    exact (Act.serves x.analysis act).same hs

theorem size_services_le_step (x : Usage) (act : Act) :
    x.analysis.services.size ≤ (x.step act).analysis.services.size := by
  rcases session_step x act with ⟨e, -, hsession⟩ | ⟨-, hsession⟩
  · rw [analysis, analysis, hsession]
    exact Session.size_services_le_step x.session e
  · rw [analysis, analysis, hsession]
    exact (Act.serves x.analysis act).size_le

theorem known_step (h : x.session.Known) (act : Act) : (x.step act).session.Known := by
  rcases session_step x act with ⟨e, -, hsession⟩ | ⟨-, hsession⟩
  · rw [hsession]
    exact h.step e
  · rw [hsession]
    have serves := Act.serves x.analysis act
    exact ⟨serves.filed h.filed, fun hk => serves.module (h.found hk), h.asks⟩

theorem known_run (h : x.session.Known) (acts : List Act) : (x.run acts).session.Known := by
  induction acts generalizing x with
  | nil => exact h
  | cons act acts ih => exact ih (known_step h act)

theorem dependencies_run (hs : s < x.analysis.services.size) (acts : List Act) :
    ((x.run acts).analysis.service s).dependencies = (x.analysis.service s).dependencies := by
  induction acts generalizing x with
  | nil => rfl
  | cons act acts ih =>
      have hstep : ((x.step act).analysis.service s).dependencies = (x.analysis.service s).dependencies := by
        rw [service_step hs]
      exact (ih (Nat.lt_of_lt_of_le hs (size_services_le_step x act))).trans hstep

theorem Unrefreshed.boot_run {acts : List Act} (h : x.Unrefreshed s acts) (hs : s < x.analysis.services.size) :
    ((x.run acts).analysis.service s).boot = (x.analysis.service s).boot := by
  induction acts generalizing x with
  | nil => rfl
  | cons act acts ih =>
      obtain ⟨hnone, hrest⟩ := h
      have hstep : ((x.step act).analysis.service s).boot = (x.analysis.service s).boot := by
        rw [service_step hs, hnone]
        rfl
      exact (ih hrest (Nat.lt_of_lt_of_le hs (size_services_le_step x act))).trans hstep

theorem ofConfig_known (c : Config) (env : Environment) (d : Disk) : (ofConfig c env d).session.Known :=
  ⟨nofun, nofun, nofun⟩

/-- Whatever is done to a service, its dependency classes stay what they are, and its boot classes change only
when it has read them anew itself, from what its module declares during that call. What is available follows from
the two, and what it lists is the two together with its module's own classes at that moment. -/
theorem answers_change_by_own_refresh (c : Config) (env : Environment) (d : Disk) (acts : List Act) :
    let x := (ofConfig c env d).run acts
    (∀ m s, x.session.Returned m s → s < x.analysis.services.size ∧ (x.analysis.service s).module = some m) ∧
    ∀ s < x.analysis.services.size,
      (∀ after, ((x.run after).analysis.service s).dependencies = (x.analysis.service s).dependencies) ∧
      (∀ act, ((x.step act).analysis.service s).boot =
        (x.refreshed? s act).getD (x.analysis.service s).boot) ∧
      (∀ act classes, x.refreshed? s act = some classes →
        ∃ y declared, (ofConfig c env d).Visits acts y ∧ y.During s act ∧ y.Declares s declared ∧
          classes = x.analysis.bootRead s declared) ∧
      (∀ name, x.analysis.isAvailable s name = true ↔
        name ∈ (x.analysis.service s).dependencies.classes ∨ name ∈ (x.analysis.service s).boot) ∧
      (∀ after, x.Unrefreshed s after → ∀ name,
        (x.run after).analysis.isAvailable s name = x.analysis.isAvailable s name) ∧
      (∀ act sources classes, x.listed? s act = some (sources, classes) →
        (∃ y, (ofConfig c env d).Visits acts y ∧ y.During s act ∧ sources = y.analysis.sourcesReply s) ∧
        ∀ name, name ∈ classes ↔
          name ∈ (x.analysis.service s).dependencies.classes ∨ name ∈ (x.analysis.service s).boot ∨
            x.analysis.Own s sources name) := by
  intro x
  have h : x.session.Known := known_run (ofConfig_known c env d) acts
  refine ⟨fun m s r => ⟨Analysis.lt_of_service (h.returned r), h.returned r⟩, ?_⟩
  intro s hs
  refine ⟨dependencies_run hs, ?_, ?_, fun name => Analysis.isAvailable_iff, ?_, ?_⟩
  · intro act
    rw [service_step hs]
  · intro act classes hread
    exact refreshed_run rfl acts hread
  · intro after hafter name
    rw [Analysis.isAvailable, dependencies_run hs, hafter.boot_run hs, ← Analysis.isAvailable]
  · intro act sources classes hlisted
    obtain ⟨moment, rfl⟩ := listed_run rfl acts hlisted
    exact ⟨moment, fun name => Analysis.mem_types⟩

def bootEntry : Path :=
  ⟨Utf8.encode "b"⟩

/-- The boot entry is there, with one class. -/
def furnished : Disk :=
  { Disk.empty 0 with entries := [([[0]], .dir 0), ([[0], bootEntry.bytes], .dir 0),
    ([[0], bootEntry.bytes, Utf8.encode "B.class"], .file [] 0 false)] }

def declared : Settings :=
  { kind := .platform, boot := [bootEntry], sources := .ofList ["a.Own"] }

/-- The service of a platform module is got before the boot entry is there, and it is released. -/
def putAway : List Act :=
  [.event (.add { name := "core", path := ⟨[]⟩, settings := declared }) nofun,
    .event (.start 0) nofun, .event (.answer 0) nofun, .event (.resume 0) nofun, .event (.answer 0) nofun,
    .event (.resume 0) nofun, .event (.answer 0) nofun, .event (.resume 0) nofun, .event (.destroy 1) nofun]

/-- Its holder has it read its boot classes anew, and the module has answered. -/
def reread : List Act :=
  [.event (.files furnished) nofun, .event .destroyAll nofun, .refresh 1, .answer 0]

/-- Then it has it list the classes of its module, and the module has answered again. -/
def listing : List Act :=
  [.conclude 0, .types 1, .answer 1]

theorem answers_of_released :
    let x := (ofConfig {} {} (.empty 0)).run putAway
    (x.run reread).analysis.isAvailable 1 "B" = x.analysis.isAvailable 1 "B" ∧
      "B" ∈ (((x.run reread).step (.conclude 0)).analysis.service 1).boot ∧
      ∃ classes, ((x.run reread).run listing).listed? 1 (.conclude 1) = some (.ok declared.sources, classes) ∧
        "a.Own" ∈ classes := by
  intro x
  obtain ⟨-, early⟩ := answers_change_by_own_refresh {} {} (.empty 0) putAway
  obtain ⟨-, -, -, -, steady, -⟩ := early 1 (by decide +kernel)
  obtain ⟨-, later⟩ := answers_change_by_own_refresh {} {} (.empty 0) (putAway ++ reread)
  obtain ⟨-, reads, -⟩ := later 1 (by decide +kernel)
  obtain ⟨-, last⟩ := answers_change_by_own_refresh {} {} (.empty 0) (putAway ++ reread ++ listing)
  obtain ⟨-, -, -, -, -, lists⟩ := last 1 (by decide +kernel)
  simp only [run_append] at reads lists
  refine ⟨steady reread (by decide +kernel) "B", ?_, ?_⟩
  · rw [reads (.conclude 0)]
    decide +kernel
  · have told : (((x.run reread).run listing).listed? 1 (.conclude 1)).map (·.1) = some (.ok declared.sources) := by
      decide +kernel
    obtain ⟨⟨_, classes⟩, listed, rfl⟩ := Option.map_eq_some_iff.mp told
    have module : (((x.run reread).run listing).analysis.service 1).module = some 0 := by decide +kernel
    have own : "a.Own" ∈ declared.sources := by decide +kernel
    exact ⟨classes, listed, ((lists _ _ _ listed).2 "a.Own").mpr (.inr (.inr ⟨0, _, module, rfl, .inl own⟩))⟩

end Usage

end ClassScope
