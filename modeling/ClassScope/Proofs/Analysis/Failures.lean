import ClassScope.Proofs.Analysis.Attempts
import ClassScope.Proofs.Analysis.Teardown

/-!
# Gets that fail

A get for a module that does not answer fails, and all that it leaves behind in the registry is that stale services
are put away.
-/

namespace ClassScope

/-- The event belongs to the get, or it comes from outside of the analysis: what modules can answer, and files. -/
def Event.Alone (k : Nat) : Event → Prop
  | .answer i => i = k
  | .resume i => i = k
  | .hinder _ _ _ _ => True
  | .files _ => True
  | _ => False

namespace Session

variable {x y z : Session} {m : ModuleId} {s : ServiceId} {k : Nat} {e : Event} {g : Get} {q : Question} {p : Pending}
  {reply : Option Answer}

/-! ## What an event does to one get and to one module -/

/-- How a get moves on in an event, if it does. -/
inductive Moves (x : Session) (k : Nat) (e : Event) : Get → Get → Prop where
  | same (g : Get) : Moves x k e g g
  | answered {m : ModuleId} {q : Question} {p : Pending} {reply : Option Answer} (eq : e = .answer k)
      (analysis : (x.step e).analysis = x.analysis) :
      Moves x k e ⟨m, .asks q p, reply⟩ ⟨m, .asks q p, some (x.analysis.answer q)⟩
  | resumed {m : ModuleId} {q : Question} {p : Pending} {reply : Answer} (eq : e = .resume k)
      (analysis : (x.step e).analysis = (x.analysis.resume p reply).2) :
      Moves x k e ⟨m, .asks q p, some reply⟩ { module := m, progress := (x.analysis.resume p reply).1 }

theorem get_moves (hk : x.gets.get? k = some g) (e : Event) :
    ∃ g', (x.step e).gets.get? k = some g' ∧ Moves x k e g g' := by
  have same (h : (x.step e).gets.get? k = x.gets.get? k) :
      ∃ g', (x.step e).gets.get? k = some g' ∧ Moves x k e g g' := ⟨g, h.trans hk, .same g⟩
  by_cases hg : g.Waits
  · obtain ⟨m, progress, reply⟩ := g
    cases progress with
    | found s => exact hg.elim
    | failed e => exact hg.elim
    | asks q p =>
        by_cases ha : e = .answer k
        · subst ha
          refine ⟨⟨m, .asks q p, some (x.analysis.answer q)⟩, ?_, .answered rfl ?_⟩
          · simp only [step, hk, Row.get?_modify, if_pos, Option.map_some]
          · simp only [step, hk]
        by_cases hr : e = .resume k
        · subst hr
          cases reply with
          | none => exact same (by simp only [step, hk])
          | some reply =>
              have d : x.Drives (.resume k) k m (x.analysis.resume p reply) := .resume hk
              exact ⟨_, d.step_eq.2, .resumed rfl d.analysis_eq⟩
        · apply same
          cases e with
          | start i =>
              simp only [step]
              split
              · exact Row.get?_push_of_lt (Row.lt_of_get? hk)
              · rfl
          | answer i =>
              have hi : i ≠ k := fun h => ha (congrArg Event.answer h)
              simp only [step]
              split
              · rw [Row.get?_modify, if_neg hi]
              · rfl
          | resume i =>
              have hi : i ≠ k := fun h => hr (congrArg Event.resume h)
              simp only [step]
              split
              · rw [Row.get?_modify, if_neg hi]
              · rfl
          | destroy s =>
              simp only [step]
              split <;> rfl
          | refresh s declared =>
              simp only [step]
              split <;> rfl
          | _ => rfl
  · exact ⟨g, get?_step_of_not_waits hk hg e, .same g⟩

/-- What an event does to a module that is there. -/
inductive Alters (m : ModuleId) (u : Module) : Event → Module → Prop where
  | same (e : Event) : Alters m u e u
  | reconfigure (settings : Settings) : Alters m u (.reconfigure m settings) (u.reconfigure settings)
  | detach : Alters m u (.detach m) u.detach
  | hinder (compile boot sources : Option ModuleError) :
      Alters m u (.hinder m compile boot sources) (u.hinder compile boot sources)

theorem module_alters (hm : m < x.analysis.modules.size) (e : Event) :
    Alters m (x.analysis.module m) e ((x.step e).analysis.module m) := by
  have same (h : (x.step e).analysis.modules = x.analysis.modules) :
      Alters m (x.analysis.module m) e ((x.step e).analysis.module m) := by
    have hu : (x.step e).analysis.module m = x.analysis.module m := congrArg (fun ms => ms.get m) h
    rw [hu]
    exact .same e
  have modify {i : ModuleId} {f : Module → Module}
      (h : (x.step e).analysis.modules = x.analysis.modules.modify i f)
      (hf : i = m → Alters m (x.analysis.module m) e (f (x.analysis.module m))) :
      Alters m (x.analysis.module m) e ((x.step e).analysis.module m) := by
    have hu : (x.step e).analysis.module m = (x.analysis.modules.modify i f).get m :=
      congrArg (fun ms => ms.get m) h
    rw [hu, Row.get_modify hm]
    split
    case isTrue hi => exact hf hi
    case isFalse => exact .same e
  cases e with
  | add u =>
      have hu : (x.step (.add u)).analysis.module m = x.analysis.module m :=
        Row.get_push_of_ne (Nat.ne_of_lt hm)
      rw [hu]
      exact .same _
  | reconfigure i settings =>
      refine modify rfl ?_
      rintro rfl
      exact .reconfigure settings
  | detach i =>
      refine modify rfl ?_
      rintro rfl
      exact .detach
  | hinder i compile boot sources =>
      refine modify rfl ?_
      rintro rfl
      exact .hinder compile boot sources
  | start i =>
      apply same
      simp only [step]
      split
      · exact Analysis.modules_begin _ _
      · rfl
  | answer i =>
      apply same
      simp only [step]
      split <;> rfl
  | resume i =>
      apply same
      simp only [step]
      split
      · exact Analysis.modules_resume _ _ _
      · rfl
  | purge => exact same (Analysis.modules_purge _)
  | size => exact same (Analysis.modules_purge _)
  | destroyAll => exact same (Analysis.modules_destroyAll _)
  | destroy s =>
      apply same
      simp only [step]
      split
      · exact Analysis.modules_destroyService _ _
      · rfl
  | refresh s declared =>
      apply same
      simp only [step]
      split
      · exact Analysis.modules_refresh _ _ _
      · rfl
  | types s sources => exact same (Analysis.types_scans _ _ _).modules_eq
  | files d => exact same rfl

/-! ## A get on its own -/

/-- A get that started at a session waits at a later one, and nothing but the get has gone on meanwhile. -/
structure Attempt (x y : Session) (m : ModuleId) (q : Question) (p : Pending) (reply : Option Answer) : Prop where
  sound : y.Sound
  released : y.released = x.released
  evolves : x.analysis.Evolves x.released y.analysis
  tidies : x.analysis.Tidies y.analysis
  modules : ∀ i < x.analysis.modules.size, (y.analysis.module i).name = (x.analysis.module i).name ∧
    (y.analysis.module i).live = (x.analysis.module i).live ∧
    (y.analysis.module i).generation = (x.analysis.module i).generation
  waits : y.gets.get? x.gets.size = some ⟨m, .asks q p, reply⟩
  module : p.module = m
  epoch : p.epoch = y.analysis.epoch
  asks : p.stage.Asks m q
  /-- The surroundings always answer. -/
  home : ∀ cause, reply = some (.error cause) → p.stage ≠ .context .home

theorem attempt_start (h : x.Sound) (hm : m < x.analysis.modules.size)
    (hw : (x.step (.start m)).gets.get? x.gets.size = some g) (hg : g.Waits) :
    x.analysis.liveService? m = none ∧
      ∃ q p reply, Attempt x (x.step (.start m)) m q p reply := by
  have d : x.Drives (.start m) x.gets.size m (x.analysis.begin m) := .start hm
  have t := step_steps h (.start m)
  cases hw.symm.trans d.step_eq.2
  generalize hprogress : (x.analysis.begin m).1 = progress at hw hg
  cases progress with
  | found s => exact hg.elim
  | failed e => exact hg.elim
  | asks q p =>
      obtain ⟨hl, tidies, module, epoch, asks⟩ := Analysis.begin_waits h.analysis hprogress
      have released : (x.step (.start m)).released = x.released := by rw [d.step_eq.1]
      have modules : (x.step (.start m)).analysis.modules = x.analysis.modules := by
        rw [d.analysis_eq]
        exact Analysis.modules_begin _ _
      refine ⟨hl, q, p, none, ?_⟩
      exact {
        sound := h.step _
        released := released
        evolves := released ▸ t.evolves
        tidies := d.analysis_eq ▸ tidies
        modules := fun i _ => by simp only [Analysis.module, modules, and_self]
        waits := hw
        module := module
        epoch := by rw [d.analysis_eq, tidies.epoch, epoch]
        asks := asks
        home := nofun }

theorem Attempt.next (t : Attempt x y m q p reply) {q' : Question} {p' : Pending} {reply' : Option Answer}
    (released : (y.step e).released = y.released) (spares : y.analysis.Spares (y.step e).analysis)
    (modules : ∀ i < y.analysis.modules.size,
      ((y.step e).analysis.module i).name = (y.analysis.module i).name ∧
      ((y.step e).analysis.module i).live = (y.analysis.module i).live ∧
      ((y.step e).analysis.module i).generation = (y.analysis.module i).generation)
    (waits : (y.step e).gets.get? x.gets.size = some ⟨m, .asks q' p', reply'⟩)
    (module : p'.module = p.module) (epoch : p'.epoch = p.epoch) (asks : p'.stage.Asks m q')
    (home : ∀ cause, reply' = some (.error cause) → p'.stage ≠ .context .home) :
    Attempt x (y.step e) m q' p' reply' := by
  have st := step_steps t.sound e
  have hrs : (y.step e).released = x.released := released.trans t.released
  exact {
    sound := t.sound.step e
    released := hrs
    evolves := t.evolves.trans (hrs ▸ st.evolves)
    tidies := t.tidies.spares spares
    modules := by
      intro i hi
      obtain ⟨hn, hl, hg⟩ := t.modules i hi
      obtain ⟨hn', hl', hg'⟩ := modules i (t.evolves.later.lt_modules hi)
      exact ⟨hn'.trans hn, hl'.trans hl, hg'.trans hg⟩
    waits := waits
    module := module.trans t.module
    epoch := epoch.trans (t.epoch.trans spares.epoch.symm)
    asks := asks
    home := home }

/-- As long as the get waits it is the same attempt. -/
theorem Attempt.step (t : Attempt x y m q p reply) (he : e.Alone x.gets.size)
    (hg : (y.step e).gets.get? x.gets.size = some g) (hw : g.Waits) :
    ∃ q' p' reply', Attempt x (y.step e) m q' p' reply' := by
  have same {a : Analysis} (h : a.modules = y.analysis.modules) (i : ModuleId) (_ : i < y.analysis.modules.size) :
      (a.module i).name = (y.analysis.module i).name ∧ (a.module i).live = (y.analysis.module i).live ∧
        (a.module i).generation = (y.analysis.module i).generation := by
    simp only [Analysis.module, h, and_self]
  cases e with
  | answer i =>
      obtain rfl : i = x.gets.size := he
      have hstep : y.step (.answer x.gets.size) = { y with
          gets := y.gets.modify x.gets.size fun _ => ⟨m, .asks q p, some (y.analysis.answer q)⟩ } := by
        simp only [Session.step, t.waits]
      refine ⟨q, p, some (y.analysis.answer q), t.next ?_ ?_ ?_ ?_ rfl rfl t.asks ?_⟩
      · rw [hstep]
      · rw [hstep]
        exact ⟨rfl, rfl, rfl, rfl⟩
      · rw [hstep]
        exact same rfl
      · rw [hstep, Row.get?_modify, if_pos rfl, t.waits]
        rfl
      · intro cause hcause hstage
        have asks := t.asks
        rw [hstage] at asks
        obtain ⟨home, rfl⟩ := asks
        cases hcause
  | resume i =>
      obtain rfl : i = x.gets.size := he
      cases reply with
      | none =>
          have hstep : y.step (.resume x.gets.size) = y := by simp only [Session.step, t.waits]
          rw [hstep]
          exact ⟨q, p, none, t⟩
      | some reply =>
          have d : y.Drives (.resume x.gets.size) x.gets.size m (y.analysis.resume p reply) := .resume t.waits
          cases hg.symm.trans d.step_eq.2
          generalize hprogress : (y.analysis.resume p reply).1 = progress at hg hw
          cases progress with
          | found s => exact hw.elim
          | failed e => exact hw.elim
          | asks q' p' =>
              obtain ⟨spares, module, epoch, asks⟩ := Analysis.resume_waits t.epoch hprogress
              rw [t.module] at asks
              refine ⟨q', p', none, t.next ?_ ?_ ?_ hg module epoch asks (fun _ h => by cases h)⟩
              · rw [d.step_eq.1]
              · rw [d.analysis_eq]
                exact spares
              · rw [d.analysis_eq]
                exact same (Analysis.modules_resume _ _ _)
  | hinder i compile boot sources =>
      refine ⟨q, p, reply, t.next rfl ⟨rfl, rfl, rfl, rfl⟩ ?_ t.waits rfl rfl t.asks t.home⟩
      intro j hj
      have halters := module_alters hj (.hinder i compile boot sources)
      generalize (y.step (.hinder i compile boot sources)).analysis.module j = u at halters ⊢
      cases halters with
      | same => exact ⟨rfl, rfl, rfl⟩
      | hinder => exact ⟨rfl, rfl, rfl⟩
  | files d => exact ⟨q, p, reply, t.next rfl ⟨rfl, rfl, rfl, rfl⟩ (same rfl) t.waits rfl rfl t.asks t.home⟩
  | _ => exact he.elim

theorem Attempt.run (t : Attempt x y m q p reply) {es : List Event} (hes : ∀ e ∈ es, e.Alone x.gets.size)
    (hg : (y.run es).gets.get? x.gets.size = some g) (hw : g.Waits) :
    ∃ q' p' reply', Attempt x (y.run es) m q' p' reply' := by
  induction es generalizing y q p reply with
  | nil => exact ⟨q, p, reply, t⟩
  | cons e es ih =>
      obtain ⟨he, hes⟩ := List.forall_mem_cons.mp hes
      -- a get that has ended stays ended, so it waits after the first event
      obtain ⟨f, hf, -⟩ := get_moves t.waits e
      by_cases hfw : f.Waits
      · obtain ⟨q', p', reply', t'⟩ := t.step he hf hfw
        exact ih t' hes hg
      · have hend : ((y.step e).run es).gets.get? x.gets.size = some f := by
          refine run_induction (P := fun z => z.gets.get? x.gets.size = some f) ?_ hf es
          exact fun z e hz => get?_step_of_not_waits hz hfw e
        cases hg.symm.trans hend
        exact absurd hw hfw

/-! ## A get that fails -/

/-- What a get for a module that fails leaves behind. -/
structure Fails (x z : Session) (m : ModuleId) (cause : ModuleError) : Prop where
  error : z.progress? x.gets.size = some (.failed ⟨(x.analysis.module m).name, cause⟩)
  counted : z.analysis.stats.failures = x.analysis.stats.failures + 1
  /-- The services that are registered are those that were, without the stale ones unless these are retained. -/
  registered : ∀ i s, z.analysis.registered.get? i = some s ↔
    x.analysis.registered.get? i = some s ∧ (x.analysis.policy = .retain ∨ x.analysis.IsLive s)
  /-- Those are released, and no other service is. None was made. -/
  released : ∀ s, (z.analysis.service s).destroyed = true ↔ (x.analysis.service s).destroyed = true ∨
    x.analysis.policy = .dispose ∧ ∃ i, x.analysis.registered.get? i = some s ∧ ¬ x.analysis.IsLive s
  unmade : z.analysis.services.size = x.analysis.services.size
  live : ∀ s, z.analysis.IsLive s ↔ x.analysis.IsLive s
  contexts : ∀ s, x.analysis.IsLive s →
    (z.analysis.service s).context = (x.analysis.service s).context ∧
      (z.analysis.context (x.analysis.service s).context).destroyed =
        (x.analysis.context (x.analysis.service s).context).destroyed

theorem Attempt.isLive_iff (h : x.Sound) (t : Attempt x y m q p reply) :
    y.analysis.IsLive s ↔ x.analysis.IsLive s := by
  constructor
  · intro hl
    obtain ⟨i, hi⟩ := hl.module
    exact t.evolves.later.isLive h.analysis (t.tidies.services_size ▸ Analysis.lt_of_service hi) hl
  · intro hl
    obtain ⟨i, hi⟩ := hl.module
    have hs := Analysis.lt_of_service hi
    have hi' := (t.evolves.later.service_module_eq hs).trans hi
    obtain ⟨hd, hlive, hg⟩ := (Analysis.isLive_iff hi).mp hl
    obtain ⟨-, hlive', hg'⟩ := t.modules i (h.analysis.module_lt (h.analysis.context_module hi))
    refine (Analysis.isLive_iff hi').mpr ⟨?_, hlive'.trans hlive, ?_⟩
    · cases hd' : (y.analysis.service s).destroyed with
      | false => rfl
      | true =>
          rcases (t.tidies.destroyed s).mp hd' with hold | ⟨-, j, -, hnot⟩
          · rw [hd] at hold
            cases hold
          · exact absurd hl hnot
    · rw [hg', t.evolves.later.service_generation_eq hs]
      exact hg

theorem Attempt.context_destroyed (h : x.Sound) (t : Attempt x y m q p reply) (hl : x.analysis.IsLive s) :
    (y.analysis.context (x.analysis.service s).context).destroyed =
      (x.analysis.context (x.analysis.service s).context).destroyed := by
  obtain ⟨i, hi⟩ := hl.module
  have hc := h.analysis.context_module hi
  have hlt := Analysis.lt_of_context hc
  cases hd : (x.analysis.context (x.analysis.service s).context).destroyed with
  | true => exact (t.evolves.later.context hlt).destroyed hd
  | false =>
      cases hd' : (y.analysis.context (x.analysis.service s).context).destroyed with
      | false => rfl
      | true =>
          rcases t.evolves.later.spent hlt hd' with hold | (hstale | ⟨r, hr, -, hrc⟩) | hepoch
          · rw [hd] at hold
            cases hold
          · -- the module of a live service is there and declares what the context shows
            obtain ⟨j, hj, hgone⟩ := hstale
            rw [t.evolves.later.context_module_eq hlt, hc] at hj
            cases hj
            obtain ⟨-, hlive, hg⟩ := (Analysis.isLive_iff hi).mp hl
            obtain ⟨-, hlive', hg'⟩ := t.modules i (h.analysis.module_lt hc)
            rw [t.evolves.later.context_generation_eq hlt, h.analysis.context_generation hi, hlive', hg', hlive,
              hg] at hgone
            simp at hgone
          · have hrs := (h.released hr).1
            rw [t.evolves.later.service_context_eq hrs] at hrc
            rw [← hrc] at hc hd
            rw [h.released_context hr hc] at hd
            cases hd
          · rw [t.tidies.epoch] at hepoch
            exact absurd hepoch (Nat.lt_irrefl _)

theorem Attempt.fails (h : x.Sound) (hm : m < x.analysis.modules.size) {cause : ModuleError}
    (t : Attempt x y m q p (some (.error cause))) : Fails x (y.step (.resume x.gets.size)) m cause := by
  have d : y.Drives (.resume x.gets.size) x.gets.size m (y.analysis.resume p (.error cause)) := .resume t.waits
  have hr := Analysis.resume_error y.analysis cause (t.home cause rfl)
  have ha : (y.step (.resume x.gets.size)).analysis = { y.analysis with
      stats := { y.analysis.stats with failures := y.analysis.stats.failures + 1 } } := by
    rw [d.analysis_eq, hr]
  exact {
    error := by
      rw [d.progress?_eq, hr, t.module, Analysis.queryError, (t.modules m hm).1]
    counted := by
      rw [ha, ← t.tidies.failures]
    registered := by
      rw [ha]
      exact t.tidies.registered
    released := by
      rw [ha]
      exact t.tidies.destroyed
    unmade := by
      rw [ha]
      exact t.tidies.services_size
    live := by
      rw [ha]
      exact fun _ => t.isLive_iff h
    contexts := by
      intro s hl
      obtain ⟨i, hi⟩ := hl.module
      rw [ha]
      exact ⟨t.evolves.later.service_context_eq (Analysis.lt_of_service hi), t.context_destroyed h hl⟩ }

end Session

end ClassScope
