import ClassScope.Proofs.Analysis.Failures

/-!
# Gets after one that failed

What has failed is not kept: the next get for the module asks again, and once the module answers it ends in a new
service.
-/

namespace ClassScope

/-- Nothing comes to stand in the way of the answers that a module's services are made from. -/
def Event.Unhindered (m : ModuleId) : Event → Prop
  | .hinder i compile boot _ => i = m → compile = none ∧ boot = none
  | _ => True

/-- The event leaves it to a module what it declares. -/
def Event.KeepsSettings (m : ModuleId) : Event → Prop
  | .reconfigure i _ => i ≠ m
  | _ => True

namespace Session

variable {x y z : Session} {m : ModuleId} {s : ServiceId} {k : Nat} {e : Event} {g : Get} {q : Question} {p : Pending}

/-! ## The services that come later -/

/-- A service that a get ends in is new, or it is live. -/
theorem Drives.live_or_new {r : Progress × Analysis} (d : x.Drives e k m r) (h : x.Sound) (hf : r.1 = .found s) :
    r.2.IsLive s ∨ x.analysis.services.size ≤ s := by
  cases d with
  | start lt => exact Analysis.begin_live_or_new h.analysis hf
  | resume waits => exact Analysis.resume_live_or_new h.analysis (h.gets waits) hf

/-- No live service of a module is older than a session. -/
structure Renews (x y : Session) (m : ModuleId) : Prop where
  sound : y.Sound
  size_le : x.analysis.services.size ≤ y.analysis.services.size
  modules_le : x.analysis.modules.size ≤ y.analysis.modules.size
  live : ∀ s, (y.analysis.service s).module = some m → y.analysis.IsLive s → x.analysis.services.size ≤ s

/-- What is no longer live never comes to life again. -/
theorem Renews.step (r : x.Renews y m) (e : Event) : x.Renews (y.step e) m := by
  have t := step_steps r.sound e
  refine ⟨r.sound.step e, Nat.le_trans r.size_le t.evolves.later.services.size_le,
    Nat.le_trans r.modules_le t.evolves.later.modules.size_le, ?_⟩
  intro s hs hl
  rcases Nat.lt_or_ge s y.analysis.services.size with hlt | hge
  · have hs' := (t.evolves.later.service_module_eq hlt).symm.trans hs
    exact r.live s hs' (t.evolves.later.isLive r.sound.analysis hlt hl)
  · exact Nat.le_trans r.size_le hge

theorem Renews.run (r : x.Renews y m) (es : List Event) : x.Renews (y.run es) m :=
  run_induction (P := fun z => x.Renews z m) (fun _ e h => h.step e) r es

theorem Renews.returns (r : z.Renews y m) (hr : y.Returns e k m s) : z.analysis.services.size ≤ s := by
  obtain ⟨result, d, hf⟩ := hr.drives
  rcases d.live_or_new r.sound hf with hl | hnew
  · have r' := r.step e
    have returned : (y.step e).Returned m s := ⟨k, hr.2⟩
    rw [← d.analysis_eq] at hl
    exact r'.live s (returned.module r'.sound) hl
  · exact Nat.le_trans r.size_le hnew

theorem Attempt.renews (h : x.Sound) (hm : m < x.analysis.modules.size)
    (hl : x.analysis.liveService? m = none) {cause : ModuleError}
    (t : Attempt x y m q p (some (.error cause))) :
    (y.step (.resume x.gets.size)).Renews (y.step (.resume x.gets.size)) m where
  sound := t.sound.step _
  size_le := Nat.le_refl _
  modules_le := Nat.le_refl _
  live s hs hlive := by
    have f := t.fails h hm
    have hx := (f.live s).mp hlive
    have e := t.evolves.later
    have e' := (step_steps t.sound (.resume x.gets.size)).evolves.later
    obtain ⟨i, hi⟩ := hx.module
    have hlt := Analysis.lt_of_service hi
    have hxm : (x.analysis.service s).module = some m := by
      rw [← e.service_module_eq hlt, ← e'.service_module_eq (e.lt_services hlt)]
      exact hs
    exact absurd hx (Analysis.not_isLive_of_liveService? hl (h.analysis.live hxm hx))

/-! ## The get after it -/

/-- A get, and whether its module answers while it waits. -/
structure Retry (x y : Session) (m : ModuleId) (g : Get) : Prop where
  sound : y.Sound
  lt : m < y.analysis.modules.size
  compile : (y.analysis.module m).compileFailure = none
  boot : (y.analysis.module m).bootFailure = none
  get : y.gets.get? x.gets.size = some g
  module : g.module = m
  unfailed : ∀ e, g.progress ≠ .failed e
  asks : ∀ q p, g.progress = .asks q p → p.module = m ∧ p.stage.Asks m q
  replies : ∀ reply, g.reply = some reply → ∃ paths, reply = .ok paths

theorem Retry.answer (r : Retry x y m g) (hg : g.progress = .asks q p) :
    ∃ paths, y.analysis.answer q = .ok paths := by
  have asks := (r.asks q p hg).2
  have compile : y.analysis.answer (.compile m) = .ok (y.analysis.module m).settings.compile := by
    rw [Analysis.answer, Module.compile, r.compile]
    rfl
  have boot : y.analysis.answer (.boot m) = .ok (y.analysis.module m).settings.boot := by
    rw [Analysis.answer, Module.boot, r.boot]
    rfl
  obtain ⟨i, epoch, stage⟩ := p
  cases stage with
  | boot c dependencies =>
      obtain rfl : q = .boot m := asks
      exact ⟨_, boot⟩
  | context stage =>
      cases stage with
      | home =>
          obtain ⟨home, rfl⟩ := asks
          exact ⟨[], rfl⟩
      | compile generation =>
          obtain rfl : q = .compile m := asks
          exact ⟨_, compile⟩
      | boot generation classPaths =>
          obtain rfl : q = .boot m := asks
          exact ⟨_, boot⟩

theorem retry_start (h : x.Sound) (hm : m < x.analysis.modules.size)
    (compile : (x.analysis.module m).compileFailure = none) (boot : (x.analysis.module m).bootFailure = none) :
    ∃ g, Retry x (x.step (.start m)) m g := by
  have d : x.Drives (.start m) x.gets.size m (x.analysis.begin m) := .start hm
  have t := step_steps h (.start m)
  have hu : (x.step (.start m)).analysis.module m = x.analysis.module m := by
    rw [d.analysis_eq]
    exact congrArg (fun ms => ms.get m) (Analysis.modules_begin _ _)
  refine ⟨_, h.step _, t.evolves.later.lt_modules hm, hu ▸ compile, hu ▸ boot, d.step_eq.2, rfl,
    Analysis.begin_unfailed _ _, ?_, nofun⟩
  intro q p hq
  obtain ⟨-, -, module, -, asks⟩ := Analysis.begin_waits h.analysis hq
  exact ⟨module, asks⟩

theorem Retry.step (r : Retry x y m g) (he : e.Unhindered m) : ∃ g', Retry x (y.step e) m g' := by
  have t := step_steps r.sound e
  have answering : ((y.step e).analysis.module m).compileFailure = none ∧
      ((y.step e).analysis.module m).bootFailure = none := by
    have halters := module_alters r.lt e
    generalize (y.step e).analysis.module m = u at halters ⊢
    cases halters with
    | same => exact ⟨r.compile, r.boot⟩
    | reconfigure => exact ⟨r.compile, r.boot⟩
    | detach => exact ⟨r.compile, r.boot⟩
    | hinder => exact he rfl
  obtain ⟨g', hg', hmoves⟩ := get_moves r.get e
  have retry (module : g'.module = m) (unfailed : ∀ e, g'.progress ≠ .failed e)
      (asks : ∀ q p, g'.progress = .asks q p → p.module = m ∧ p.stage.Asks m q)
      (replies : ∀ reply, g'.reply = some reply → ∃ paths, reply = .ok paths) : ∃ g', Retry x (y.step e) m g' :=
    ⟨g', r.sound.step e, t.evolves.later.lt_modules r.lt, answering.1, answering.2, hg', module, unfailed, asks,
      replies⟩
  cases hmoves with
  | same => exact retry r.module r.unfailed r.asks r.replies
  | answered =>
      refine retry r.module r.unfailed r.asks ?_
      rintro reply hreply
      cases hreply
      exact r.answer rfl
  | @resumed i q p reply =>
      obtain ⟨paths, rfl⟩ := r.replies reply rfl
      refine retry r.module (Analysis.resume_unfailed _ _ _) ?_ nofun
      intro q' p' hq
      have hi : i = m := r.module
      have hp := r.sound.gets r.get
      rw [hi] at hp
      obtain ⟨module, asks, -⟩ := Analysis.resume_asks r.sound.analysis hp hq
      exact ⟨module, asks⟩

theorem Retry.run (r : Retry x y m g) {es : List Event} (hes : ∀ e ∈ es, e.Unhindered m) :
    ∃ g', Retry x (y.run es) m g' := by
  induction es generalizing y g with
  | nil => exact ⟨g, r⟩
  | cons e es ih =>
      obtain ⟨he, hes⟩ := List.forall_mem_cons.mp hes
      obtain ⟨g', r'⟩ := r.step he
      exact ih r' hes

/-- Several questions of a get, each answered and the get resumed. -/
def rounds (k : Nat) : Nat → List Event
  | 0 => []
  | n + 1 => .answer k :: .resume k :: rounds k n

theorem found_run (hg : y.gets.get? k = some g) (hf : g.progress = .found s) (es : List Event) :
    (y.run es).progress? k = some (.found s) := by
  have stays : (y.run es).gets.get? k = some g :=
    run_induction (P := fun z => z.gets.get? k = some g)
      (fun z e hz => get?_step_of_not_waits hz (Ticket.Found.not_waits ⟨rfl, hf⟩) e) hg es
  rw [progress?, stays, Option.map_some, hf]

/-- With one more question answered, the get ends or fewer are left. -/
theorem Retry.round (r : Retry x y m g) (hg : g.progress = .asks q p) :
    ∃ g', Retry x (y.run (rounds x.gets.size 1)) m g' ∧
      ∀ q' p', g'.progress = .asks q' p' →
        (y.run (rounds x.gets.size 1)).analysis.rank p' < y.analysis.rank p := by
  obtain ⟨i, progress, reply⟩ := g
  obtain rfl : i = m := r.module
  obtain rfl : progress = .asks q p := hg
  have answered : y.step (.answer x.gets.size) = { y with
      gets := y.gets.modify x.gets.size fun _ => ⟨i, .asks q p, some (y.analysis.answer q)⟩ } := by
    simp only [Session.step, r.get]
  have waits : (y.step (.answer x.gets.size)).gets.get? x.gets.size =
      some ⟨i, .asks q p, some (y.analysis.answer q)⟩ := by
    rw [answered, Row.get?_modify, if_pos rfl, r.get]
    rfl
  have d : (y.step (.answer x.gets.size)).Drives (.resume x.gets.size) x.gets.size i
      ((y.step (.answer x.gets.size)).analysis.resume p (y.analysis.answer q)) := .resume waits
  obtain ⟨g₁, r₁⟩ := r.step (e := .answer x.gets.size) trivial
  obtain ⟨g₂, r₂⟩ := r₁.step (e := .resume x.gets.size) trivial
  refine ⟨g₂, r₂, ?_⟩
  intro q' p' hq
  cases d.step_eq.2.symm.trans r₂.get
  have hlt := (Analysis.resume_asks r₁.sound.analysis (r₁.sound.gets waits) hq).2.2
  rw [← d.analysis_eq] at hlt
  have hsame : (y.step (.answer x.gets.size)).analysis = y.analysis := by rw [answered]
  rw [hsame] at hlt
  exact hlt

/-- Once all its questions are answered, the get ends in a service. -/
theorem Retry.found (r : Retry x y m g) {n : Nat}
    (hn : ∀ q p, g.progress = .asks q p → y.analysis.rank p < n) :
    ∃ s, (y.run (rounds x.gets.size n)).progress? x.gets.size = some (.found s) := by
  induction n generalizing y g with
  | zero =>
      cases hg : g.progress with
      | found s => exact ⟨s, found_run r.get hg _⟩
      | failed e => exact absurd hg (r.unfailed e)
      | asks q p => exact absurd (hn q p hg) (Nat.not_lt_zero _)
  | succ n ih =>
      cases hg : g.progress with
      | found s => exact ⟨s, found_run r.get hg _⟩
      | failed e => exact absurd hg (r.unfailed e)
      | asks q p =>
          obtain ⟨g', r', hlt⟩ := r.round hg
          refine ih r' fun q' p' hq => ?_
          exact Nat.lt_of_lt_of_le (hlt q' p' hq) (Nat.le_of_lt_succ (hn q p hg))

/-- A module that is attached at the end was never detached. -/
theorem spares_of_live (h : x.Sound) (hm : m < x.analysis.modules.size) {es : List Event}
    (hes : ∀ e ∈ es, e.KeepsSettings m) (hlive : ((x.run es).analysis.module m).live = true) :
    (x.analysis.module m).live = true ∧ ∀ e ∈ es, e.Spares m := by
  induction es generalizing x with
  | nil => exact ⟨hlive, fun _ he => absurd he List.not_mem_nil⟩
  | cons f es ih =>
      obtain ⟨hf, hes⟩ := List.forall_mem_cons.mp hes
      have t := step_steps h f
      obtain ⟨hl, hspares⟩ := ih (h.step f) (t.evolves.later.lt_modules hm) hes hlive
      have spares : f.Spares m := by
        cases f with
        | reconfigure i settings => exact hf
        | detach i =>
            rintro rfl
            have hu : (x.step (.detach i)).analysis.module i = (x.analysis.module i).detach :=
              (Row.get_modify hm).trans (if_pos rfl)
            rw [hu] at hl
            cases hl
        | _ => trivial
      exact ⟨(step_spares hm spares).1.symm.trans hl, List.forall_mem_cons.mpr ⟨spares, hspares⟩⟩

/-- What a get returns that begins and ends while its module declares the same is live, if the module is attached. -/
theorem returned_isLive (h : x.Sound) (hm : m < x.analysis.modules.size) {before : List Event}
    (hkeeps : ∀ f ∈ before ++ [e], f.KeepsSettings m)
    (hr : (x.run before).Returns e x.gets.size m s)
    (hlive : (((x.run before).step e).analysis.module m).live = true) :
    ((x.run before).step e).analysis.IsLive s := by
  have hend := hlive
  rw [← run_concat] at hend
  obtain ⟨-, hspares⟩ := spares_of_live h hm hkeeps hend
  obtain ⟨hbefore, he⟩ := List.forall_mem_append.mp hspares
  have u : x.Undisturbed (x.run before) m := .run h hm hbefore
  exact (u.isServed (List.forall_mem_singleton.mp he) hr).live hlive (Nat.le_refl _)

/-- What a get does that begins at the second session: what it returns is registered and was made since the first
session, and it is live if the module is attached and declares the same all the while. If the module answers, the get
does return. -/
structure ServesAnew (z w : Session) (m : ModuleId) : Prop where
  returns : ∀ before e s, (before ++ [e]).head? = some (.start m) → (w.run before).Returns e w.gets.size m s →
    z.analysis.services.size ≤ s ∧ ((w.run before).step e).analysis.registered.get? m = some s ∧
    (((w.run before).step e).analysis.service s).destroyed = false ∧
    ((∀ f ∈ before ++ [e], f.KeepsSettings m) → (((w.run before).step e).analysis.module m).live = true →
      ((w.run before).step e).analysis.IsLive s)
  ends : (w.analysis.module m).compileFailure = none → (w.analysis.module m).bootFailure = none →
    ∀ meanwhile, (∀ e ∈ meanwhile, e.Unhindered m) →
      (∀ e, ((w.step (.start m)).run meanwhile).progress? w.gets.size ≠ some (.failed e)) ∧
      ∃ s, (((w.step (.start m)).run meanwhile).run (rounds w.gets.size 8)).progress? w.gets.size =
        some (.found s)

theorem Renews.servesAnew (r : z.Renews x m) (hm : m < x.analysis.modules.size) : z.ServesAnew x m where
  returns before e s hstart hr := by
    have hs := run_sound r.sound before
    obtain ⟨result, d, hf⟩ := hr.drives
    have alive := (d.goes hs).2.2 s hf
    rw [← d.analysis_eq] at alive
    exact ⟨(r.run before).returns hr, hr.registered hs, alive,
      fun hkeeps hlive => returned_isLive r.sound hm hkeeps hr hlive⟩
  ends compile boot meanwhile hmeanwhile := by
    obtain ⟨g, retry⟩ := retry_start r.sound hm compile boot
    obtain ⟨g', retry'⟩ := retry.run hmeanwhile
    refine ⟨fun e he => ?_, retry'.found fun _ p _ => Analysis.rank_lt _ p⟩
    rw [progress?, retry'.get, Option.map_some] at he
    exact retry'.unfailed e (Option.some.inj he)

/-- A get on its own that is refused an answer fails with that error. It is counted, and it leaves the registry, the
services and the contexts of live services as they are, except that stale services are put away unless they are
retained. Whatever happens then, the next get for the module returns a registered service made after that, live if the
module is attached and was not configured anew meanwhile, and if the module answers all the while, it does return. -/
theorem failed_get_retried (c : Config) (env : Environment) (d : Disk) (es : List Event) :
    let x := (ofConfig c env d).run es
    ∀ m during, m < x.analysis.modules.size → (∀ e ∈ during, e.Alone x.gets.size) →
    let y := (x.step (.start m)).run during
    ∀ q p cause, y.gets.get? x.gets.size = some ⟨m, .asks q p, some (.error cause)⟩ →
    let z := y.step (.resume x.gets.size)
    x.Fails z m cause ∧ ∀ between, z.ServesAnew (z.run between) m := by
  intro x m during hm halone y q p cause hwaits z
  have h : x.Sound := run_sound (ofConfig_sound c env d) es
  -- the get waits at the end, so it waited when it had started
  obtain ⟨f, hf⟩ : ∃ f, (x.step (.start m)).gets.get? x.gets.size = some f :=
    ⟨_, (Drives.start (x := x) hm).step_eq.2⟩
  have hfw : f.Waits := by
    by_contra hfw
    have stays : y.gets.get? x.gets.size = some f :=
      run_induction (P := fun u => u.gets.get? x.gets.size = some f)
        (fun u e hu => get?_step_of_not_waits hu hfw e) hf during
    cases stays.symm.trans hwaits
    exact hfw trivial
  obtain ⟨hl, q₀, p₀, reply₀, t₀⟩ := attempt_start h hm hf hfw
  obtain ⟨q', p', reply', t⟩ := t₀.run halone hwaits trivial
  cases hwaits.symm.trans t.waits
  refine ⟨t.fails h hm, fun between => ?_⟩
  have later := (step_steps t.sound (.resume x.gets.size)).evolves.later
  have hz : m < z.analysis.modules.size := later.lt_modules (t.evolves.later.lt_modules hm)
  have renews := (t.renews h hm hl).run between
  exact renews.servesAnew (Nat.lt_of_lt_of_le hz renews.modules_le)

/-- A plain and a platform module have a service each, and that of the platform module is stale. -/
def renewable : List Event :=
  [.add { name := "lib", path := ⟨[]⟩ }, .add { name := "app", path := ⟨[]⟩, settings := { kind := .platform } },
    .start 0, .answer 0, .resume 0,
    .start 1, .answer 1, .resume 1, .answer 1, .resume 1, .answer 1, .resume 1,
    .reconfigure 1 { kind := .platform }]

/-- The context is made anew, and then the module does not answer any more. -/
def refused : List Event :=
  [.answer 2, .resume 2, .answer 2, .resume 2,
    .hinder 1 none (some (.unavailable "app" "closed")) none, .answer 2]

deriving instance DecidableEq for Ticket

theorem failed_get_retried_of_refused :
    let x := sample renewable
    let z := ((x.step (.start 1)).run refused).step (.resume x.gets.size)
    let w := z.run [.hinder 1 none none none]
    x.Fails z 1 (.unavailable "app" "closed") ∧
    (z.analysis.registered.get? 0 = some 1 ∧ z.analysis.registered.get? 1 = none ∧
      (z.analysis.service 2).destroyed = true) ∧
    (w.run [.start 1, .answer 3]).Returns (.resume 3) w.gets.size 1 3 ∧ z.analysis.services.size ≤ 3 ∧
      ((w.run [.start 1, .answer 3]).step (.resume 3)).analysis.registered.get? 1 = some 3 := by
  intro x z w
  have alone : ∀ e ∈ refused, e.Alone x.gets.size := by
    have size : x.gets.size = 2 := by decide +kernel
    simp [refused, Event.Alone, size]
  obtain ⟨fails, again⟩ : x.Fails z 1 (.unavailable "app" "closed") ∧
      ∀ between, z.ServesAnew (z.run between) 1 :=
    failed_get_retried {} {} (.empty 0) renewable 1 refused (by decide +kernel) alone
      (.boot 1) ⟨1, 0, .boot 3 ⟨1, {}⟩⟩ (.unavailable "app" "closed") (by decide +kernel)
  have returns : (w.run [.start 1, .answer 3]).Returns (.resume 3) w.gets.size 1 3 := by decide +kernel
  have anew : z.ServesAnew w 1 := again [.hinder 1 none none none]
  obtain ⟨new, registered, -⟩ :=
    anew.returns [.start 1, .answer 3] (.resume 3) 3 rfl returns
  exact ⟨fails, by decide +kernel, returns, new, registered⟩

end Session

end ClassScope
