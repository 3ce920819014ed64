import ClassScope.Proofs.Analysis.Steps

/-!
# Tearing everything down

What is torn down is gone for good: a get that waits meanwhile begins a new pass, at most one for each
teardown, and what a get returns was built in a pass that began after the last teardown.
-/

namespace ClassScope.Session

variable {x : Session} {e : Event} {k : Nat} {m : ModuleId} {s : ServiceId} {r : Progress × Analysis}

/-! ## Passes of a get -/

/-- How many passes a get begins with an event. -/
def passesIn (x : Session) (k : Nat) (e : Event) : Nat :=
  if x.driven? e = some k then (x.step e).analysis.passes - x.analysis.passes else 0

def passes (k : Nat) : Session → List Event → Nat
  | _, [] => 0
  | x, e :: es => x.passesIn k e + passes k (x.step e) es

def isWaiting (x : Session) (k : Nat) : Bool :=
  match x.progress? k with
  | some (.asks _ _) => true
  | _ => false

def tornIn (x : Session) (k : Nat) : Event → Nat
  | .destroyAll => if x.isWaiting k then 1 else 0
  | _ => 0

/-- How often everything is torn down while a get waits. -/
def teardowns (k : Nat) : Session → List Event → Nat
  | _, [] => 0
  | x, e :: es => x.tornIn k e + teardowns k (x.step e) es

theorem Drives.passesIn_eq (d : x.Drives e k m r) : x.passesIn k e = r.2.passes - x.analysis.passes := by
  rw [passesIn, if_pos d.driven?_eq, d.analysis_eq]

theorem Drives.tornIn_eq (d : x.Drives e k m r) (j : Nat) : x.tornIn j e = 0 := by
  cases d with
  | start lt => rfl
  | resume waits => rfl

/-- How a get goes on: it ends in a live service at once, it begins a pass, or it stays in its pass. -/
inductive Goes (x : Session) (k : Nat) (r : Progress × Analysis) : Prop where
  | atOnce {s : ServiceId} (found : r.1 = .found s) (lt : s < x.analysis.services.size)
      (passes : r.2.passes = x.analysis.passes)
  | anew (before : ∀ progress, x.progress? k = some progress →
        ∃ q p, progress = .asks q p ∧ p.epoch < x.analysis.epoch)
      (passes : r.2.passes = x.analysis.passes + 1)
      (asks : ∀ {q p}, r.1 = .asks q p → p.epoch = x.analysis.epoch)
  | further {q : Question} {p : Pending} (waits : x.progress? k = some (.asks q p))
      (passes : r.2.passes = x.analysis.passes)
      (asks : ∀ {q' p'}, r.1 = .asks q' p' → p'.epoch = p.epoch)
      (found : ∀ {s}, r.1 = .found s → x.analysis.epoch = p.epoch)

theorem Drives.goes (d : x.Drives e k m r) (h : x.Sound) :
    x.Goes k r ∧ r.2.epoch = x.analysis.epoch ∧
      ∀ s, r.1 = .found s → (r.2.service s).destroyed = false := by
  cases d with
  | start lt =>
      have hnone (progress : Progress) : x.progress? x.gets.size ≠ some progress := by
        intro hp
        obtain ⟨g, hg, -⟩ := Option.map_eq_some_iff.mp hp
        exact Nat.lt_irrefl _ (Row.lt_of_get? hg)
      refine ⟨?_, Analysis.epoch_begin h.analysis m, fun s => Analysis.destroyed_begin h.analysis⟩
      rcases Analysis.begin_cases h.analysis m with ⟨s, hf, hs, hp⟩ | ⟨hp, ha⟩
      · exact .atOnce hf hs hp
      · exact .anew (fun progress h => absurd h (hnone progress)) hp ha
  | @resume k m q p reply waits =>
      have hw : x.progress? k = some (.asks q p) := by
        rw [progress?, waits]
        rfl
      have hp : p.Holds x.released x.analysis m 0 q (some reply) := h.gets waits
      rcases Analysis.resume_cases h.analysis hp with ⟨hadv, hpass, hf⟩ | ⟨b, hk, hb, hne, he⟩
      · exact ⟨.further hw hpass hadv.asks (hf _), hadv.epoch_eq, fun s => hadv.found⟩
      · rw [he]
        have hlt : p.epoch < x.analysis.epoch := Nat.lt_of_le_of_ne hp.epoch_le (Ne.symm hne)
        have hpasses : b.passes = x.analysis.passes := by
          rw [Analysis.passes, hk.stats, Analysis.passes]
        refine ⟨?_, (Analysis.epoch_begin hb m).trans hk.epoch, fun s => Analysis.destroyed_begin hb⟩
        rcases Analysis.begin_cases hb m with ⟨s, hf, hs, hpass⟩ | ⟨hpass, ha⟩
        · exact .atOnce hf (hk.services_size ▸ hs) (hpass.trans hpasses)
        · refine .anew ?_ (by rw [hpass, hpasses]) (fun h => (ha h).trans hk.epoch)
          intro progress hprogress
          cases hw.symm.trans hprogress
          exact ⟨q, p, rfl, hlt⟩

theorem passesIn_or_drives (x : Session) (e : Event) (k : Nat) :
    x.passesIn k e = 0 ∨ ∃ m r, x.Drives e k m r := by
  by_cases hk : x.driven? e = some k
  · rcases step_eq_or_drives hk with he | hd
    · left
      rw [passesIn, he, Nat.sub_self, ite_self]
    · exact Or.inr hd
  · exact Or.inl (if_neg hk)

/-! ## Passes and teardowns -/

/-- How many passes a get may still begin if nothing more is torn down. -/
def allowance (x : Session) (k : Nat) : Nat :=
  match x.progress? k with
  | none => 1
  | some (.asks _ p) => x.analysis.epoch - p.epoch
  | some _ => 0

theorem epoch_step (h : x.Sound) (he : e ≠ .destroyAll) : (x.step e).analysis.epoch = x.analysis.epoch := by
  cases x.kind h e with
  | drives d => rw [d.analysis_eq, (d.goes h).2.1]
  | tears eq => exact absurd eq he
  | @releases s eq =>
      subst eq
      simp only [step]
      split
      · rw [Analysis.destroyService_eq]
      · rfl
  | keeps hk => exact hk.epoch

theorem epoch_destroyAll (a : Analysis) : a.destroyAll.epoch = a.epoch + 1 := by
  simp only [Analysis.destroyAll, Analysis.clearContexts]
  rw [Analysis.destroyContexts_eq, Analysis.destroyServices_eq]

theorem allowance_step_of_drives (h : x.Sound) (d : x.Drives e k m r) :
    x.passesIn k e + (x.step e).allowance k ≤ x.allowance k := by
  obtain ⟨g, hepoch, -⟩ := d.goes h
  rw [d.passesIn_eq, allowance, d.progress?_eq, d.analysis_eq, hepoch]
  cases g with
  | atOnce found _ passes =>
      rw [found, passes, Nat.sub_self]
      exact Nat.zero_le _
  | anew before passes asks =>
      have hbefore : 1 ≤ x.allowance k := by
        rw [allowance]
        cases hp : x.progress? k with
        | none => exact Nat.le_refl _
        | some progress =>
            obtain ⟨q, p, rfl, hlt⟩ := before progress hp
            show 1 ≤ x.analysis.epoch - p.epoch
            omega
      cases hr : r.1 with
      | found s => simp only; omega
      | failed f => simp only; omega
      | asks q p =>
          have := asks hr
          simp only
          omega
  | @further q p waits passes asks found =>
      have hbefore : x.allowance k = x.analysis.epoch - p.epoch := by rw [allowance, waits]
      cases hr : r.1 with
      | found s => simp only; omega
      | failed f => simp only; omega
      | asks q' p' =>
          have := asks hr
          simp only
          omega

theorem allowance_destroyAll (x : Session) (k : Nat) :
    (x.step .destroyAll).allowance k ≤ x.tornIn k .destroyAll + x.allowance k := by
  have hp : (x.step .destroyAll).progress? k = x.progress? k := rfl
  have he : (x.step .destroyAll).analysis.epoch = x.analysis.epoch + 1 := epoch_destroyAll x.analysis
  rw [allowance, hp, he, tornIn, isWaiting, allowance]
  cases x.progress? k with
  | none => simp
  | some progress =>
      cases progress with
      | found s => simp
      | failed f => simp
      | asks q p => simp only [if_pos]; omega

theorem allowance_step (h : x.Sound) (k : Nat) (e : Event) :
    x.passesIn k e + (x.step e).allowance k ≤ x.tornIn k e + x.allowance k := by
  have driven {m : ModuleId} {r : Progress × Analysis} (d : x.Drives e k m r) :
      x.passesIn k e + (x.step e).allowance k ≤ x.tornIn k e + x.allowance k := by
    rw [d.tornIn_eq, Nat.zero_add]
    exact allowance_step_of_drives h d
  rcases passesIn_or_drives x e k with hpasses | ⟨m, r, d⟩
  · rcases progress?_step_or_drives x e k with hprogress | ⟨m, r, d⟩
    · have other (he : e ≠ .destroyAll) :
          x.passesIn k e + (x.step e).allowance k ≤ x.tornIn k e + x.allowance k := by
        rw [hpasses, Nat.zero_add, allowance, hprogress, epoch_step h he, ← allowance]
        exact Nat.le_add_left _ _
      cases e with
      | destroyAll =>
          rw [hpasses, Nat.zero_add]
          exact allowance_destroyAll x k
      | _ => exact other nofun
    · exact driven d
  · exact driven d

theorem passes_add_allowance_le (h : x.Sound) (k : Nat) (es : List Event) :
    passes k x es + (x.run es).allowance k ≤ teardowns k x es + x.allowance k := by
  induction es generalizing x with
  | nil => simp [passes, teardowns, run]
  | cons e es ih =>
      have hstep := allowance_step h k e
      have hih := ih (h.step e)
      have hrun : x.run (e :: es) = (x.step e).run es := rfl
      rw [passes, teardowns, hrun]
      omega

theorem passes_concat (k : Nat) (x : Session) (es : List Event) (e : Event) :
    passes k x (es ++ [e]) = passes k x es + (x.run es).passesIn k e := by
  induction es generalizing x with
  | nil => simp [passes, run]
  | cons f es ih =>
      have hrun : x.run (f :: es) = (x.step f).run es := rfl
      rw [List.cons_append, passes, passes, ih, hrun, Nat.add_assoc]

/-! ## The pass in which a service was built -/

/-- A get begins a pass with the first of some events, and stays in it up to the last one. -/
def InPass (x : Session) (k : Nat) : List Event → Prop
  | [] => False
  | e :: es => x.passesIn k e = 1 ∧ passes k (x.step e) es = 0

/-- With the last event of a pass of some get, a new service is there for a module. -/
def Builds (x : Session) (pass : List Event) (m : ModuleId) (s : ServiceId) : Prop :=
  ∃ k es e, pass = es ++ [e] ∧ x.InPass k pass ∧ (x.run es).Returns e k m s ∧
    (x.run es).analysis.services.size = s

/-- A service was built in a pass, and nothing was torn down since that pass began. -/
def BuiltSince (x : Session) (es : List Event) (m : ModuleId) (s : ServiceId) : Prop :=
  ∃ before pass after, es = before ++ (pass ++ after) ∧ (x.run before).Builds pass m s ∧
    Event.destroyAll ∉ pass ++ after

theorem InPass.concat {es : List Event} (hp : x.InPass k es) (he : (x.run es).passesIn k e = 0) :
    x.InPass k (es ++ [e]) := by
  cases es with
  | nil => exact hp.elim
  | cons f es =>
      refine ⟨hp.1, ?_⟩
      show passes k (x.step f) (es ++ [e]) = 0
      rw [passes_concat, hp.2, Nat.zero_add]
      exact he

theorem BuiltSince.concat {es : List Event} (hb : x.BuiltSince es m s) (he : e ≠ .destroyAll) :
    x.BuiltSince (es ++ [e]) m s := by
  obtain ⟨before, pass, after, rfl, hbuilds, hmem⟩ := hb
  refine ⟨before, pass, after ++ [e], by simp only [List.append_assoc], hbuilds, ?_⟩
  rw [← List.append_assoc]
  intro h
  rcases List.mem_append.mp h with h | h
  · exact hmem h
  · exact he (List.mem_singleton.mp h).symm

theorem epoch_le_run (h : x.Sound) (es : List Event) : x.analysis.epoch ≤ (x.run es).analysis.epoch := by
  have both : (x.run es).Sound ∧ x.analysis.epoch ≤ (x.run es).analysis.epoch := by
    refine run_induction (P := fun y => y.Sound ∧ x.analysis.epoch ≤ y.analysis.epoch) ?_
      ⟨h, Nat.le_refl _⟩ es
    rintro y e ⟨hy, hle⟩
    exact ⟨hy.step e, Nat.le_trans hle (step_steps hy e).evolves.later.epoch_le⟩
  exact both.2

theorem epoch_lt_of_mem (h : x.Sound) {es : List Event} (hmem : Event.destroyAll ∈ es) :
    x.analysis.epoch < (x.run es).analysis.epoch := by
  obtain ⟨before, after, rfl⟩ := List.append_of_mem hmem
  have hbefore := epoch_le_run h before
  have hafter := epoch_le_run ((run_sound h before).step .destroyAll) after
  have htorn : ((x.run before).step .destroyAll).analysis.epoch = (x.run before).analysis.epoch + 1 :=
    epoch_destroyAll _
  have hrun : x.run (before ++ .destroyAll :: after) = ((x.run before).step .destroyAll).run after :=
    run_append x before _
  rw [hrun]
  omega

theorem registered_destroyAll (a : Analysis) : a.destroyAll.registered = ∅ := by
  simp only [Analysis.destroyAll, Analysis.clearContexts]
  rw [Analysis.destroyContexts_eq, Analysis.destroyServices_eq]

/-- Where the services in the registry and the waiting gets come from. -/
structure Traced (x : Session) (es : List Event) : Prop where
  registered : ∀ {m s}, (x.run es).analysis.registered.get? m = some s → x.BuiltSince es m s
  waiting : ∀ {k q p}, (x.run es).progress? k = some (.asks q p) →
    ∃ before pass, es = before ++ pass ∧ (x.run before).InPass k pass ∧
      (x.run before).analysis.epoch = p.epoch

theorem Traced.waiting_concat {es : List Event} (t : x.Traced es) (h : (x.run es).Sound) {q : Question}
    {p : Pending} (hk : (x.run (es ++ [e])).progress? k = some (.asks q p)) :
    ∃ before pass, es ++ [e] = before ++ pass ∧ (x.run before).InPass k pass ∧
      (x.run before).analysis.epoch = p.epoch := by
  have stays {q' : Question} {p' : Pending} (hw : (x.run es).progress? k = some (.asks q' p'))
      (hpasses : (x.run es).passesIn k e = 0) :
      ∃ before pass, es ++ [e] = before ++ pass ∧ (x.run before).InPass k pass ∧
        (x.run before).analysis.epoch = p'.epoch := by
    obtain ⟨before, pass, rfl, hin, hepoch⟩ := t.waiting hw
    rw [run_append] at hpasses
    exact ⟨before, pass ++ [e], List.append_assoc .., hin.concat hpasses, hepoch⟩
  have driven {m : ModuleId} {r : Progress × Analysis} (d : (x.run es).Drives e k m r) :
      ∃ before pass, es ++ [e] = before ++ pass ∧ (x.run before).InPass k pass ∧
        (x.run before).analysis.epoch = p.epoch := by
    rw [run_concat, d.progress?_eq] at hk
    have hr : r.1 = .asks q p := Option.some.inj hk
    have hpasses := d.passesIn_eq
    cases (d.goes h).1 with
    | atOnce found _ _ => cases hr.symm.trans found
    | anew _ passes asks =>
        refine ⟨es, [e], rfl, ⟨?_, rfl⟩, (asks hr).symm⟩
        rw [hpasses, passes]
        omega
    | further waits passes asks _ =>
        rw [passes, Nat.sub_self] at hpasses
        rw [asks hr]
        exact stays waits hpasses
  rcases passesIn_or_drives (x.run es) e k with hpasses | ⟨m, r, d⟩
  · rcases progress?_step_or_drives (x.run es) e k with hprogress | ⟨m, r, d⟩
    · rw [run_concat, hprogress] at hk
      exact stays hk hpasses
    · exact driven d
  · exact driven d

/-- What a get has built comes into the registry only if nothing was torn down since its pass began. -/
theorem Traced.built {es : List Event} (t : x.Traced es) (hx : x.Sound) (d : (x.run es).Drives e k m r)
    (hf : r.1 = .found s) (hs : s = (x.run es).analysis.services.size) : x.BuiltSince (es ++ [e]) m s := by
  have h := run_sound hx es
  have hne : Event.destroyAll ∉ [e] := by
    intro hmem
    cases List.mem_singleton.mp hmem
    cases d
  have hpasses := d.passesIn_eq
  cases (d.goes h).1 with
  | atOnce found lt _ =>
      cases hf.symm.trans found
      exact absurd hs (Nat.ne_of_lt lt)
  | anew _ passes _ =>
      refine ⟨es, [e], [], rfl, ⟨k, [], e, rfl, ⟨?_, rfl⟩, d.returns hf, hs.symm⟩, hne⟩
      rw [hpasses, passes]
      omega
  | further waits passes _ found =>
      obtain ⟨before, pass, rfl, hin, hepoch⟩ := t.waiting waits
      rw [passes, Nat.sub_self] at hpasses
      have hd := d.returns hf
      have hkept := found hf
      rw [run_append] at hpasses hd hs hkept
      refine ⟨before, pass ++ [e], [], by simp, ⟨k, pass, e, rfl, hin.concat hpasses, hd, hs.symm⟩, ?_⟩
      intro hmem
      rw [List.append_nil] at hmem
      rcases List.mem_append.mp hmem with hmem | hmem
      · have := epoch_lt_of_mem (run_sound hx before) hmem
        omega
      · exact hne hmem

theorem Traced.concat {es : List Event} (t : x.Traced es) (hx : x.Sound) (e : Event) :
    x.Traced (es ++ [e]) := by
  have h := run_sound hx es
  refine ⟨?_, t.waiting_concat h⟩
  intro m s
  rw [run_concat]
  intro hr
  rcases registered_step h hr with hold | ⟨k, r, d, hf, hs⟩
  · cases e with
    | destroyAll =>
        have hnone : ((x.run es).step .destroyAll).analysis.registered = ∅ := registered_destroyAll _
        rw [hnone] at hr
        cases hr
    | _ => exact (t.registered hold).concat nofun
  · exact t.built hx d hf hs

theorem Traced.append {es : List Event} (t : x.Traced es) (hx : x.Sound) (fs : List Event) :
    x.Traced (es ++ fs) := by
  induction fs generalizing es with
  | nil =>
      rw [List.append_nil]
      exact t
  | cons e fs ih =>
      have happ : es ++ e :: fs = (es ++ [e]) ++ fs := by simp
      rw [happ]
      exact ih (t.concat hx e)

theorem ofConfig_traced (c : Config) (env : Environment) (d : Disk) (es : List Event) :
    (ofConfig c env d).Traced es := by
  have start : (ofConfig c env d).Traced [] := ⟨nofun, nofun⟩
  exact start.append (ofConfig_sound c env d) es

/-! ## Before and after a teardown -/

/-- Only services that are made from now on are registered. -/
structure AllNew (n : Nat) (x : Session) : Prop where
  size_le : n ≤ x.analysis.services.size
  registered : ∀ {m s}, x.analysis.registered.get? m = some s → n ≤ s

theorem AllNew.run {n : Nat} (t : AllNew n x) (h : x.Sound) (es : List Event) : AllNew n (x.run es) := by
  have both : (x.run es).Sound ∧ AllNew n (x.run es) := by
    refine run_induction (P := fun y => y.Sound ∧ AllNew n y) ?_ ⟨h, t⟩ es
    rintro y e ⟨hy, ty⟩
    refine ⟨hy.step e, Nat.le_trans ty.size_le (step_steps hy e).evolves.later.services.size_le, ?_⟩
    intro m s hr
    rcases registered_step hy hr with hold | ⟨_, _, _, _, rfl⟩
    · exact ty.registered hold
    · exact ty.size_le
  exact both.2

theorem Returned.lt (h : x.Sound) (r : x.Returned m s) : s < x.analysis.services.size :=
  Analysis.lt_of_service (r.module h)

/-- A teardown leaves nothing in the caches, and no service that was returned before is live afterwards or
returned again. -/
theorem step_destroyAll_cut (h : x.Sound) :
    let y := x.step .destroyAll
    (y.analysis.registered = ∅ ∧ y.analysis.cached = ∅ ∧ y.analysis.dependencies.known = ∅ ∧
      y.analysis.boot.scanned = ∅ ∧ y.analysis.boot.current = []) ∧
    ∀ m s, x.Returned m s → ∀ es,
      ¬ (y.run es).analysis.IsLive s ∧ ∀ e k, ¬ (y.run es).Returns e k m s := by
  intro y
  have registered : y.analysis.registered = ∅ := registered_destroyAll x.analysis
  have hy : y.Sound := h.step .destroyAll
  refine ⟨⟨registered, ?_, rfl, rfl, rfl⟩, ?_⟩
  · show x.analysis.destroyAll.cached = ∅
    simp only [Analysis.destroyAll, Analysis.clearContexts]
    rw [Analysis.destroyContexts_eq]
  · intro m s r es
    have hs : s < y.analysis.services.size :=
      Nat.lt_of_lt_of_le (r.lt h) (step_steps h .destroyAll).evolves.later.services.size_le
    have new : AllNew y.analysis.services.size y :=
      ⟨Nat.le_refl _, fun hr => by rw [registered] at hr; cases hr⟩
    constructor
    · intro hl
      have hr := ((r.step .destroyAll).run es).registered (run_sound hy es) hl
      exact absurd hs (Nat.not_lt_of_le ((new.run hy es).registered hr))
    · intro e k ret
      have hr := ret.registered (run_sound hy es)
      rw [← run_concat] at hr
      exact absurd hs (Nat.not_lt_of_le ((new.run hy (es ++ [e])).registered hr))

/-- Everything is gone after a teardown and never comes back. A get begins at most one pass more than there
are teardowns while it waits, and what it returns is not released and was built in a pass that began after
the last teardown. -/
theorem destroyAll_clean_cut (c : Config) (env : Environment) (d : Disk) (es : List Event) :
    let start := ofConfig c env d
    let x := start.run es
    let y := x.step .destroyAll
    ((y.analysis.registered = ∅ ∧ y.analysis.cached = ∅ ∧ y.analysis.dependencies.known = ∅ ∧
        y.analysis.boot.scanned = ∅ ∧ y.analysis.boot.current = []) ∧
      ∀ m s, x.Returned m s → ∀ fs,
        ¬ (y.run fs).analysis.IsLive s ∧ ∀ e k, ¬ (y.run fs).Returns e k m s) ∧
    (∀ k, passes k start es ≤ teardowns k start es + 1) ∧
    (∀ e k m s, x.Returns e k m s →
      ((x.step e).analysis.service s).destroyed = false ∧ start.BuiltSince (es ++ [e]) m s) := by
  intro start x y
  have hstart : start.Sound := ofConfig_sound c env d
  have h : x.Sound := run_sound hstart es
  refine ⟨step_destroyAll_cut h, ?_, ?_⟩
  · intro k
    have hle := passes_add_allowance_le hstart k es
    have hone : start.allowance k = 1 := rfl
    omega
  · intro e k m s ret
    have hr := ret.registered h
    rw [← run_concat] at hr
    refine ⟨?_, (ofConfig_traced c env d (es ++ [e])).registered hr⟩
    obtain ⟨r, driven, hf⟩ := ret.drives
    rw [driven.analysis_eq]
    exact (driven.goes h).2.2 s hf

/-- A get has returned a service, and everything is torn down while the next one waits. -/
def interrupted : List Event :=
  [.add { name := "app", path := ⟨[]⟩ }, .start 0, .answer 0, .resume 0, .reconfigure 0 {}, .start 0,
    .destroyAll, .answer 1]

theorem destroyAll_clean_cut_of_interrupted :
    (sample interrupted).Returns (.resume 1) 1 0 2 ∧
      (((sample interrupted).step (.resume 1)).analysis.service 2).destroyed = false ∧
      (ofConfig {} {} (.empty 0)).BuiltSince (interrupted ++ [.resume 1]) 0 2 ∧
      ¬ (sample (interrupted ++ [.destroyAll])).analysis.IsLive 1 ∧
      passes 1 (ofConfig {} {} (.empty 0)) (interrupted ++ [.resume 1]) =
        teardowns 1 (ofConfig {} {} (.empty 0)) (interrupted ++ [.resume 1]) + 1 := by
  obtain ⟨⟨-, gone⟩, -, built⟩ := destroyAll_clean_cut {} {} (.empty 0) interrupted
  obtain ⟨-, bounded, -⟩ := destroyAll_clean_cut {} {} (.empty 0) (interrupted ++ [.resume 1])
  have returns : (sample interrupted).Returns (.resume 1) 1 0 2 := by decide +kernel
  have returned : (sample interrupted).Returned 0 1 := ⟨0, by decide +kernel⟩
  obtain ⟨kept, since⟩ := built (.resume 1) 1 0 2 returns
  refine ⟨returns, kept, since, ?_, ?_⟩
  · rw [sample, run_concat]
    exact (gone 0 1 returned []).1
  · exact Nat.le_antisymm (bounded 1) (by decide +kernel)

end ClassScope.Session
