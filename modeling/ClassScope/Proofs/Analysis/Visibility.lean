import ClassScope.Proofs.Analysis.Registrations
import ClassScope.Proofs.Scan.Caches

/-!
# What services show

Over an unchanging disk, the caches of an analysis hold what plain scans find, and so does every service: its
dependency classes are those of the entries of its context, and as long as its module declares the same, its
boot classes are those of the module's boot entries. A get during which nothing else happens keeps this.
-/

namespace ClassScope

variable {rs : List ServiceId} {a b c : Analysis} {d : Disk} {pool std ps : List Path}
  {m : ModuleId} {since : Nat}

namespace Analysis

/-! ## Scans -/

structure Reads (d : Disk) (pool : List Path) (a : Analysis) : Prop where
  disk : a.disk = d
  dependencies : a.dependencies.Reads d pool
  boot : a.boot.Reads d pool

theorem Reads.updateBoot (h : a.Reads d pool) (one : Path.OneSpelling pool) (hps : ps ⊆ pool) :
    (a.updateBoot ps).Reads d pool := by
  obtain ⟨rfl, hdependencies, hboot⟩ := h
  obtain ⟨hb, hd⟩ := hboot.update one hps
  exact ⟨hd, hdependencies, hb⟩

theorem Reads.bootClasses (h : a.Reads d pool) (one : Path.OneSpelling pool) (hps : ps ⊆ pool) :
    (a.bootClasses ps).1 = Scan.classesOf d ps ∧ (a.bootClasses ps).2.Reads d pool := by
  obtain ⟨rfl, hdependencies, hboot⟩ := h
  obtain ⟨hc, hb, hd⟩ := hboot.classes one hps
  exact ⟨hc, hd, hdependencies, hb⟩

theorem Reads.dependencyClasses (h : a.Reads d pool) (one : Path.OneSpelling pool) (hps : ps ⊆ pool) :
    (a.dependencyClasses ps).1.classes = Scan.classesOf d ps ∧ (a.dependencyClasses ps).2.Reads d pool := by
  obtain ⟨rfl, hdependencies, hboot⟩ := h
  obtain ⟨hc, hds, hd⟩ := hdependencies.classes one hps
  exact ⟨hc, hd, hds, hboot⟩

/-- The boot classes of a module are those of the entries that it declares, or of the default ones. -/
theorem Reads.moduleBootClasses (h : a.Reads d pool) (one : Path.OneSpelling pool) (declared : Option (List Path))
    (hps : declared.getD a.defaultBoot ⊆ pool) :
    (a.moduleBootClasses declared).1 = Scan.classesOf d (declared.getD a.defaultBoot) ∧
      (a.moduleBootClasses declared).2.Reads d pool := by
  have entries {ps : List Path} (hps : ps ⊆ pool) :
      (PathSet.ofFirst ps).toList ⊆ pool ∧
        Scan.classesOf d (PathSet.ofFirst ps).toList = Scan.classesOf d ps :=
    ⟨fun _ hp => hps (PathSet.mem_of_mem_ofFirst hp),
      Scan.classesOf_congr fun _ => PathSet.mem_ofFirst one hps⟩
  obtain ⟨hsub, hsame⟩ := entries hps
  cases declared with
  | some ps =>
      obtain ⟨hc, hr⟩ := (h.updateBoot one hsub).bootClasses one hsub
      exact ⟨hc.trans hsame, hr⟩
  | none =>
      obtain ⟨hc, hr⟩ := h.bootClasses one hsub
      exact ⟨hc.trans hsame, hr⟩

/-! ## What stays when services and contexts are released -/

/-- Nothing is changed but flags and tables, and what was scanned may be forgotten. -/
structure Frames (a b : Analysis) : Prop where
  modules : b.modules = a.modules
  defaultBoot : b.defaultBoot = a.defaultBoot
  reads : ∀ {d pool}, a.Reads d pool → b.Reads d pool
  classPaths : ∀ c, (b.context c).classPaths = (a.context c).classPaths
  service : ∀ s, b.service s = { a.service s with destroyed := (b.service s).destroyed }

namespace Frames

theorem refl (a : Analysis) : a.Frames a :=
  ⟨rfl, rfl, id, fun _ => rfl, fun _ => rfl⟩

theorem trans (h₁ : a.Frames b) (h₂ : b.Frames c) : a.Frames c where
  modules := h₂.modules.trans h₁.modules
  defaultBoot := h₂.defaultBoot.trans h₁.defaultBoot
  reads h := h₂.reads (h₁.reads h)
  classPaths i := (h₂.classPaths i).trans (h₁.classPaths i)
  service s := by rw [h₂.service s, h₁.service s]

theorem module (f : a.Frames b) (m : ModuleId) : b.module m = a.module m := by
  rw [Analysis.module, f.modules, Analysis.module]

end Frames

theorem forget_frames (a : Analysis) (registered : Table ModuleId ServiceId) (cached : Table ModuleId ContextId)
    (epoch : Nat) : a.Frames { a with registered, cached, epoch } :=
  ⟨rfl, rfl, fun h => ⟨h.disk, h.dependencies, h.boot⟩, fun _ => rfl, fun _ => rfl⟩

theorem destroyContext_frames (a : Analysis) (c : ContextId) : a.Frames (a.destroyContext c) where
  modules := rfl
  defaultBoot := rfl
  reads h := ⟨h.disk, h.dependencies, h.boot⟩
  classPaths i := by
    refine Row.get_modify_rel (R := fun x y : FileContext => y.classPaths = x.classPaths) ?_ ?_ c i
    · exact fun _ => rfl
    · exact fun _ => rfl
  service _ := rfl

theorem destroyContexts_frames (a : Analysis) (cs : List ContextId) : a.Frames (a.destroyContexts cs) := by
  induction cs generalizing a with
  | nil => exact .refl a
  | cons c cs ih => exact (destroyContext_frames a c).trans (ih _)

theorem destroyService_frames (a : Analysis) (s : ServiceId) : a.Frames (a.destroyService s) := by
  by_cases hd : (a.service s).destroyed = true
  · rw [destroyService_of_destroyed hd]
    exact .refl a
  · rw [destroyService, if_neg hd]
    refine Frames.trans ?_ (destroyContext_frames _ _)
    refine ⟨rfl, rfl, fun h => ⟨h.disk, h.dependencies, h.boot⟩, fun _ => rfl, fun t => ?_⟩
    refine Row.get_modify_rel (R := fun x y : Service => y = { x with destroyed := y.destroyed }) ?_ ?_ s t
    · exact fun _ => rfl
    · exact fun _ => rfl

theorem destroyServices_frames (a : Analysis) (ss : List ServiceId) : a.Frames (a.destroyServices ss) := by
  induction ss generalizing a with
  | nil => exact .refl a
  | cons s ss ih => exact (destroyService_frames a s).trans (ih _)

theorem purgeContexts_frames (a : Analysis) : a.Frames a.purgeContexts.2 :=
  (forget_frames a a.registered _ a.epoch).trans (destroyContexts_frames _ _)

theorem purge_frames (a : Analysis) : a.Frames a.purge.2 := by
  unfold purge
  split
  case h_1 => exact .refl a
  case h_2 =>
      exact ((forget_frames a _ a.cached a.epoch).trans (destroyServices_frames _ _)).trans
        (purgeContexts_frames _)

theorem clearContexts_frames (a : Analysis) : a.Frames a.clearContexts :=
  (forget_frames a a.registered ∅ a.epoch).trans (destroyContexts_frames _ _)

theorem destroyAll_frames (a : Analysis) : a.Frames a.destroyAll := by
  have released := (forget_frames a ∅ a.cached (a.epoch + 1)).trans
    (destroyServices_frames _ (a.registered.entries.map (·.2)))
  have f := released.trans (clearContexts_frames _)
  exact ⟨f.modules, f.defaultBoot,
    fun h => ⟨(f.reads h).disk, (f.reads h).dependencies.clear, (f.reads h).boot.clear⟩,
    f.classPaths, f.service⟩

/-! ## Services that show what plain scans find -/

/-- The entries that the boot classes of a module come from. -/
def bootEntries (a : Analysis) (m : ModuleId) : List Path :=
  match (a.module m).kind with
  | .platform => (a.module m).settings.boot
  | .plain => a.defaultBoot

structure Sees (d : Disk) (a : Analysis) (m : ModuleId) (x : Service) : Prop where
  dependencies : x.dependencies.classes = Scan.classesOf d (a.context x.context).classPaths.toList
  boot : (a.module m).generation ≤ x.generation → x.boot = Scan.classesOf d (a.bootEntries m)

theorem Sees.frames {x : Service} (h : a.Sees d m x) (f : a.Frames b) : b.Sees d m x := by
  have hb : b.bootEntries m = a.bootEntries m := by
    rw [bootEntries, bootEntries, f.module, f.defaultBoot]
  refine ⟨?_, ?_⟩
  · rw [f.classPaths]
    exact h.dependencies
  · rw [f.module, hb]
    exact h.boot

/-- All that was read is what plain scans of the entries in a pool find; the default boot entries are among
them. -/
structure Faithful (d : Disk) (pool std : List Path) (a : Analysis) : Prop where
  reads : a.Reads d pool
  defaultBoot : a.defaultBoot = std
  std_subset : std ⊆ pool
  compile : ∀ m, (a.module m).settings.compile ⊆ pool
  boot : ∀ m, (a.module m).settings.boot ⊆ pool
  classPaths : ∀ c, (a.context c).classPaths.toList ⊆ pool
  services : ∀ {s m}, (a.service s).module = some m → a.Sees d m (a.service s)

namespace Faithful

theorem bootEntries (f : a.Faithful d pool std) (m : ModuleId) : a.bootEntries m ⊆ pool := by
  unfold Analysis.bootEntries
  split
  · exact f.boot m
  · exact f.defaultBoot ▸ f.std_subset

theorem frames (f : a.Faithful d pool std) (h : a.Frames b) : b.Faithful d pool std where
  reads := h.reads f.reads
  defaultBoot := h.defaultBoot.trans f.defaultBoot
  std_subset := f.std_subset
  compile m := by rw [h.module]; exact f.compile m
  boot m := by rw [h.module]; exact f.boot m
  classPaths c := by rw [h.classPaths]; exact f.classPaths c
  services := by
    intro s m hm
    have hx := h.service s
    rw [hx] at hm ⊢
    obtain ⟨hdep, hboot⟩ := (f.services (show (a.service s).module = some m from hm)).frames h
    exact ⟨hdep, hboot⟩

theorem addContext (f : a.Faithful d pool std) (h : a.Sound rs) {x : FileContext}
    (hx : x.classPaths.toList ⊆ pool) : (a.addContext m x).Faithful d pool std where
  reads := ⟨f.reads.disk, f.reads.dependencies, f.reads.boot⟩
  defaultBoot := f.defaultBoot
  std_subset := f.std_subset
  compile := f.compile
  boot := f.boot
  classPaths c := by
    by_cases hc : c = a.contexts.size
    · rw [hc, context_addContext_self]
      exact hx
    · rw [context_addContext_of_ne hc]
      exact f.classPaths c
  services := by
    intro s m hm
    obtain ⟨hdep, hboot⟩ := f.services hm
    have hc : (a.service s).context ≠ a.contexts.size := Nat.ne_of_lt (h.context_lt s)
    exact ⟨by rw [← context_addContext_of_ne hc] at hdep; exact hdep, hboot⟩

theorem addService (f : a.Faithful d pool std) {x : Service} (hx : ∀ k, x.module = some k → a.Sees d k x) :
    (a.addService m x).Faithful d pool std where
  reads := ⟨f.reads.disk, f.reads.dependencies, f.reads.boot⟩
  defaultBoot := f.defaultBoot
  std_subset := f.std_subset
  compile := f.compile
  boot := f.boot
  classPaths := f.classPaths
  services := by
    intro s k hk
    by_cases hs : s = a.services.size
    · rw [hs, service_addService_self] at hk ⊢
      obtain ⟨hdep, hboot⟩ := hx k hk
      exact ⟨hdep, hboot⟩
    · rw [service_addService_of_ne hs] at hk ⊢
      obtain ⟨hdep, hboot⟩ := f.services hk
      exact ⟨hdep, hboot⟩

theorem keepContext (f : a.Faithful d pool std) (h : a.Sound rs) {x : FileContext}
    (hx : x.classPaths.toList ⊆ pool) : (a.keepContext m x).2.Faithful d pool std := by
  cases hc : a.currentContext? m with
  | some c =>
      have he : a.keepContext m x = (c, a) := by simp only [Analysis.keepContext, hc]
      rw [he]
      exact f
  | none =>
      have hsound : (a.destroyContexts (a.cached.get? m).toList).Sound rs := by
        refine ((release_contexts h _ ?_).evolves h).sound
        intro c hmem hd
        have hm := Option.mem_toList.mp hmem
        exact Or.inl (stale_of_not_isCurrent h (h.cached hm) hd (not_isCurrent_of_currentContext? hc hm))
      rw [keepContext_of_none h.cached x hc]
      exact (f.frames (destroyContexts_frames a _)).addContext hsound hx

theorem register (f : a.Faithful d pool std) (h : a.Sound rs) {x : Service}
    (hx : ∀ k, x.module = some k → a.Sees d k x) : (a.register m x).2.Faithful d pool std := by
  cases hs : a.liveService? m with
  | some s =>
      have he : a.register m x = (s, a) := by simp only [Analysis.register, hs]
      rw [he]
      exact f
  | none =>
      have hframes := destroyServices_frames a (a.outgoing m)
      rw [register_of_none h.registered x hs]
      apply (f.frames hframes).addService
      intro k hk
      exact (hx k hk).frames hframes

theorem scans (f : a.Faithful d pool std) (h : a.Scans b) (reads : b.Reads d pool) : b.Faithful d pool std := by
  obtain ⟨_, _, _, _, rfl⟩ := h
  exact ⟨reads, f.defaultBoot, f.std_subset, f.compile, f.boot, f.classPaths,
    fun hm => ⟨(f.services hm).dependencies, (f.services hm).boot⟩⟩

end Faithful

/-! ## Gets on their way -/

end Analysis

/-- What the building of a service has read so far. -/
def Stage.Sees (d : Disk) (a : Analysis) (m : ModuleId) (q : Question) : Stage → Prop
  | .context _ => True
  | .boot c dependencies => q = .boot m ∧ (a.module m).kind = .platform ∧
      dependencies.classes = Scan.classesOf d (a.context c).classPaths.toList

def Analysis.Built.Sees (d : Disk) (a : Analysis) (m : ModuleId) : Analysis.Built → Prop
  | .service x => a.Sees d m x
  | .failed _ => True
  | .asks q stage => stage.Sees d a m q

namespace Analysis

theorem resumeContext_faithful (f : a.Faithful d pool std) (h : a.Sound rs) (one : Path.OneSpelling pool)
    (hg : (a.module m).generation ≤ since) {stage : ContextStage} {q : Question} {reply : Answer}
    (hst : stage.Holds a m since q (some reply)) : (a.resumeContext m stage reply).2.Faithful d pool std := by
  cases stage with
  | home => exact f
  | compile g =>
      cases reply with
      | error e => exact f
      | ok ps =>
          obtain ⟨-, hsg, -, hr⟩ := hst
          have hps : ps = (a.module m).settings.compile := hr (Nat.le_trans hg hsg) ps rfl
          rw [resumeContext]
          cases (a.module m).kind with
          | platform => exact f
          | plain =>
              apply f.keepContext h
              intro p hp
              have hp := PathSet.mem_of_mem_ofLast hp
              rw [hps] at hp
              exact f.compile m hp
  | boot g classPaths =>
      cases reply with
      | error e => exact f
      | ok ps =>
          obtain ⟨-, hsg, -, hr⟩ := hst
          obtain ⟨-, hc, hp⟩ := hr (Nat.le_trans hg hsg)
          have hps : (PathSet.ofLast ps).toList ⊆ pool := by
            intro p hmem
            have hmem := PathSet.mem_of_mem_ofLast hmem
            rw [hp ps rfl] at hmem
            exact f.boot m hmem
          have hscans := updateBoot_scans a (PathSet.ofLast ps).toList
          have f' := f.scans hscans (f.reads.updateBoot one hps)
          apply f'.keepContext (hscans.evolves h).sound
          intro p hmem
          rw [hc] at hmem
          exact f.compile m (PathSet.mem_of_mem_ofLast hmem)

theorem withContext_faithful (f : a.Faithful d pool std) (one : Path.OneSpelling pool) (m : ModuleId)
    (p : ContextProgress) :
    (a.withContext m p).2.Faithful d pool std ∧ (a.withContext m p).1.Sees d (a.withContext m p).2 m := by
  cases p with
  | failed e => exact ⟨f, trivial⟩
  | asks q stage => exact ⟨f, trivial⟩
  | found c =>
      have hscans := dependencyClasses_scans a (a.context c).classPaths.toList
      obtain ⟨hdep, hreads⟩ := f.reads.dependencyClasses one (f.classPaths c)
      have f' := f.scans hscans hreads
      simp only [withContext]
      generalize a.dependencyClasses (a.context c).classPaths.toList = r at hscans hdep f'
      obtain ⟨dependencies, b⟩ := r
      have hcontext : b.context c = a.context c := by
        obtain ⟨_, _, _, _, rfl⟩ := hscans
        rfl
      rw [← hcontext] at hdep
      cases hk : (b.module m).kind with
      | platform => exact ⟨f', rfl, hk, hdep⟩
      | plain =>
          have hscans' := moduleBootClasses_scans b none
          obtain ⟨hboot, hreads'⟩ := f'.reads.moduleBootClasses one none (f'.defaultBoot ▸ f'.std_subset)
          refine ⟨f'.scans hscans' hreads', ?_⟩
          have hentries : b.bootEntries m = b.defaultBoot := by simp only [bootEntries, hk]
          rw [Option.getD_none, ← hentries] at hboot
          simp only
          generalize b.moduleBootClasses none = r at hscans' hboot
          obtain ⟨boot, b'⟩ := r
          obtain ⟨_, _, _, _, rfl⟩ := hscans'
          exact ⟨hdep, fun _ => hboot⟩

theorem resumeBuild_faithful (f : a.Faithful d pool std) (h : a.Sound rs) (one : Path.OneSpelling pool)
    (hg : (a.module m).generation ≤ since) {stage : Stage} {q : Question} {epoch : Nat}
    (hst : stage.Holds rs a m since epoch q (some (a.answer q))) (hsees : stage.Sees d a m q) :
    (a.resumeBuild m stage (a.answer q)).2.Faithful d pool std ∧
      (a.resumeBuild m stage (a.answer q)).1.Sees d (a.resumeBuild m stage (a.answer q)).2 m := by
  cases stage with
  | context stage => exact withContext_faithful (resumeContext_faithful f h one hg hst) one m _
  | boot c dependencies =>
      obtain ⟨rfl, hk, hdep⟩ := hsees
      cases hr : a.answer (.boot m) with
      | error e => exact ⟨f, trivial⟩
      | ok ps =>
          have hps : ps = a.bootEntries m := by
            rw [bootEntries, hk]
            exact Module.eq_of_answer hr
          have hscans := moduleBootClasses_scans a (some ps)
          obtain ⟨hboot, hreads⟩ := f.reads.moduleBootClasses one (some ps) (hps ▸ f.bootEntries m)
          refine ⟨f.scans hscans hreads, ?_⟩
          rw [Option.getD_some, hps] at hboot
          rw [hps] at hscans ⊢
          simp only [resumeBuild]
          generalize a.moduleBootClasses (some (a.bootEntries m)) = r at hscans hboot
          obtain ⟨boot, b⟩ := r
          obtain ⟨_, _, _, _, rfl⟩ := hscans
          exact ⟨hdep, fun _ => hboot⟩

theorem settle_faithful (f : a.Faithful d pool std) (h : a.Sound rs) {x : Built} (hx : x.Sees d a m)
    (hnew : x.New m) (epoch : Nat) :
    (a.settle m x epoch).2.Faithful d pool std ∧
      ∀ {q p}, (a.settle m x epoch).1 = .asks q p → p.stage.Sees d (a.settle m x epoch).2 m q := by
  cases x with
  | service x =>
      refine ⟨f.register h ?_, nofun⟩
      intro k hk
      cases hnew.1.symm.trans hk
      exact hx
  | failed e => exact ⟨f.scans ⟨_, _, _, _, rfl⟩ ⟨f.reads.disk, f.reads.dependencies, f.reads.boot⟩, nofun⟩
  | asks q stage =>
      refine ⟨f, ?_⟩
      intro q' p hp
      cases hp
      exact hx

theorem begin_faithful (f : a.Faithful d pool std) (h : a.Sound rs) (one : Path.OneSpelling pool) (m : ModuleId) :
    (a.begin m).2.Faithful d pool std ∧
      ∀ {q p}, (a.begin m).1 = .asks q p → p.stage.Sees d (a.begin m).2 m q := by
  have counted (stats : Stats) : ({ a with stats }).Faithful d pool std :=
    f.scans ⟨_, _, _, _, rfl⟩ ⟨f.reads.disk, f.reads.dependencies, f.reads.boot⟩
  cases hl : a.liveService? m with
  | some s =>
      simp only [begin, hl]
      refine ⟨counted _, ?_⟩
      intro q p hq
      cases hq
  | none =>
      simp only [begin, hl]
      generalize (if a.registered.has m then _ else _ : Stats) = stats
      have e₁ : a.Evolves rs { a with stats } := Scans.evolves h ⟨_, _, _, _, rfl⟩
      have e₂ := e₁.trans (purge_evolves e₁.sound)
      have f₂ := (counted stats).frames (purge_frames _)
      generalize ({ a with stats }.purge.2) = b at e₂ f₂
      have hholds : (b.beginContext m).Holds b m 0 := beginContext_holds e₂.sound (Nat.zero_le _)
      have e₃ := (withContext_evolves e₂.sound hholds b.epoch).1
      obtain ⟨f₃, hsees⟩ := withContext_faithful f₂ one m (b.beginContext m)
      exact settle_faithful f₃ e₃.sound hsees (withContext_keeps b m (b.beginContext m)).2 _

/-- A get during which nothing else happens. -/
structure Underway (rs : List ServiceId) (d : Disk) (pool std : List Path) (m : ModuleId) (since : Nat)
    (r : Progress × Analysis) : Prop where
  sound : r.2.Sound rs
  faithful : r.2.Faithful d pool std
  generation_le : (r.2.module m).generation ≤ since
  holds : r.1.Holds rs r.2 m since
  sees : ∀ {q p}, r.1 = .asks q p → p.stage.Sees d r.2 m q

theorem begin_underway (f : a.Faithful d pool std) (h : a.Sound rs) (one : Path.OneSpelling pool)
    (hm : m < a.modules.size) : Underway rs d pool std m (a.module m).generation (a.begin m) := by
  obtain ⟨e, hholds⟩ := begin_evolves h hm (Nat.le_refl _)
  obtain ⟨f', hsees⟩ := begin_faithful f h one m
  refine ⟨e.sound, f', ?_, hholds, hsees⟩
  rw [module, modules_begin]
  exact Nat.le_refl _

theorem Underway.resume {q : Question} {p : Pending} (u : Underway rs d pool std m since (.asks q p, a))
    (one : Path.OneSpelling pool) : Underway rs d pool std m since (a.resume p (a.answer q)) := by
  have hp : p.Holds rs a m since q (some (a.answer q)) := Pending.Holds.answer u.holds
  obtain ⟨e, hholds⟩ := resume_evolves u.sound hp
  have hgeneration : ((a.resume p (a.answer q)).2.module m).generation ≤ since := by
    rw [module, modules_resume]
    exact u.generation_le
  have both : (a.resume p (a.answer q)).2.Faithful d pool std ∧
      ∀ {q' p'}, (a.resume p (a.answer q)).1 = .asks q' p' →
        p'.stage.Sees d (a.resume p (a.answer q)).2 m q' := by
    obtain ⟨rfl, hm, hs, -, hst⟩ := hp
    obtain ⟨e', -⟩ := resumeBuild_evolves u.sound hm hs hst
    obtain ⟨f', hsees⟩ := resumeBuild_faithful u.faithful u.sound one u.generation_le hst (u.sees rfl)
    have hnew := (resumeBuild_keeps a p.module p.stage (a.answer q)).2
    rw [Analysis.resume]
    generalize a.resumeBuild p.module p.stage (a.answer q) = r at e' f' hsees hnew
    obtain ⟨x, b⟩ := r
    cases x with
    | failed _ => exact settle_faithful f' e'.sound hsees hnew _
    | asks _ _ => exact settle_faithful f' e'.sound hsees hnew _
    | service x =>
        dsimp only
        split
        · exact settle_faithful f' e'.sound hsees hnew _
        · exact begin_faithful f' e'.sound one p.module
  exact ⟨e.sound, both.1, hgeneration, hholds, both.2⟩

theorem Underway.answerAll {r : Progress × Analysis} (u : Underway rs d pool std m since r)
    (one : Path.OneSpelling pool) (bound : Nat) : Underway rs d pool std m since (answerAll bound r) := by
  induction bound generalizing r with
  | zero => exact u
  | succ bound ih =>
      obtain ⟨progress, a⟩ := r
      cases progress with
      | found s => exact u
      | failed e => exact u
      | asks q p => exact ih (u.resume one)

theorem get_underway (f : a.Faithful d pool std) (h : a.Sound rs) (one : Path.OneSpelling pool)
    (hm : m < a.modules.size) : Underway rs d pool std m (a.module m).generation (a.get m) :=
  (begin_underway f h one hm).answerAll one 4

end Analysis

end ClassScope
