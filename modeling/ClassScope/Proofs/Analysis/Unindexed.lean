import ClassScope.Proofs.Analysis.Requests
import ClassScope.Proofs.Analysis.Serving

/-!
# Gets without an index

Scans that keep no index leave the disk as it is. Where all modules answer what they are asked, a get during
which nothing else happens ends in a service of its module.
-/

namespace ClassScope

variable {a b : Analysis} {d : Disk} {m : ModuleId} {rs : List ServiceId}

/-! ## Scans without an index -/

theorem BootIndex.classes_none {x : BootIndex} (h : x.index = none) (paths : List Path) (d : Disk) :
    (x.classes paths d).1.2.index = none ∧ (x.classes paths d).2 = d := by
  have he : x.classes paths d = (((x.refresh paths d).1.unionOf paths, (x.refresh paths d).1),
      (x.refresh paths d).2) := rfl
  rw [he, refresh_none h]
  exact ⟨h, rfl⟩

theorem BootIndex.update_none {x : BootIndex} (h : x.index = none) (paths : List Path) (d : Disk) :
    (x.update paths d).1.index = none ∧ (x.update paths d).2 = d := by
  have he : x.update paths d = ({ (x.refresh paths d).1 with current := paths }, (x.refresh paths d).2) := rfl
  rw [he, refresh_none h]
  exact ⟨h, rfl⟩

theorem Dependencies.classes_none {x : Dependencies} (h : x.index = none) (paths : List Path) (d : Disk) :
    (x.classes paths d).1.2.index = none ∧ (x.classes paths d).2 = d := by
  cases hk : x.known.get? (PathSet.ofFirst paths).key with
  | some s =>
      have he : x.classes paths d = ((s, x), d) := by
        simp only [Dependencies.classes, hk]
        rfl
      rw [he]
      exact ⟨h, rfl⟩
  | none =>
      have he : (x.classes paths d).2 = (Scan.all none (PathSet.ofFirst paths).toList d).2 ∧
          (x.classes paths d).1.2.index = x.index := by
        simp only [Dependencies.classes, hk, h]
        exact ⟨rfl, rfl⟩
      rw [he.1, he.2, Scan.all_none]
      exact ⟨h, rfl⟩

namespace Analysis

/-- No scan uses an index, on such a disk. -/
structure Unindexed (d : Disk) (a : Analysis) : Prop where
  disk : a.disk = d
  boot : a.boot.index = none
  dependencies : a.dependencies.index = none

namespace Unindexed

theorem of_eq (h : a.Unindexed d) (disk : b.disk = a.disk) (boot : b.boot = a.boot)
    (dependencies : b.dependencies = a.dependencies) : b.Unindexed d :=
  ⟨disk.trans h.disk, boot ▸ h.boot, dependencies ▸ h.dependencies⟩

theorem bootClasses (h : a.Unindexed d) (paths : List Path) : (a.bootClasses paths).2.Unindexed d := by
  obtain ⟨hindex, hdisk⟩ := BootIndex.classes_none h.boot paths a.disk
  exact ⟨hdisk.trans h.disk, hindex, h.dependencies⟩

theorem updateBoot (h : a.Unindexed d) (paths : List Path) : (a.updateBoot paths).Unindexed d := by
  obtain ⟨hindex, hdisk⟩ := BootIndex.update_none h.boot paths a.disk
  exact ⟨hdisk.trans h.disk, hindex, h.dependencies⟩

theorem moduleBootClasses (h : a.Unindexed d) (declared : Option (List Path)) :
    (a.moduleBootClasses declared).2.Unindexed d := by
  cases declared with
  | none => exact h.bootClasses _
  | some paths => exact (h.updateBoot _).bootClasses _

theorem dependencyClasses (h : a.Unindexed d) (paths : List Path) :
    (a.dependencyClasses paths).2.Unindexed d := by
  obtain ⟨hindex, hdisk⟩ := Dependencies.classes_none h.dependencies paths a.disk
  exact ⟨hdisk.trans h.disk, h.boot, hindex⟩

theorem localClasses (h : a.Unindexed d) (sources : ClassNameSet) (outputs : List Path) :
    (a.localClasses sources outputs).2.Unindexed d := by
  unfold Analysis.localClasses
  split
  · exact h
  · rw [h.dependencies, Scan.all_none]
    exact ⟨h.disk, h.boot, h.dependencies⟩

theorem types (h : a.Unindexed d) (s : ServiceId) (sources : Except ModuleError ClassNameSet) :
    (a.types s sources).2.Unindexed d := by
  unfold Analysis.types
  dsimp only
  split
  · exact h.localClasses _ _
  · exact h

/-! ## Gets -/

theorem destroyServices (h : a.Unindexed d) (ss : List ServiceId) : (a.destroyServices ss).Unindexed d := by
  rw [destroyServices_eq]
  exact h.of_eq rfl rfl rfl

theorem purgeContexts (h : a.Unindexed d) : a.purgeContexts.2.Unindexed d := by
  rw [purgeContexts_eq]
  exact h.of_eq rfl rfl rfl

theorem purge (h : a.Unindexed d) : a.purge.2.Unindexed d := by
  unfold Analysis.purge
  split
  · exact h
  · have kept : Unindexed d { a with registered := a.registered.filter fun _ s => a.IsLive s } :=
      h.of_eq rfl rfl rfl
    exact (kept.destroyServices _).purgeContexts

theorem keepContext (h : a.Unindexed d) (m : ModuleId) (x : FileContext) :
    (a.keepContext m x).2.Unindexed d := by
  unfold Analysis.keepContext
  split
  · exact h
  · dsimp only
    rw [destroyContexts_eq]
    exact h.of_eq rfl rfl rfl

theorem register (h : a.Unindexed d) (m : ModuleId) (x : Service) : (a.register m x).2.Unindexed d := by
  unfold Analysis.register
  split
  · exact h
  · dsimp only
    split
    · exact (h.of_eq rfl rfl rfl : Unindexed d (a.addService m x)).destroyServices _
    · exact h.of_eq rfl rfl rfl

theorem resumeContext (h : a.Unindexed d) (m : ModuleId) (stage : ContextStage) (reply : Answer) :
    (a.resumeContext m stage reply).2.Unindexed d := by
  unfold Analysis.resumeContext
  split
  case h_3 =>
      dsimp only
      split
      · exact h
      · exact h.keepContext m _
  case h_5 => exact (h.updateBoot _).keepContext m _
  all_goals exact h

theorem withContext (h : a.Unindexed d) (m : ModuleId) (p : ContextProgress) :
    (a.withContext m p).2.Unindexed d := by
  cases p with
  | failed e => exact h
  | asks q stage => exact h
  | found c =>
      have h' := h.dependencyClasses (a.context c).classPaths.toList
      simp only [Analysis.withContext]
      split
      · exact h'
      · exact h'.moduleBootClasses none

theorem resumeBuild (h : a.Unindexed d) (m : ModuleId) (stage : Stage) (reply : Answer) :
    (a.resumeBuild m stage reply).2.Unindexed d := by
  unfold Analysis.resumeBuild
  split
  case h_1 => exact (h.resumeContext _ _ _).withContext _ _
  case h_2 => exact h
  case h_3 => exact h.moduleBootClasses _

theorem settle (h : a.Unindexed d) (m : ModuleId) (x : Built) (epoch : Nat) :
    (a.settle m x epoch).2.Unindexed d := by
  cases x with
  | service x => exact h.register m x
  | failed e => exact h.of_eq rfl rfl rfl
  | asks q stage => exact h

theorem begin (h : a.Unindexed d) (m : ModuleId) : (a.begin m).2.Unindexed d := by
  unfold Analysis.begin
  split
  · exact h.of_eq rfl rfl rfl
  · dsimp only
    generalize (if a.registered.has m then _ else _ : Stats) = stats
    have counted : Unindexed d { a with stats } := h.of_eq rfl rfl rfl
    exact (counted.purge.withContext _ _).settle _ _ _

theorem resume (h : a.Unindexed d) (p : Pending) (reply : Answer) : (a.resume p reply).2.Unindexed d := by
  have h' := h.resumeBuild p.module p.stage reply
  rw [Analysis.resume]
  generalize a.resumeBuild p.module p.stage reply = r at h'
  obtain ⟨x, b⟩ := r
  cases x with
  | failed e => exact h'.settle _ _ _
  | asks q stage => exact h'
  | service x =>
      dsimp only
      split
      · exact h'.settle _ _ _
      · exact h'.begin _

end Unindexed

/-! ## Modules that answer -/

theorem withContext_failed {p : ContextProgress} {e : QueryError} (h : (a.withContext m p).1 = .failed e) :
    p = .failed e := by
  cases p with
  | failed e' => cases h; rfl
  | asks q stage => cases h
  | found c =>
      simp only [withContext] at h
      split at h <;> cases h

theorem settle_failed {x : Built} {epoch : Nat} {e : QueryError} (h : (a.settle m x epoch).1 = .failed e) :
    x = .failed e := by
  cases x with
  | service x => cases h
  | failed e' => cases h; rfl
  | asks q stage => cases h

theorem resumeContext_unfailed (stage : ContextStage) (paths : List Path) (e : QueryError) :
    (a.resumeContext m stage (.ok paths)).1 ≠ .failed e := by
  cases stage with
  | home => intro h; cases h
  | boot generation classPaths => intro h; cases h
  | compile generation =>
      intro h
      simp only [resumeContext] at h
      split at h <;> cases h

theorem resumeBuild_unfailed (stage : Stage) (paths : List Path) (e : QueryError) :
    (a.resumeBuild m stage (.ok paths)).1 ≠ .failed e := by
  cases stage with
  | context stage => exact fun h => resumeContext_unfailed stage paths e (withContext_failed h)
  | boot c dependencies => intro h; cases h

theorem begin_unfailed (a : Analysis) (m : ModuleId) (e : QueryError) : (a.begin m).1 ≠ .failed e := by
  unfold begin
  split
  · intro h
    cases h
  · intro h
    have hbegin := withContext_failed (settle_failed h)
    unfold beginContext at hbegin
    split at hbegin <;> cases hbegin

theorem resume_unfailed (a : Analysis) (p : Pending) (paths : List Path) (e : QueryError) :
    (a.resume p (.ok paths)).1 ≠ .failed e := by
  have hbuild := resumeBuild_unfailed (a := a) (m := p.module) p.stage paths
  rw [resume]
  generalize a.resumeBuild p.module p.stage (.ok paths) = r at hbuild
  obtain ⟨x, b⟩ := r
  cases x with
  | failed e' => exact absurd rfl (hbuild e')
  | asks q stage => intro h; cases h
  | service x =>
      intro h
      dsimp only at h
      split at h
      · cases h
      · exact begin_unfailed b _ e h

/-- Whatever is asked is answered. -/
def Answers (a : Analysis) : Prop :=
  ∀ q, ∃ paths, a.answer q = .ok paths

theorem Answers.of_modules (h : a.Answers) (modules : b.modules = a.modules) : b.Answers := by
  intro q
  obtain ⟨paths, hq⟩ := h q
  refine ⟨paths, hq ▸ ?_⟩
  cases q with
  | home path => rfl
  | compile m => rw [answer, module, modules]; rfl
  | boot m => rw [answer, module, modules]; rfl

/-- A get for a module during which nothing else happens, while all modules answer and no scan uses an index. -/
structure Undisturbed (d : Disk) (modules : Row Module) (m : ModuleId) (r : Progress × Analysis) : Prop where
  unindexed : r.2.Unindexed d
  modules : r.2.modules = modules
  filed : r.2.Filed
  unfailed : ∀ e, r.1 ≠ .failed e
  found : ∀ {s}, r.1 = .found s → (r.2.service s).module = some m
  asks : ∀ {q p}, r.1 = .asks q p → p.module = m

theorem begin_undisturbed (h : a.Unindexed d) (filed : a.Filed) (m : ModuleId) :
    Undisturbed d a.modules m (a.begin m) where
  unindexed := h.begin m
  modules := modules_begin a m
  filed := (begin_returns a m).serves.filed filed
  unfailed := begin_unfailed a m
  found hs := (begin_returns a m).found hs filed
  asks := (begin_returns a m).asks

theorem Undisturbed.resume {modules : Row Module} {q : Question} {p : Pending} {paths : List Path}
    (u : Undisturbed d modules m (.asks q p, a)) (h : a.answer q = .ok paths) :
    Undisturbed d modules m (a.resume p (a.answer q)) := by
  have hr := resume_returns a p (a.answer q)
  rw [u.asks rfl] at hr
  exact {
    unindexed := Unindexed.resume u.unindexed p _
    modules := (modules_resume a p _).trans u.modules
    filed := hr.serves.filed u.filed
    unfailed := by rw [h]; exact resume_unfailed a p paths
    found := fun hs => hr.found hs u.filed
    asks := hr.asks }

theorem Undisturbed.answerAll {r : Progress × Analysis} {modules : Row Module} (u : Undisturbed d modules m r)
    (h : r.2.Answers) (bound : Nat) : Undisturbed d modules m (answerAll bound r) := by
  induction bound generalizing r with
  | zero => exact u
  | succ bound ih =>
      obtain ⟨progress, a⟩ := r
      cases progress with
      | found s => exact u
      | failed e => exact u
      | asks q p =>
          obtain ⟨paths, hq⟩ := h q
          exact ih (u.resume hq) (h.of_modules (modules_resume a p _))

/-- Where all modules answer and no scan uses an index, a get ends in a service of its module, and the disk is
as it was. -/
theorem get_found (h : a.Sound rs) (unindexed : a.Unindexed d) (filed : a.Filed) (answers : a.Answers)
    (m : ModuleId) :
    ∃ s b, a.get m = (.found s, b) ∧ b.Unindexed d ∧ b.modules = a.modules ∧ (b.service s).module = some m := by
  have u : Undisturbed d a.modules m (a.get m) :=
    (begin_undisturbed unindexed filed m).answerAll (answers.of_modules (modules_begin a m)) 4
  have ends := get_ends h m
  generalize a.get m = r at u ends
  obtain ⟨progress, b⟩ := r
  cases progress with
  | found s => exact ⟨s, b, rfl, u.unindexed, u.modules, u.found rfl⟩
  | failed e => exact absurd rfl (u.unfailed e)
  | asks q p => exact absurd rfl (ends q p)

end Analysis

end ClassScope
