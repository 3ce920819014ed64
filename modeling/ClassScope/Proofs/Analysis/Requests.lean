import ClassScope.Proofs.Analysis.Runs
import ClassScope.Proofs.Analysis.Visibility

/-!
# Requests one after the other

Modules come, change and go, and services are asked for, refreshed and put away, one request after the other.
Whatever was asked before, a module's service shows the classes of the module's own entries.
-/

namespace ClassScope

/-- What may be asked of an analysis, or happen to its modules, while nothing else is going on. -/
inductive Request where
  | add (m : Module)
  | reconfigure (m : ModuleId) (settings : Settings)
  | detach (m : ModuleId)
  | hinder (m : ModuleId) (compile boot sources : Option ModuleError)
  | get (m : ModuleId)
  | refresh (s : ServiceId)
  | purge
  | size
  | destroyAll
  | destroy (s : ServiceId)

/-- The entries that are declared by a request. -/
def Request.paths : Request → List Path
  | .add m => m.settings.compile ++ m.settings.boot
  | .reconfigure _ settings => settings.compile ++ settings.boot
  | _ => []

namespace Analysis

/-- What a service's module answers about its boot entries: none where the default ones count. -/
def bootAnswer (a : Analysis) (s : ServiceId) : Except ModuleError (Option (List Path)) :=
  match (a.service s).module with
  | none => .ok none
  | some m =>
      match (a.module m).kind with
      | .platform => (a.module m).boot.map some
      | .plain => .ok none

/-- Requests for modules and services that are not there change nothing. A refresh for which the module does
not answer changes nothing either. -/
def perform (a : Analysis) : Request → Analysis
  | .add m => a.addModule m
  | .reconfigure m settings => a.reconfigure m settings
  | .detach m => a.detach m
  | .hinder m compile boot sources =>
      { a with modules := a.modules.modify m (Module.hinder compile boot sources) }
  | .get m => if m < a.modules.size then (a.get m).2 else a
  | .refresh s =>
      match a.bootAnswer s with
      | .ok declared => if s < a.services.size then a.refresh s declared else a
      | .error _ => a
  | .purge => a.purge.2
  | .size => a.size.2
  | .destroyAll => a.destroyAll
  | .destroy s => if s < a.services.size then a.destroyService s else a

def performAll (a : Analysis) (rs : List Request) : Analysis :=
  rs.foldl perform a

end Analysis

variable {rs : List ServiceId} {a b : Analysis} {d : Disk} {pool std : List Path} {m : ModuleId}

/-! ## A get ends -/

/-- How many questions may still follow one. -/
def Stage.rank : Stage → Nat
  | .context .home => 3
  | .context (.compile _) => 2
  | .context (.boot _ _) => 1
  | .boot _ _ => 0

theorem Stage.rank_lt (stage : Stage) : stage.rank < 4 := by
  cases stage with
  | context stage => cases stage <;> simp [rank]
  | boot c dependencies => simp [rank]

namespace Analysis

theorem rank_withContext {p : ContextProgress} {q : Question} {stage : Stage}
    (h : (a.withContext m p).1 = .asks q stage) :
    (∃ s, p = .asks q s ∧ stage = .context s) ∨ stage.rank = 0 := by
  cases p with
  | failed e => cases h
  | asks q' s =>
      cases h
      exact Or.inl ⟨s, rfl, rfl⟩
  | found c =>
      simp only [withContext] at h
      split at h
      · cases h
        exact Or.inr rfl
      · cases h

theorem rank_resumeBuild {stage stage' : Stage} {reply : Answer} {q : Question}
    (h : (a.resumeBuild m stage reply).1 = .asks q stage') : stage'.rank < stage.rank := by
  cases stage with
  | boot c dependencies =>
      cases reply with
      | error e => cases h
      | ok ps => cases h
  | context stage =>
      have hpos : 0 < (Stage.context stage).rank := by cases stage <;> simp [Stage.rank]
      rcases rank_withContext h with ⟨s, hs, rfl⟩ | hzero
      · cases stage with
        | home =>
            cases hs
            simp [Stage.rank]
        | compile g =>
            cases reply with
            | error e => cases hs
            | ok ps =>
                simp only at hs
                split at hs
                · cases hs
                  simp [Stage.rank]
                · cases hs
        | boot g classPaths =>
            cases reply with
            | error e => cases hs
            | ok ps => cases hs
      · rw [hzero]
        exact hpos

/-- While nothing is torn down, a get comes nearer to its end with each answer. -/
theorem rank_resume {p p' : Pending} {q : Question} {reply : Answer} (he : p.epoch = a.epoch)
    (h : (a.resume p reply).1 = .asks q p') :
    p'.epoch = (a.resume p reply).2.epoch ∧ p'.stage.rank < p.stage.rank := by
  have hk := (resumeBuild_keeps a p.module p.stage reply).1
  have hrank {q : Question} {stage : Stage} (h : (a.resumeBuild p.module p.stage reply).1 = .asks q stage) :=
    rank_resumeBuild h
  rw [resume] at h ⊢
  generalize a.resumeBuild p.module p.stage reply = r at h hk hrank ⊢
  obtain ⟨x, b⟩ := r
  have hepoch : b.epoch = p.epoch := hk.epoch.trans he.symm
  cases x with
  | failed e => cases h
  | asks q' stage =>
      cases h
      exact ⟨hepoch.symm, hrank rfl⟩
  | service x =>
      simp only [if_pos hepoch] at h
      cases h

theorem answerAll_ends {bound : Nat} {r : Progress × Analysis}
    (hr : ∀ q p, r.1 = .asks q p → p.epoch = r.2.epoch ∧ p.stage.rank < bound) (q : Question) (p : Pending) :
    (answerAll bound r).1 ≠ .asks q p := by
  induction bound generalizing r with
  | zero =>
      intro h
      exact Nat.not_lt_zero _ (hr q p h).2
  | succ bound ih =>
      obtain ⟨progress, a⟩ := r
      cases progress with
      | found s => exact nofun
      | failed e => exact nofun
      | asks q' p' =>
          obtain ⟨he, hlt⟩ := hr q' p' rfl
          apply ih
          intro q'' p'' h
          obtain ⟨he', hlt'⟩ := rank_resume he h
          exact ⟨he', by omega⟩

theorem get_ends (h : a.Sound rs) (m : ModuleId) (q : Question) (p : Pending) : (a.get m).1 ≠ .asks q p := by
  apply answerAll_ends
  intro q p hasks
  refine ⟨?_, p.stage.rank_lt⟩
  rcases begin_cases h m with ⟨s, hf, -⟩ | ⟨-, hepoch⟩
  · cases hf.symm.trans hasks
  · rw [epoch_begin h, hepoch hasks]

/-! ## One request -/

theorem Faithful.modules (f : a.Faithful d pool std) (h : a.Sound rs) {ms : Row Module}
    (g : a.modules.Grows Module.Later ms)
    (hms : ∀ m, (ms.get m).settings.compile ⊆ pool ∧ (ms.get m).settings.boot ⊆ pool) :
    ({ a with modules := ms }).Faithful d pool std where
  reads := ⟨f.reads.disk, f.reads.dependencies, f.reads.boot⟩
  defaultBoot := f.defaultBoot
  std_subset := f.std_subset
  compile m := (hms m).1
  boot m := (hms m).2
  classPaths := f.classPaths
  services := by
    intro s m hm
    obtain ⟨hdep, hboot⟩ := f.services hm
    refine ⟨hdep, fun hg => ?_⟩
    have hc := h.context_module hm
    have hlater : (a.module m).Later (ms.get m) := g.rel (h.module_lt hc)
    have hle := h.generation_le hc
    rw [h.context_generation hm] at hle
    -- The service is of the present generation, so the module declares what it did.
    have hsame : (ms.get m).settings = (a.module m).settings := hlater.settings_eq (Nat.le_trans hg hle)
    have hentries : ({ a with modules := ms }).bootEntries m = a.bootEntries m := by
      simp only [Analysis.bootEntries, Analysis.module, Module.kind] at hsame ⊢
      rw [hsame]
    rw [hentries]
    exact hboot (Nat.le_trans hlater.generation_le hg)

theorem Faithful.modify (f : a.Faithful d pool std) (h : a.Sound rs) (m : ModuleId) {g : Module → Module}
    (later : ∀ k : Module, k.Later (g k))
    (within : ∀ k : Module, k.settings.compile ⊆ pool ∧ k.settings.boot ⊆ pool →
      (g k).settings.compile ⊆ pool ∧ (g k).settings.boot ⊆ pool) :
    ({ a with modules := a.modules.modify m g }).Faithful d pool std := by
  apply f.modules h (.modify Module.Later.refl _ _ later)
  intro i
  rcases Nat.lt_or_ge i a.modules.size with hi | hi
  · rw [Row.get_modify hi]
    split
    · exact within _ ⟨f.compile i, f.boot i⟩
    · exact ⟨f.compile i, f.boot i⟩
  · rw [Row.get_of_size_le (by rw [Row.size_modify]; exact hi)]
    exact ⟨List.nil_subset _, List.nil_subset _⟩

theorem Faithful.reread (f : a.Faithful d pool std) {s : ServiceId} {boot : ClassNameSet}
    (hboot : ∀ m, (a.service s).module = some m → boot = Scan.classesOf d (a.bootEntries m)) :
    ({ a with services := a.services.modify s fun x => { x with boot } }).Faithful d pool std where
  reads := ⟨f.reads.disk, f.reads.dependencies, f.reads.boot⟩
  defaultBoot := f.defaultBoot
  std_subset := f.std_subset
  compile := f.compile
  boot := f.boot
  classPaths := f.classPaths
  services := by
    intro t m hm
    have ht := lt_of_service hm
    have hlt : t < a.services.size := by
      rw [Row.size_modify] at ht
      exact ht
    have he : ({ a with services := a.services.modify s fun x => { x with boot } }).service t =
        if s = t then { a.service t with boot } else a.service t := Row.get_modify hlt
    rw [he] at hm ⊢
    by_cases hs : s = t
    · subst hs
      rw [if_pos rfl] at hm ⊢
      obtain ⟨hdep, -⟩ := f.services (show (a.service s).module = some m from hm)
      exact ⟨hdep, fun _ => hboot m hm⟩
    · rw [if_neg hs] at hm ⊢
      obtain ⟨hdep, hboot⟩ := f.services hm
      exact ⟨hdep, hboot⟩

theorem getD_of_bootAnswer {s : ServiceId} {declared : Option (List Path)} (hm : (a.service s).module = some m)
    (h : a.bootAnswer s = .ok declared) : declared.getD a.defaultBoot = a.bootEntries m := by
  simp only [bootAnswer, hm] at h
  rw [bootEntries]
  cases hk : (a.module m).kind with
  | plain =>
      rw [hk] at h
      cases h
      rfl
  | platform =>
      rw [hk] at h
      cases hb : (a.module m).boot with
      | error e =>
          rw [hb] at h
          cases h
      | ok ps =>
          rw [hb] at h
          cases h
          exact Module.eq_of_answer hb

theorem Faithful.refresh (f : a.Faithful d pool std) (one : Path.OneSpelling pool) {s : ServiceId}
    {declared : Option (List Path)} (h : a.bootAnswer s = .ok declared) :
    (a.refresh s declared).Faithful d pool std := by
  rw [Analysis.refresh]
  cases hm : (a.service s).module with
  | none =>
      apply f.reread
      intro m hm'
      cases hm.symm.trans hm'
  | some m =>
      have hentries := getD_of_bootAnswer hm h
      have hscans := moduleBootClasses_scans a declared
      obtain ⟨hboot, hreads⟩ := f.reads.moduleBootClasses one declared (hentries ▸ f.bootEntries m)
      have f' := f.scans hscans hreads
      rw [hentries] at hboot
      simp only
      generalize a.moduleBootClasses declared = r at hscans hboot f'
      obtain ⟨boot, b⟩ := r
      apply f'.reread
      obtain ⟨_, _, _, _, rfl⟩ := hscans
      intro k hk
      cases hm.symm.trans hk
      exact hboot

theorem perform_faithful (h : a.Sound rs) (f : a.Faithful d pool std) (one : Path.OneSpelling pool)
    {r : Request} (hr : r.paths ⊆ pool) :
    ∃ rs', (a.perform r).Sound rs' ∧ (a.perform r).Faithful d pool std := by
  have modules {ms : Row Module} (g : a.modules.Grows Module.Later ms)
      (f' : ({ a with modules := ms }).Faithful d pool std) :
      ∃ rs', ({ a with modules := ms }).Sound rs' ∧ ({ a with modules := ms }).Faithful d pool std :=
    ⟨rs, (evolves_modules h g).sound, f'⟩
  cases r with
  | add m =>
      have g : a.modules.Grows Module.Later (a.modules.push m) := .push Module.Later.refl _ _
      refine modules g (f.modules h g fun i => ?_)
      by_cases hi : i = a.modules.size
      · rw [hi, Row.get_push_self]
        exact ⟨fun p hp => hr (List.mem_append_left _ hp), fun p hp => hr (List.mem_append_right _ hp)⟩
      · rw [Row.get_push_of_ne hi]
        exact ⟨f.compile i, f.boot i⟩
  | reconfigure m settings =>
      refine modules (.modify Module.Later.refl _ _ (.reconfigure settings))
        (f.modify h m (.reconfigure settings) fun _ _ => ?_)
      exact ⟨fun p hp => hr (List.mem_append_left _ hp), fun p hp => hr (List.mem_append_right _ hp)⟩
  | detach m =>
      exact modules (.modify Module.Later.refl _ _ .detach) (f.modify h m .detach fun _ => id)
  | hinder m c b s =>
      have later (k : Module) : k.Later (k.hinder c b s) := ⟨Nat.le_refl _, fun _ => rfl, id⟩
      exact modules (.modify Module.Later.refl _ _ later) (f.modify h m later fun _ => id)
  | get m =>
      rw [perform]
      split
      case isTrue hm =>
          have u := get_underway f h one hm
          exact ⟨rs, u.sound, u.faithful⟩
      case isFalse => exact ⟨rs, h, f⟩
  | refresh s =>
      rw [perform]
      split
      case h_1 declared hs =>
          split
          · exact ⟨rs, (refresh_evolves h s declared).sound, f.refresh one hs⟩
          · exact ⟨rs, h, f⟩
      case h_2 => exact ⟨rs, h, f⟩
  | purge => exact ⟨rs, (purge_evolves h).sound, f.frames (purge_frames a)⟩
  | size => exact ⟨rs, (purge_evolves h).sound, f.frames (purge_frames a)⟩
  | destroyAll => exact ⟨rs, (destroyAll_evolves h).sound, f.frames (destroyAll_frames a)⟩
  | destroy s =>
      rw [perform]
      split
      case isTrue hs => exact ⟨s :: rs, (destroyService_evolves h hs).sound, f.frames (destroyService_frames a s)⟩
      case isFalse => exact ⟨rs, h, f⟩

theorem performAll_faithful (h : a.Sound rs) (f : a.Faithful d pool std) (one : Path.OneSpelling pool)
    {requests : List Request} (hr : requests.flatMap Request.paths ⊆ pool) :
    ∃ rs', (a.performAll requests).Sound rs' ∧ (a.performAll requests).Faithful d pool std := by
  induction requests generalizing a rs with
  | nil => exact ⟨rs, h, f⟩
  | cons r requests ih =>
      rw [List.flatMap_cons] at hr
      obtain ⟨rs', h', f'⟩ := perform_faithful h f one (fun p hp => hr (List.mem_append_left _ hp))
      exact ih h' f' fun p hp => hr (List.mem_append_right _ hp)

theorem ofConfig_faithful (c : Config) (env : Environment) (d : Disk) (hc : c.index.enabled = false)
    (hpool : c.defaultBoot ⊆ pool) : (ofConfig c env d).Faithful d pool c.defaultBoot := by
  have hindex : c.indexDir? env = none := by simp [Config.indexDir?, hc]
  have module (m : ModuleId) : (ofConfig c env d).module m = default := Row.get_of_size_le (Nat.zero_le m)
  exact {
    reads := ⟨rfl, ⟨hindex, fun _ hk => nomatch hk⟩, ⟨hindex, fun _ hk => nomatch hk⟩⟩
    defaultBoot := rfl
    std_subset := hpool
    compile := fun m => by rw [module]; exact List.nil_subset _
    boot := fun m => by rw [module]; exact List.nil_subset _
    classPaths := by
      intro i
      cases i with
      | zero => exact List.nil_subset _
      | succ i => exact List.nil_subset _
    services := by
      intro s m hm
      cases s with
      | zero => cases hm
      | succ s => cases hm }

theorem modules_answerAll (bound : Nat) (r : Progress × Analysis) :
    (answerAll bound r).2.modules = r.2.modules := by
  induction bound generalizing r with
  | zero => rfl
  | succ bound ih =>
      obtain ⟨progress, a⟩ := r
      cases progress with
      | found s => rfl
      | failed e => rfl
      | asks q p => exact (ih _).trans (modules_resume a p (a.answer q))

/-- A service that is of its module's present generation shows what the module declares. -/
theorem Faithful.shows (f : a.Faithful d pool std) (h : a.Sound rs) (one : Path.OneSpelling pool) {s : ServiceId}
    (hm : (a.service s).module = some m) (hg : (a.module m).generation ≤ (a.service s).generation) :
    (a.service s).dependencies.classes = Scan.classesOf d (a.module m).settings.compile ∧
      (a.service s).boot = Scan.classesOf d (a.bootEntries m) := by
  obtain ⟨hdep, hboot⟩ := f.services hm
  have hc := h.context_module hm
  rw [← h.context_generation hm] at hg
  have hpaths := (h.shows hc hg).classPaths
  rw [h.context_generation hm] at hg
  rw [hpaths] at hdep
  have same : Scan.classesOf d (PathSet.ofLast (a.module m).settings.compile).toList =
      Scan.classesOf d (a.module m).settings.compile :=
    Scan.classesOf_congr fun p => PathSet.mem_ofLast one (f.compile m)
  exact ⟨hdep.trans same, hboot hg⟩

theorem Faithful.get_sees (f : a.Faithful d pool std) (h : a.Sound rs) (one : Path.OneSpelling pool)
    (hm : m < a.modules.size) {s : ServiceId} (hs : (a.get m).1 = .found s) :
    ((a.get m).2.service s).dependencies.classes = Scan.classesOf d (a.module m).settings.compile ∧
      ((a.get m).2.service s).boot = Scan.classesOf d (a.bootEntries m) := by
  have u := get_underway f h one hm
  have served : (a.get m).2.IsServed m (a.module m).generation s := by
    have hholds := u.holds
    rw [hs] at hholds
    exact hholds
  have same : (a.get m).2.module m = a.module m := by
    rw [module, get, modules_answerAll, modules_begin, module]
  have entries : (a.get m).2.bootEntries m = a.bootEntries m := by
    rw [Analysis.bootEntries, Analysis.bootEntries, same, u.faithful.defaultBoot, f.defaultBoot]
  have shown := u.faithful.shows u.sound one served.module (same ▸ served.since_le)
  rw [same, entries] at shown
  exact shown

/-- A get ends, and if it ends in a service, that one shows what plain scans find in the entries that its
module declares at that moment, whatever was asked for other modules before. -/
theorem get_sees_own_entries (c : Config) (env : Environment) (d : Disk) (requests : List Request)
    (hc : c.index.enabled = false)
    (one : Path.OneSpelling (c.defaultBoot ++ requests.flatMap Request.paths)) :
    let a := (ofConfig c env d).performAll requests
    ∀ m < a.modules.size,
      (∀ q p, (a.get m).1 ≠ .asks q p) ∧
      ∀ s, (a.get m).1 = .found s →
        ((a.get m).2.service s).dependencies.classes = Scan.classesOf d (a.module m).settings.compile ∧
        ((a.get m).2.service s).boot = Scan.classesOf d (match (a.module m).kind with
          | .platform => (a.module m).settings.boot
          | .plain => c.defaultBoot) := by
  intro a m hm
  have start : (ofConfig c env d).Faithful d (c.defaultBoot ++ requests.flatMap Request.paths) c.defaultBoot :=
    ofConfig_faithful c env d hc (List.subset_append_left _ _)
  obtain ⟨rs, h, f⟩ := performAll_faithful (Session.ofConfig_sound c env d).analysis start one
    (List.subset_append_right _ _)
  refine ⟨get_ends h m, ?_⟩
  intro s hs
  have sees := f.get_sees h one hm hs
  rw [bootEntries, f.defaultBoot] at sees
  exact sees

def library : Path :=
  ⟨Utf8.encode "a"⟩

def platform : Path :=
  ⟨Utf8.encode "b"⟩

def installed : Disk :=
  { Disk.empty 0 with entries := [([[0]], .dir 0),
    ([[0], library.bytes], .dir 0), ([[0], library.bytes, Utf8.encode "A.class"], .file [] 0 false),
    ([[0], platform.bytes], .dir 0), ([[0], platform.bytes, Utf8.encode "B.class"], .file [] 0 false)] }

/-- A platform module and a plain one, of which the former is asked for first, refreshed and configured anew. -/
def shared : List Request :=
  [.add { name := "core", path := ⟨[]⟩, settings := { kind := .platform, compile := [library], boot := [platform] } },
    .add { name := "app", path := ⟨[]⟩, settings := { compile := [library] } },
    .get 0, .refresh 1, .reconfigure 0 { compile := [platform] }, .get 0, .detach 0]

theorem get_sees_own_entries_of_shared :
    let a := (ofConfig {} {} installed).performAll shared
    ∃ s, (a.get 1).1 = .found s ∧ "A" ∈ ((a.get 1).2.service s).dependencies.classes ∧
      ((a.get 1).2.service s).boot = ∅ := by
  intro a
  have one : Path.OneSpelling (([] : List Path) ++ shared.flatMap Request.paths) := by decide +kernel
  obtain ⟨-, sees⟩ := get_sees_own_entries {} {} installed shared rfl one 1 (by decide +kernel)
  have found : (a.get 1).1 = .found 3 := by decide +kernel
  obtain ⟨hdep, hboot⟩ := sees 3 found
  have declared : (a.module 1).settings.compile = [library] := by decide +kernel
  have kind : (a.module 1).kind = .plain := by decide +kernel
  rw [kind] at hboot
  refine ⟨3, found, ?_, hboot⟩
  rw [hdep, declared]
  decide +kernel

end Analysis

end ClassScope
