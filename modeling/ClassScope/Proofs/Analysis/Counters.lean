import ClassScope.Proofs.Analysis.Attempts
import ClassScope.Proofs.Analysis.Teardown
import Mathlib.Algebra.GroupWithZero.Nat

/-!
# The counters of the registry

Each pass of a get begins with a look at the registry, and what it sees is counted once. A get makes a further
pass only for one that it abandons because of a teardown, so looks, gets and abandoned passes add up in every run.
-/

namespace ClassScope

/-! ## Totals over a row -/

namespace Row

variable {α : Type} {r : Row α} {i : Nat} {a : α}

def total (weight : α → Nat) (r : Row α) : Nat :=
  (r.items.map weight).sum

def count (p : α → Bool) (r : Row α) : Nat :=
  r.items.countP p

theorem count_eq_total (p : α → Bool) (r : Row α) : r.count p = r.total fun a => (p a).toNat := by
  obtain ⟨items⟩ := r
  simp only [count, total]
  induction items with
  | nil => rfl
  | cons a items ih =>
      rw [List.countP_cons, ih, List.map_cons, List.sum_cons, Nat.add_comm]
      cases p a <;> rfl

theorem total_push (weight : α → Nat) (r : Row α) (a : α) :
    (r.push a).total weight = r.total weight + weight a := by
  simp [total, push]

theorem count_push (p : α → Bool) (r : Row α) (a : α) : (r.push a).count p = r.count p + (p a).toNat := by
  rw [count_eq_total, count_eq_total, total_push]

theorem total_modify (weight : α → Nat) (h : r.get? i = some a) (f : α → α) :
    (r.modify i f).total weight + weight a = r.total weight + weight (f a) := by
  obtain ⟨items⟩ := r
  simp only [get?] at h
  simp only [total, modify]
  induction items generalizing i with
  | nil => cases h
  | cons b items ih =>
      cases i with
      | zero =>
          cases h
          simp only [List.modify_zero_cons, List.map_cons, List.sum_cons]
          omega
      | succ i =>
          have rest := ih (i := i) h
          simp only [List.modify_succ_cons, List.map_cons, List.sum_cons]
          omega

theorem count_modify (p : α → Bool) (h : r.get? i = some a) (f : α → α) :
    (r.modify i f).count p + (p a).toNat = r.count p + (p (f a)).toNat := by
  rw [count_eq_total, count_eq_total]
  exact total_modify _ h f

/-- Every value changed alike. -/
def map (f : α → α) (r : Row α) : Row α :=
  ⟨r.items.map f⟩

@[simp] theorem size_map (f : α → α) (r : Row α) : (r.map f).size = r.size :=
  List.length_map _

theorem get?_map (f : α → α) (r : Row α) (i : Nat) : (r.map f).get? i = (r.get? i).map f :=
  List.getElem?_map

theorem total_map {weight : α → Nat} {f : α → α} (h : ∀ a, weight (f a) = weight a) (r : Row α) :
    (r.map f).total weight = r.total weight := by
  simp only [total, map, List.map_map]
  exact congrArg List.sum (List.map_congr_left fun a _ => h a)

end Row

/-! ## Looks at the registry -/

/-- What a get sees of its module in the registry. -/
inductive Look where
  | live
  | stale
  | missing
  deriving DecidableEq

namespace Stats

def looks (s : Stats) : Nat :=
  s.hits + s.misses + s.staleRebuilds

/-- The counters after one more look. -/
def note (s : Stats) : Look → Stats
  | .live => { s with hits := s.hits + 1 }
  | .stale => { s with staleRebuilds := s.staleRebuilds + 1 }
  | .missing => { s with misses := s.misses + 1 }

variable (s : Stats) (look : Look)

theorem looks_note : (s.note look).looks = s.looks + 1 := by
  cases look <;> simp only [note, looks] <;> omega

theorem hits_note : (s.note look).hits = s.hits + (decide (look = .live)).toNat := by
  cases look <;> rfl

theorem failures_note : (s.note look).failures = s.failures := by
  cases look <;> rfl

end Stats

namespace Analysis

variable {rs : List ServiceId} {a b : Analysis} {m : ModuleId} {s : ServiceId} {q : Question} {p : Pending}
  {r : Progress × Analysis}

def look (a : Analysis) (m : ModuleId) : Look :=
  match a.registered.get? m with
  | some s => if a.IsLive s then .live else .stale
  | none => .missing

theorem look_of_live (h : a.liveService? m = some s) : a.look m = .live := by
  obtain ⟨registered, live⟩ := liveService?_eq_some h
  simp only [look, registered, if_pos live]

theorem look_of_none (h : a.liveService? m = none) :
    a.look m = if a.registered.has m then .stale else .missing := by
  cases hr : a.registered.get? m with
  | none => simp [look, Table.has, hr]
  | some s => simp [look, Table.has, hr, not_isLive_of_liveService? h hr]

/-- A get looks at the registry, counts what it sees, and ends or begins a pass with that. -/
structure Looks (m : ModuleId) (a : Analysis) (r : Progress × Analysis) : Prop where
  stats : r.2.stats = a.stats.note (a.look m)
  unfailed : ∀ e, r.1 ≠ .failed e
  asks : ∀ {q p}, r.1 = .asks q p → a.look m ≠ .live ∧ p.epoch = a.epoch

theorem stats_register (a : Analysis) (m : ModuleId) (x : Service) : (a.register m x).2.stats = a.stats := by
  unfold register
  split
  · rfl
  · dsimp only
    split
    · rw [destroyServices_eq]
    · rfl

theorem stats_settle (a : Analysis) (m : ModuleId) {built : Built} (unfailed : ∀ e, built ≠ .failed e)
    (epoch : Nat) : (a.settle m built epoch).2.stats = a.stats := by
  cases built with
  | service x => exact stats_register a m x
  | failed e => exact absurd rfl (unfailed e)
  | asks q stage => rfl

theorem stats_begin (h : a.Sound rs) (hl : a.liveService? m = none) :
    (a.begin m).2.stats = a.stats.note (a.look m) := by
  have noted : (if a.registered.has m then { a.stats with staleRebuilds := a.stats.staleRebuilds + 1 }
      else { a.stats with misses := a.stats.misses + 1 }) = a.stats.note (a.look m) := by
    rw [look_of_none hl]
    split <;> rfl
  have unfailed := begin_unfailed a m
  simp only [begin, hl] at unfailed ⊢
  rw [noted] at unfailed ⊢
  generalize a.stats.note (a.look m) = stats at unfailed ⊢
  have counted : Sound rs { a with stats } := (Scans.evolves h ⟨_, _, _, _, rfl⟩).sound
  have purged := purge_keeps counted
  generalize { a with stats }.purge.2 = b at unfailed purged ⊢
  have built := (withContext_keeps b m (b.beginContext m)).1
  generalize b.withContext m (b.beginContext m) = r at unfailed built ⊢
  have hbuilt (e : QueryError) : r.1 ≠ .failed e := by
    intro he
    apply unfailed e
    rw [he, settle]
  exact (stats_settle r.2 m hbuilt _).trans (built.stats.trans purged.stats)

theorem begin_looks (h : a.Sound rs) (m : ModuleId) : a.Looks m (a.begin m) := by
  cases hl : a.liveService? m with
  | some s =>
      have he : a.begin m = (.found s, { a with stats := { a.stats with hits := a.stats.hits + 1 } }) := by
        simp only [begin, hl]
      rw [he]
      refine ⟨by rw [look_of_live hl]; rfl, ?_, ?_⟩
      · intro e he
        cases he
      · intro q p hp
        cases hp
  | none =>
      refine ⟨stats_begin h hl, begin_unfailed a m, fun hr => ⟨?_, (begin_advances h hl).1.asks hr⟩⟩
      rw [look_of_none hl]
      split <;> simp

/-- What a get sees if its construction comes out with a service and it looks at the registry once more. -/
def relook? (a : Analysis) (m : ModuleId) (stage : Stage) (reply : Answer) : Option Look :=
  match (a.resumeBuild m stage reply).1 with
  | .service _ => some ((a.resumeBuild m stage reply).2.look m)
  | _ => none

/-- A construction fails or asks on, or it comes out with a service. With that the get ends, or it looks once more
if the epoch is another one by now. -/
inductive Resumes (m : ModuleId) (epoch : Nat) (a : Analysis) : Option Look → Progress × Analysis → Prop where
  | fails {e : QueryError} {b : Analysis} (stats : b.stats = { a.stats with failures := a.stats.failures + 1 }) :
      Resumes m epoch a none (.failed e, b)
  | asks {q : Question} {p : Pending} {b : Analysis} (same : p.epoch = epoch) (stats : b.stats = a.stats) :
      Resumes m epoch a none (.asks q p, b)
  | ends {look : Look} {s : ServiceId} {b : Analysis} (kept : epoch = a.epoch) (stats : b.stats = a.stats) :
      Resumes m epoch a (some look) (.found s, b)
  | again {b : Analysis} {r : Progress × Analysis} (torn : epoch ≠ a.epoch) (stats : b.stats = a.stats)
      (same : b.epoch = a.epoch) (looks : b.Looks m r) : Resumes m epoch a (some (b.look m)) r

theorem resume_resumes (h : a.Sound rs) {reply : Answer} (hp : p.Holds rs a m 0 q (some reply)) :
    a.Resumes m p.epoch (a.relook? m p.stage reply) (a.resume p reply) := by
  obtain ⟨rfl, hm, hs, -, hst⟩ := hp
  have sound := (resumeBuild_evolves h hm hs hst).1.sound
  have keeps := (resumeBuild_keeps a p.module p.stage reply).1
  rw [resume, relook?]
  generalize a.resumeBuild p.module p.stage reply = r at sound keeps ⊢
  obtain ⟨built, b⟩ := r
  cases built with
  | failed e =>
      have same : b.stats = a.stats := keeps.stats
      exact .fails (by rw [← same])
  | asks q stage => exact .asks rfl keeps.stats
  | service x =>
      dsimp only
      split
      case isTrue he =>
          exact .ends (he.symm.trans keeps.epoch) ((stats_register b p.module x).trans keeps.stats)
      case isFalse he =>
          exact .again (fun ha => he (keeps.epoch.trans ha.symm)) keeps.stats keeps.epoch (begin_looks sound _)

end Analysis

/-! ## Trails of gets -/

def Progress.hasFailed : Progress → Bool
  | .failed _ => true
  | _ => false

theorem Progress.hasFailed_eq_false {progress : Progress} (h : ∀ e, progress ≠ .failed e) :
    progress.hasFailed = false := by
  cases progress with
  | failed e => exact absurd rfl (h e)
  | found s => rfl
  | asks q p => rfl

/-- What the passes of a get have come to. -/
structure Trail where
  /-- What the last pass saw first. -/
  look : Look
  /-- Everything was torn down since that pass began. -/
  torn : Bool := false
  /-- How many passes were abandoned because of a teardown. -/
  abandoned : Nat := 0
  deriving DecidableEq

namespace Trail

def hit (t : Trail) : Bool :=
  t.look = .live

def tear (t : Trail) : Trail :=
  { t with torn := true }

/-- A get goes on. Once it has a service, it abandons a pass that something was torn down in, and the next one
sees what there is by then. -/
def resume (seen : Option Look) (t : Trail) : Trail :=
  match seen with
  | some look => if t.torn then { look, abandoned := t.abandoned + 1 } else t
  | none => t

/-- A get that waits found no live service, and its pass is torn if it began at another epoch. -/
def Follows (epoch : Nat) (t : Trail) : Progress → Prop
  | .asks _ p => t.look ≠ .live ∧ (t.torn = true ↔ p.epoch ≠ epoch)
  | _ => True

theorem follows_of_looks {m : ModuleId} {a : Analysis} {r : Progress × Analysis} {epoch : Nat} (h : a.Looks m r)
    (same : a.epoch = epoch) (abandoned : Nat) : Follows epoch { look := a.look m, abandoned } r.1 := by
  generalize hr : r.1 = progress
  cases progress with
  | found s => trivial
  | failed e => trivial
  | asks q p =>
      obtain ⟨unlive, began⟩ := h.asks hr
      exact ⟨unlive, by simp [began, same]⟩

/-- The counters go on as the trail of a get does. -/
structure Counts (t u : Trail) (a : Analysis) (r : Progress × Analysis) : Prop where
  follows : u.Follows a.epoch r.1
  looks : r.2.stats.looks + t.abandoned = a.stats.looks + u.abandoned
  hits : r.2.stats.hits + t.hit.toNat = a.stats.hits + u.hit.toNat
  failures : r.2.stats.failures = a.stats.failures + r.1.hasFailed.toNat

theorem Counts.same {t : Trail} {a : Analysis} {r : Progress × Analysis} (follows : t.Follows a.epoch r.1)
    (stats : r.2.stats = a.stats) (unfailed : r.1.hasFailed = false) : t.Counts t a r where
  follows := follows
  looks := by rw [stats]
  hits := by rw [stats]
  failures := by rw [stats, unfailed]; rfl

theorem counts_resume {m : ModuleId} {q : Question} {p : Pending} {a : Analysis} {seen : Option Look}
    {r : Progress × Analysis} {t : Trail} (h : t.Follows a.epoch (.asks q p)) (hr : a.Resumes m p.epoch seen r) :
    t.Counts (t.resume seen) a r := by
  obtain ⟨unlive, torn⟩ := h
  cases hr with
  | fails stats => exact ⟨trivial, by rw [stats]; rfl, by rw [stats]; rfl, by rw [stats]; rfl⟩
  | asks same stats => exact .same ⟨unlive, same ▸ torn⟩ stats rfl
  | @ends look s b kept stats =>
      have untorn : ¬ t.torn = true := fun ht => torn.mp ht kept
      have stays : t.resume (some look) = t := if_neg untorn
      rw [stays]
      exact .same trivial stats rfl
  | @again b r moved stats same looks =>
      have begins : t.resume (some (b.look m)) = { look := b.look m, abandoned := t.abandoned + 1 } :=
        if_pos (torn.mpr moved)
      have nohit : t.hit = false := decide_eq_false unlive
      rw [begins]
      refine ⟨?_, ?_, ?_, ?_⟩
      · exact follows_of_looks looks same _
      · rw [looks.stats, Stats.looks_note, stats]
        simp only
        omega
      · rw [looks.stats, Stats.hits_note, stats, nohit]
        rfl
      · rw [looks.stats, Stats.failures_note, stats, Progress.hasFailed_eq_false looks.unfailed]
        rfl

end Trail

/-! ## The counters after a run -/

namespace Get

def hasEnded (g : Get) : Bool :=
  ¬ g.Waits

def hasFailed (g : Get) : Bool :=
  Progress.hasFailed g.progress

end Get

namespace Session

variable {x : Session} {ts : Row Trail} {e : Event} {k : Nat} {m : ModuleId} {q : Question} {p : Pending}

/-- No get is in progress. -/
def Idle (x : Session) : Prop :=
  ∀ g ∈ x.gets.items, ¬ g.Waits

instance (x : Session) : Decidable x.Idle :=
  inferInstanceAs (Decidable (∀ g ∈ x.gets.items, ¬ g.Waits))

/-- The trails of the gets after an event. -/
def follow (x : Session) (ts : Row Trail) : Event → Row Trail
  | .start m => if m < x.analysis.modules.size then ts.push { look := x.analysis.look m } else ts
  | .resume k =>
      match x.gets.get? k with
      | some ⟨m, .asks _ p, some reply⟩ => ts.modify k (Trail.resume (x.analysis.relook? m p.stage reply))
      | _ => ts
  | .destroyAll => ts.map Trail.tear
  | _ => ts

def trails : Session → Row Trail → List Event → Row Trail
  | _, ts, [] => ts
  | x, ts, e :: es => trails (x.step e) (x.follow ts e) es

/-- The counters agree with the gets and their trails. -/
structure Tallied (x : Session) (ts : Row Trail) : Prop where
  sound : x.Sound
  size : ts.size = x.gets.size
  follows : ∀ {k progress}, x.progress? k = some progress →
    ∃ t, ts.get? k = some t ∧ t.Follows x.analysis.epoch progress
  looks : x.analysis.stats.looks = ts.size + ts.total Trail.abandoned
  hits : x.analysis.stats.hits = ts.count Trail.hit
  failures : x.analysis.stats.failures = x.gets.count Get.hasFailed

theorem Tallied.start (t : x.Tallied ts) (hm : m < x.analysis.modules.size) :
    (x.step (.start m)).Tallied (ts.push { look := x.analysis.look m }) := by
  have d : x.Drives (.start m) x.gets.size m (x.analysis.begin m) := .start hm
  have seen := Analysis.begin_looks t.sound.analysis m
  have gets : (x.step (.start m)).gets = x.gets.push { module := m, progress := (x.analysis.begin m).1 } := by
    simp only [step, if_pos hm]
  have stats : (x.step (.start m)).analysis.stats = x.analysis.stats.note (x.analysis.look m) := by
    rw [d.analysis_eq, seen.stats]
  have epoch : (x.step (.start m)).analysis.epoch = x.analysis.epoch :=
    epoch_step t.sound fun he => by cases he
  refine ⟨t.sound.step _, ?_, ?_, ?_, ?_, ?_⟩
  · rw [gets, Row.size_push, Row.size_push, t.size]
  · intro k progress hk
    rw [epoch]
    by_cases hnew : k = x.gets.size
    · subst hnew
      rw [d.progress?_eq] at hk
      cases hk
      refine ⟨{ look := x.analysis.look m }, ?_, ?_⟩
      · rw [← t.size]
        exact Row.get?_push_self _ _
      · exact Trail.follows_of_looks seen rfl 0
    · rw [progress?, gets, Row.get?_push_of_ne hnew] at hk
      rw [Row.get?_push_of_ne (t.size.symm ▸ hnew)]
      exact t.follows hk
  · rw [stats, Stats.looks_note, t.looks, Row.size_push, Row.total_push]
    simp only
    omega
  · rw [stats, Stats.hits_note, t.hits, Row.count_push]
    rfl
  · rw [stats, Stats.failures_note, t.failures, gets, Row.count_push, Get.hasFailed,
      Progress.hasFailed_eq_false seen.unfailed]
    rfl

theorem Tallied.resume {reply : Answer} (t : x.Tallied ts)
    (hk : x.gets.get? k = some ⟨m, .asks q p, some reply⟩) :
    (x.step (.resume k)).Tallied (ts.modify k (Trail.resume (x.analysis.relook? m p.stage reply))) := by
  have d : x.Drives (.resume k) k m (x.analysis.resume p reply) := .resume hk
  have hp : p.Holds x.released x.analysis m 0 q (some reply) := t.sound.gets hk
  have gets : (x.step (.resume k)).gets =
      x.gets.modify k fun _ => { module := m, progress := (x.analysis.resume p reply).1 } := by
    simp only [step, hk]
  obtain ⟨u, hu, follows⟩ := t.follows (show x.progress? k = some (.asks q p) by rw [progress?, hk]; rfl)
  have epoch : (x.step (.resume k)).analysis.epoch = x.analysis.epoch :=
    epoch_step t.sound fun he => by cases he
  have counts := Trail.counts_resume follows (Analysis.resume_resumes t.sound.analysis hp)
  generalize x.analysis.relook? m p.stage reply = seen at counts ⊢
  have abandoned := Row.total_modify Trail.abandoned hu (Trail.resume seen)
  have hits := Row.count_modify Trail.hit hu (Trail.resume seen)
  have failures := Row.count_modify Get.hasFailed hk fun _ => { module := m, progress := (x.analysis.resume p reply).1 }
  refine ⟨t.sound.step _, ?_, ?_, ?_, ?_, ?_⟩
  · rw [gets, Row.size_modify, Row.size_modify, t.size]
  · intro i progress hi
    rw [epoch, Row.get?_modify]
    by_cases hik : k = i
    · subst hik
      rw [d.progress?_eq] at hi
      cases hi
      exact ⟨u.resume seen, by rw [if_pos rfl, hu]; rfl, counts.follows⟩
    · rw [progress?, gets, Row.get?_modify, if_neg hik] at hi
      rw [if_neg hik]
      exact t.follows hi
  · have step := counts.looks
    have before := t.looks
    rw [d.analysis_eq, Row.size_modify]
    omega
  · have step := counts.hits
    have before := t.hits
    rw [d.analysis_eq]
    omega
  · have waited : Get.hasFailed ⟨m, .asks q p, some reply⟩ = false := rfl
    rw [waited] at failures
    rw [d.analysis_eq, gets, counts.failures, t.failures]
    exact failures.symm

/-- Where no get goes on, each of them stays as it is. -/
theorem progress?_step (he : x.driven? e = none) (k : Nat) : (x.step e).progress? k = x.progress? k := by
  rcases progress?_step_or_drives x e k with same | ⟨m, r, d⟩
  · exact same
  · cases he.symm.trans d.driven?_eq

theorem progresses_step (he : x.driven? e = none) :
    (x.step e).gets.items.map Ticket.progress = x.gets.items.map Ticket.progress := by
  apply List.ext_getElem?
  intro k
  rw [List.getElem?_map, List.getElem?_map]
  exact progress?_step he k

theorem stats_step (h : x.Sound) (he : x.driven? e = none) :
    (x.step e).analysis.stats = x.analysis.stats := by
  cases x.kind h e with
  | drives d => cases he.symm.trans d.driven?_eq
  | tears eq =>
      subst eq
      simp only [step, update, Analysis.destroyAll, Analysis.clearContexts]
      rw [Analysis.destroyContexts_eq, Analysis.destroyServices_eq]
  | @releases s eq =>
      subst eq
      simp only [step]
      split
      · rw [Analysis.destroyService_eq]
      · rfl
  | keeps hk => exact hk.stats

theorem Tallied.undriven {us : Row Trail} (t : x.Tallied ts) (he : x.driven? e = none) (size : us.size = ts.size)
    (abandoned : us.total Trail.abandoned = ts.total Trail.abandoned) (hits : us.count Trail.hit = ts.count Trail.hit)
    (follows : ∀ {k progress}, x.progress? k = some progress →
      ∃ u, us.get? k = some u ∧ u.Follows (x.step e).analysis.epoch progress) : (x.step e).Tallied us := by
  have same := progresses_step he
  have count (gets : Row Get) : gets.count Get.hasFailed = (gets.items.map Ticket.progress).countP Progress.hasFailed :=
    List.countP_map.symm
  refine ⟨t.sound.step e, ?_, ?_, ?_, ?_, ?_⟩
  · have length := congrArg List.length same
    rw [List.length_map, List.length_map] at length
    exact (size.trans t.size).trans length.symm
  · intro k progress hk
    rw [progress?_step he] at hk
    exact follows hk
  · rw [stats_step t.sound he, size, abandoned, t.looks]
  · rw [stats_step t.sound he, hits, t.hits]
  · rw [stats_step t.sound he, t.failures, count, count, same]

theorem Tallied.rests (t : x.Tallied ts) (he : x.driven? e = none) (kept : e ≠ .destroyAll) :
    (x.step e).Tallied ts := by
  apply t.undriven he rfl rfl rfl
  intro k progress hk
  rw [epoch_step t.sound kept]
  exact t.follows hk

/-- The passes of all gets that wait are torn. -/
theorem Tallied.tear (t : x.Tallied ts) : (x.step .destroyAll).Tallied (ts.map Trail.tear) := by
  refine t.undriven rfl (Row.size_map _ _) ?_ ?_ ?_
  · apply Row.total_map
    exact fun _ => rfl
  · rw [Row.count_eq_total, Row.count_eq_total]
    apply Row.total_map
    exact fun _ => rfl
  · intro k progress hk
    obtain ⟨u, hu, follows⟩ := t.follows hk
    refine ⟨u.tear, by rw [Row.get?_map, hu]; rfl, ?_⟩
    cases progress with
    | found s => trivial
    | failed e => trivial
    | asks q p =>
        obtain ⟨g, hg, hprogress⟩ := Option.map_eq_some_iff.mp hk
        have holds := t.sound.gets hg
        rw [Get.Holds, hprogress] at holds
        have earlier : p.epoch ≤ x.analysis.epoch := holds.epoch_le
        have later : (x.step .destroyAll).analysis.epoch = x.analysis.epoch + 1 := epoch_destroyAll _
        refine ⟨follows.1, iff_of_true rfl ?_⟩
        omega

theorem Tallied.step (t : x.Tallied ts) (e : Event) : (x.step e).Tallied (x.follow ts e) := by
  cases e with
  | start m =>
      by_cases hm : m < x.analysis.modules.size
      · simp only [follow, if_pos hm]
        exact t.start hm
      · simp only [follow, Session.step, if_neg hm]
        exact t
  | resume k =>
      simp only [follow]
      split
      case h_1 hk => exact t.resume hk
      case h_2 hk =>
          simp only [Session.step]
          exact t
  | destroyAll => exact t.tear
  | _ => exact t.rests rfl fun he => by cases he

theorem Tallied.run (t : x.Tallied ts) (es : List Event) : (x.run es).Tallied (x.trails ts es) := by
  induction es generalizing x ts with
  | nil => exact t
  | cons e es ih => exact ih (t.step e)

theorem ofConfig_tallied (c : Config) (env : Environment) (d : Disk) : (ofConfig c env d).Tallied {} where
  sound := ofConfig_sound c env d
  size := rfl
  follows hk := nomatch hk
  looks := rfl
  hits := rfl
  failures := rfl

theorem Idle.count_hasEnded (h : x.Idle) : x.gets.count Get.hasEnded = x.gets.size :=
  List.countP_eq_length.mpr fun g hg => decide_eq_true (h g hg)

/-- Each get and each pass that was abandoned because of a teardown is a look at the registry that was counted once;
errors are counted as failures, and hits as the gets whose last look found a live service. -/
theorem counters_add_up (c : Config) (env : Environment) (d : Disk) (es : List Event) :
    let start := ofConfig c env d
    let x := start.run es
    let trails := start.trails {} es
    let stats := x.analysis.stats
    trails.size = x.gets.size ∧ stats.failures = x.gets.count Get.hasFailed ∧
      stats.hits = trails.count Trail.hit ∧
      stats.hits + stats.misses + stats.staleRebuilds = x.gets.size + trails.total Trail.abandoned ∧
      (x.Idle → stats.hits + stats.misses + stats.staleRebuilds =
        x.gets.count Get.hasEnded + trails.total Trail.abandoned) := by
  intro start x trails stats
  have t : x.Tallied trails := (ofConfig_tallied c env d).run es
  have looks : stats.hits + stats.misses + stats.staleRebuilds = x.gets.size + trails.total Trail.abandoned := by
    rw [← t.size]
    exact t.looks
  refine ⟨t.size, t.failures, t.hits, looks, ?_⟩
  intro idle
  rw [idle.count_hasEnded]
  exact looks

/-- While a platform module is built everything is torn down, so its get begins anew and runs into a failure after
another get for the module has succeeded. Later on the service is found, and then it is stale and not replaced. -/
def disrupted : List Event :=
  [.add { name := "lib", path := ⟨[]⟩ }, .add platformModule, .start 0, .answer 0, .resume 0, .start 0,
    .start 1, .answer 2, .destroyAll, .start 0, .answer 3, .resume 3,
    .resume 2, .answer 2, .resume 2, .answer 2, .resume 2, .start 1, .answer 4, .resume 4,
    .hinder 1 none (some (.unavailable "app" "closed")) none, .answer 2, .resume 2,
    .start 1, .reconfigure 1 { kind := .platform }, .start 1, .answer 6, .resume 6, .answer 6, .resume 6]

theorem counters_add_up_of_disrupted :
    let x := sample disrupted
    let trails := (ofConfig {} {} (.empty 0)).trails {} disrupted
    x.Idle ∧ x.analysis.stats = { hits := 2, misses := 5, staleRebuilds := 1, failures := 2 } ∧
      x.gets.count Get.hasEnded = 7 ∧ trails.total Trail.abandoned = 1 ∧
      x.gets.count Get.hasFailed = 2 ∧ trails.count Trail.hit = 2 := by
  intro x trails
  obtain ⟨-, failures, hits, -, settled⟩ := counters_add_up {} {} (.empty 0) disrupted
  have idle : x.Idle := by decide +kernel
  have stats : x.analysis.stats = { hits := 2, misses := 5, staleRebuilds := 1, failures := 2 } := by decide +kernel
  have ended : x.gets.count Get.hasEnded = 7 := by decide +kernel
  have looks : x.analysis.stats.hits + x.analysis.stats.misses + x.analysis.stats.staleRebuilds =
      x.gets.count Get.hasEnded + trails.total Trail.abandoned := settled idle
  rw [stats, ended] at looks
  refine ⟨idle, stats, ended, (Nat.add_left_cancel looks).symm, ?_, ?_⟩
  · exact failures.symm.trans (congrArg Stats.failures stats)
  · exact hits.symm.trans (congrArg Stats.hits stats)

end Session

end ClassScope
