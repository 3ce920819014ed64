import ClassScope.Analysis.Get
import ClassScope.Proofs.Analysis.Operations

/-!
# Gets on their way

What a waiting get has found out so far may be out of date when it goes on, but never silently: what it holds
is what its module declares unless the generation has changed, and its context is not released unless that
context is spent or everything was torn down. So a get that goes on leaves a sound state behind.
-/

namespace ClassScope

variable {rs : List ServiceId} {a b : Analysis} {m : ModuleId} {since : Nat}

theorem Module.eq_of_answer {α : Type} {failure : Option ModuleError} {x y : α}
    (h : answer failure x = .ok y) : y = x := by
  cases failure with
  | some e => cases h
  | none => exact (Except.ok.inj h).symm

/-! ## Contexts on their way -/

/-- What the building of a context relies on while a question waits for its answer. -/
def ContextStage.Holds (a : Analysis) (m : ModuleId) (since : Nat) (q : Question)
    (reply : Option Answer) : ContextStage → Prop
  | .home => True
  | .compile g => q = .compile m ∧ since ≤ g ∧ g ≤ (a.module m).generation ∧
      ((a.module m).generation ≤ g →
        ∀ ps, reply = some (.ok ps) → ps = (a.module m).settings.compile)
  | .boot g classPaths => q = .boot m ∧ since ≤ g ∧ g ≤ (a.module m).generation ∧
      ((a.module m).generation ≤ g → (a.module m).kind = .platform ∧
        classPaths = .ofLast (a.module m).settings.compile ∧
        ∀ ps, reply = some (.ok ps) → ps = (a.module m).settings.boot)

theorem ContextStage.Holds.mono {q : Question} {reply : Option Answer} {stage : ContextStage}
    (h : stage.Holds a m since q reply) (l : (a.module m).Later (b.module m)) :
    stage.Holds b m since q reply := by
  have hle := l.generation_le
  cases stage with
  | home => trivial
  | compile g =>
      obtain ⟨hq, hs, hg, hr⟩ := h
      refine ⟨hq, hs, Nat.le_trans hg hle, fun hb ps hp => ?_⟩
      rw [l.settings_eq (Nat.le_trans hb hg)]
      exact hr (Nat.le_trans hle hb) ps hp
  | boot g classPaths =>
      obtain ⟨hq, hs, hg, hr⟩ := h
      refine ⟨hq, hs, Nat.le_trans hg hle, fun hb => ?_⟩
      rw [Module.kind, l.settings_eq (Nat.le_trans hb hg)]
      exact hr (Nat.le_trans hle hb)

theorem ContextStage.Holds.answer {q : Question} {reply : Option Answer} {stage : ContextStage}
    (h : stage.Holds a m since q reply) : stage.Holds a m since q (some (a.answer q)) := by
  cases stage with
  | home => trivial
  | compile g =>
      obtain ⟨rfl, hs, hg, -⟩ := h
      exact ⟨rfl, hs, hg, fun _ ps hp => Module.eq_of_answer (Option.some.inj hp)⟩
  | boot g classPaths =>
      obtain ⟨rfl, hs, hg, hr⟩ := h
      refine ⟨rfl, hs, hg, fun hb => ?_⟩
      obtain ⟨hk, hc, -⟩ := hr hb
      exact ⟨hk, hc, fun ps hp => Module.eq_of_answer (Option.some.inj hp)⟩

def ContextProgress.Holds (a : Analysis) (m : ModuleId) (since : Nat) : ContextProgress → Prop
  | .found c => a.IsUsable m since c
  | .failed _ => True
  | .asks q stage => stage.Holds a m since q none

namespace Analysis

theorem askCompile_holds (hs : since ≤ (a.module m).generation) :
    (a.askCompile m).Holds a m since :=
  ⟨rfl, hs, Nat.le_refl _, fun _ _ hp => nomatch hp⟩

theorem beginContext_holds (h : a.Sound rs) (hs : since ≤ (a.module m).generation) :
    (a.beginContext m).Holds a m since := by
  rw [beginContext]
  cases hc : a.currentContext? m with
  | some c =>
      obtain ⟨hm, hd, hg⟩ := currentContext?_eq_some hc
      exact ⟨h.cached hm, hd, hg ▸ hs⟩
  | none =>
      cases a.home with
      | some home => trivial
      | none => exact askCompile_holds hs

theorem IsUsable.mono {since' : Nat} {c : ContextId} (u : a.IsUsable m since c) (h : since' ≤ since) :
    a.IsUsable m since' c :=
  ⟨u.module, u.destroyed, Nat.le_trans h u.since_le⟩

/-- The generation was read first, so a context of the present generation holds what the module declares. -/
theorem resumeContext_evolves (h : a.Sound rs) (hm : m < a.modules.size)
    (hs : since ≤ (a.module m).generation) {stage : ContextStage} {q : Question} {reply : Answer}
    (hst : stage.Holds a m since q (some reply)) :
    a.Evolves rs (a.resumeContext m stage reply).2 ∧
      (a.resumeContext m stage reply).1.Holds (a.resumeContext m stage reply).2 m since := by
  cases stage with
  | home => exact ⟨.refl h, askCompile_holds hs⟩
  | compile g =>
      cases reply with
      | error e => exact ⟨.refl h, trivial⟩
      | ok ps =>
          obtain ⟨-, hsg, hg, hr⟩ := hst
          have hps (hb : (a.module m).generation ≤ g) : ps = (a.module m).settings.compile :=
            hr hb ps rfl
          rw [resumeContext]
          cases hk : (a.module m).kind with
          | platform => exact ⟨.refl h, rfl, hsg, hg, fun hb => ⟨hk, by rw [hps hb], fun _ hp => nomatch hp⟩⟩
          | plain =>
              have f : a.FreshContext m { module := some m, generation := g, classPaths := .ofLast ps } := {
                module_lt := hm
                module := rfl
                destroyed := rfl
                generation_le := hg
                shows := by
                  intro hb
                  refine ⟨by rw [hps hb], ?_, by rw [hk]⟩
                  rw [hk]
                  constructor
                  · intro hf
                    cases hf
                  · intro hf
                    cases hf }
              obtain ⟨e, u⟩ := keepContext_evolves h f
              exact ⟨e, u.mono hsg⟩
  | boot g classPaths =>
      cases reply with
      | error e => exact ⟨.refl h, trivial⟩
      | ok ps =>
          obtain ⟨-, hsg, hg, hr⟩ := hst
          have e := (updateBoot_scans a (PathSet.ofLast ps).toList).evolves h
          have f : (a.updateBoot (PathSet.ofLast ps).toList).FreshContext m {
              module := some m, generation := g, isPlatform := true, classPaths,
              bootPaths := .ofLast ps } := {
            module_lt := hm
            module := rfl
            destroyed := rfl
            generation_le := hg
            shows := by
              intro hb
              obtain ⟨hk, hc, hp⟩ := hr hb
              have hk' : ((a.updateBoot (PathSet.ofLast ps).toList).module m).kind = .platform := hk
              refine ⟨hc, by simp [hk'], ?_⟩
              rw [hk', hp ps rfl]
              rfl }
          obtain ⟨e', u⟩ := keepContext_evolves e.sound f
          exact ⟨e.trans e', u.mono hsg⟩

end Analysis

/-! ## Services on their way -/

/-- What the building of a service at an epoch relies on while a question waits for its answer. -/
def Stage.Holds (rs : List ServiceId) (a : Analysis) (m : ModuleId) (since epoch : Nat) (q : Question)
    (reply : Option Answer) : Stage → Prop
  | .context stage => stage.Holds a m since q reply
  | .boot c _ => (a.context c).module = some m ∧ since ≤ (a.context c).generation ∧
      (a.epoch = epoch → (a.context c).destroyed = true → a.Spent rs c)

def Analysis.Built.Holds (rs : List ServiceId) (a : Analysis) (m : ModuleId) (since epoch : Nat) :
    Analysis.Built → Prop
  | .service x => since ≤ x.generation ∧ (a.epoch = epoch → a.FreshService rs m x)
  | .failed _ => True
  | .asks q stage => stage.Holds rs a m since epoch q none

structure Pending.Holds (rs : List ServiceId) (a : Analysis) (m : ModuleId) (since : Nat) (q : Question)
    (reply : Option Answer) (p : Pending) : Prop where
  module_eq : p.module = m
  module_lt : m < a.modules.size
  since_le : since ≤ (a.module m).generation
  epoch_le : p.epoch ≤ a.epoch
  stage : p.stage.Holds rs a m since p.epoch q reply

/-- What a get leaves behind when it ends or waits. -/
def Progress.Holds (rs : List ServiceId) (a : Analysis) (m : ModuleId) (since : Nat) : Progress → Prop
  | .found s => a.IsServed m since s
  | .failed _ => True
  | .asks q p => p.Holds rs a m since q none

theorem Stage.Holds.mono {epoch : Nat} {q : Question} {reply : Option Answer} {stage : Stage}
    (h : stage.Holds rs a m since epoch q reply) (s : a.Sound rs) (l : a.Later rs b)
    (hm : m < a.modules.size) (he : epoch ≤ a.epoch) : stage.Holds rs b m since epoch q reply := by
  cases stage with
  | context stage => exact ContextStage.Holds.mono h (l.module hm)
  | boot c dependencies =>
      obtain ⟨hc, hs, hsp⟩ := h
      have hlt := Analysis.lt_of_context hc
      refine ⟨(l.context_module_eq hlt).trans hc, by rw [l.context_generation_eq hlt]; exact hs, ?_⟩
      intro hb hd
      -- The epoch has been the same all the time.
      have hae : a.epoch = epoch := Nat.le_antisymm (hb ▸ l.epoch_le) he
      rcases l.spent hlt hd with ha | hsp' | hlt'
      · exact l.spent_mono s (hsp hae ha)
      · exact hsp'
      · rw [hb, hae] at hlt'
        exact absurd hlt' (Nat.lt_irrefl _)

theorem Pending.Holds.mono {q : Question} {reply : Option Answer} {p : Pending}
    (h : p.Holds rs a m since q reply) (s : a.Sound rs) (l : a.Later rs b) :
    p.Holds rs b m since q reply where
  module_eq := h.module_eq
  module_lt := l.lt_modules h.module_lt
  since_le := Nat.le_trans h.since_le (l.module h.module_lt).generation_le
  epoch_le := Nat.le_trans h.epoch_le l.epoch_le
  stage := h.stage.mono s l h.module_lt h.epoch_le

theorem Pending.Holds.answer {q : Question} {reply : Option Answer} {p : Pending}
    (h : p.Holds rs a m since q reply) : p.Holds rs a m since q (some (a.answer q)) := { h with
  stage := by
    have hst := h.stage
    cases hp : p.stage with
    | context stage =>
        rw [hp] at hst
        exact ContextStage.Holds.answer hst
    | boot c dependencies =>
        rw [hp] at hst
        exact hst }

/-- Somebody else may have released a service in the meantime. -/
theorem Pending.Holds.subset {rs' : List ServiceId} {q : Question} {reply : Option Answer} {p : Pending}
    (h : p.Holds rs a m since q reply) (hs : rs ⊆ rs') : p.Holds rs' a m since q reply := { h with
  stage := by
    have hst := h.stage
    cases hp : p.stage with
    | context stage =>
        rw [hp] at hst
        exact hst
    | boot c dependencies =>
        rw [hp] at hst
        obtain ⟨hc, hg, hsp⟩ := hst
        exact ⟨hc, hg, fun he hd => (hsp he hd).subset hs⟩ }

namespace Analysis

theorem build_fresh {c : ContextId} (u : a.IsUsable m since c) (dependencies : SharedSet)
    (boot : ClassNameSet) : a.FreshService rs m (a.build m c dependencies boot) where
  module := rfl
  destroyed := rfl
  context_module := u.module
  context_generation := rfl
  spent hd := by
    rw [show (a.context (a.build m c dependencies boot).context).destroyed = false from u.destroyed] at hd
    cases hd

theorem Scans.isUsable {c : ContextId} (h : a.Scans b) (u : a.IsUsable m since c) :
    b.IsUsable m since c := by
  obtain ⟨_, _, _, _, rfl⟩ := h
  exact ⟨u.module, u.destroyed, u.since_le⟩

theorem withContext_evolves (h : a.Sound rs) {p : ContextProgress} (hp : p.Holds a m since)
    (epoch : Nat) :
    a.Evolves rs (a.withContext m p).2 ∧
      (a.withContext m p).1.Holds rs (a.withContext m p).2 m since epoch := by
  cases p with
  | failed e => exact ⟨.refl h, trivial⟩
  | asks q stage => exact ⟨.refl h, hp⟩
  | found c =>
      have hs := dependencyClasses_scans a (a.context c).classPaths.toList
      have e := hs.evolves h
      have u := hs.isUsable hp
      simp only [withContext]
      cases (((a.dependencyClasses (a.context c).classPaths.toList).2).module m).kind with
      | platform =>
          refine ⟨e, u.module, u.since_le, fun _ hd => ?_⟩
          rw [u.destroyed] at hd
          cases hd
      | plain =>
          have hb := moduleBootClasses_scans (a.dependencyClasses (a.context c).classPaths.toList).2 none
          have u' := hb.isUsable u
          exact ⟨e.trans (hb.evolves e.sound), u'.since_le, fun _ => build_fresh u' _ _⟩

theorem resumeBuild_evolves (h : a.Sound rs) {epoch : Nat} {stage : Stage} {q : Question}
    {reply : Answer} (hm : m < a.modules.size) (hs : since ≤ (a.module m).generation)
    (hst : stage.Holds rs a m since epoch q (some reply)) :
    a.Evolves rs (a.resumeBuild m stage reply).2 ∧
      (a.resumeBuild m stage reply).1.Holds rs (a.resumeBuild m stage reply).2 m since epoch := by
  cases stage with
  | context stage =>
      obtain ⟨e, hp⟩ := resumeContext_evolves h hm hs hst
      obtain ⟨e', hb⟩ := withContext_evolves e.sound hp epoch
      exact ⟨e.trans e', hb⟩
  | boot c dependencies =>
      cases reply with
      | error e => exact ⟨.refl h, trivial⟩
      | ok ps =>
          obtain ⟨hc, hsc, hsp⟩ := hst
          have hscan := moduleBootClasses_scans a (some ps)
          have e := hscan.evolves h
          have hlt := lt_of_context hc
          rw [resumeBuild]
          generalize a.moduleBootClasses (some ps) = r at hscan e
          obtain ⟨_, _, _, _, hr⟩ := hscan
          refine ⟨e, ?_, ?_⟩
          · rw [build, hr]
            exact hsc
          · intro he
            rw [build, hr]
            rw [hr] at he
            exact ⟨rfl, rfl, hc, rfl, fun hd => hsp he hd⟩

theorem settle_evolves (h : a.Sound rs) (hm : m < a.modules.size)
    (hs : since ≤ (a.module m).generation) {b : Built} {epoch : Nat} (he : epoch ≤ a.epoch)
    (hb : b.Holds rs a m since epoch) (hx : ∀ x, b = .service x → a.epoch = epoch) :
    a.Evolves rs (a.settle m b epoch).2 ∧ (a.settle m b epoch).1.Holds rs (a.settle m b epoch).2 m since := by
  cases b with
  | service x =>
      obtain ⟨hsx, hf⟩ := hb
      obtain ⟨e, v⟩ := register_evolves h (hf (hx x rfl))
      exact ⟨e, v.module, v.registered, Nat.le_trans hsx v.since_le,
        fun hl hg => v.live hl (Nat.le_trans hg hsx)⟩
  | failed e => exact ⟨Scans.evolves h ⟨_, _, _, _, rfl⟩, trivial⟩
  | asks q stage => exact ⟨.refl h, rfl, hm, hs, he, hb⟩

theorem begin_evolves (h : a.Sound rs) (hm : m < a.modules.size)
    (hs : since ≤ (a.module m).generation) :
    a.Evolves rs (a.begin m).2 ∧ (a.begin m).1.Holds rs (a.begin m).2 m since := by
  cases hl : a.liveService? m with
  | some s =>
      obtain ⟨hr, hlive⟩ := liveService?_eq_some hl
      simp only [begin, hl]
      have hg := ((isLive_iff (h.registered hr)).mp hlive).2.2
      exact ⟨Scans.evolves h ⟨_, _, _, _, rfl⟩, h.registered hr, hr, hg ▸ hs, fun _ _ => hlive⟩
  | none =>
      simp only [begin, hl]
      generalize (if a.registered.has m then _ else _ : Stats) = stats
      have e₁ : a.Evolves rs { a with stats } := Scans.evolves h ⟨_, _, _, _, rfl⟩
      have e₂ := e₁.trans (purge_evolves e₁.sound)
      have hs₂ := Nat.le_trans hs (e₂.later.module hm).generation_le
      have hp := beginContext_holds e₂.sound hs₂
      obtain ⟨e₃, hb⟩ := withContext_evolves e₂.sound hp
        (({ a with stats }.purge.2.withContext m ({ a with stats }.purge.2.beginContext m)).2).epoch
      have e := e₂.trans e₃
      obtain ⟨e₄, hg⟩ := settle_evolves e.sound (e.later.lt_modules hm)
        (Nat.le_trans hs (e.later.module hm).generation_le) (Nat.le_refl _) hb fun _ _ => rfl
      exact ⟨e.trans e₄, hg⟩

theorem resume_evolves (h : a.Sound rs) {p : Pending} {q : Question} {reply : Answer}
    (hp : p.Holds rs a m since q (some reply)) :
    a.Evolves rs (a.resume p reply).2 ∧ (a.resume p reply).1.Holds rs (a.resume p reply).2 m since := by
  obtain ⟨rfl, hm, hs, he, hst⟩ := hp
  obtain ⟨e, hb⟩ := resumeBuild_evolves h hm hs hst
  have hm' := e.later.lt_modules hm
  have hs' := Nat.le_trans hs (e.later.module hm).generation_le
  have he' := Nat.le_trans he e.later.epoch_le
  rw [resume]
  generalize a.resumeBuild p.module p.stage reply = r at e hb hm' hs' he'
  obtain ⟨b, c⟩ := r
  have other (hx : ∀ x, b = .service x → c.epoch = p.epoch) :
      a.Evolves rs (c.settle p.module b p.epoch).2 ∧
        (c.settle p.module b p.epoch).1.Holds rs (c.settle p.module b p.epoch).2 p.module since := by
    obtain ⟨e', hg⟩ := settle_evolves e.sound hm' hs' he' hb hx
    exact ⟨e.trans e', hg⟩
  cases b with
  | failed _ => exact other fun _ hx => nomatch hx
  | asks _ _ => exact other fun _ hx => nomatch hx
  | service x =>
      by_cases hep : c.epoch = p.epoch
      · simp only [if_pos hep]
        exact other fun _ _ => hep
      · simp only [if_neg hep]
        obtain ⟨e', hg⟩ := begin_evolves e.sound hm' hs'
        exact ⟨e.trans e', hg⟩

/-! ## Gets leave the modules alone -/

theorem modules_resumeContext (a : Analysis) (m : ModuleId) (stage : ContextStage) (reply : Answer) :
    (a.resumeContext m stage reply).2.modules = a.modules := by
  unfold resumeContext
  split
  case h_3 =>
      dsimp only
      split
      · rfl
      · simp
  case h_5 => exact modules_keepContext _ _ _
  all_goals rfl

theorem modules_withContext (a : Analysis) (m : ModuleId) (p : ContextProgress) :
    (a.withContext m p).2.modules = a.modules := by
  cases p with
  | failed e => rfl
  | asks q stage => rfl
  | found c =>
      have h := dependencyClasses_scans a (a.context c).classPaths.toList
      simp only [withContext]
      split
      · exact h.modules_eq
      · exact (h.trans (moduleBootClasses_scans _ none)).modules_eq

theorem modules_resumeBuild (a : Analysis) (m : ModuleId) (stage : Stage) (reply : Answer) :
    (a.resumeBuild m stage reply).2.modules = a.modules := by
  unfold resumeBuild
  split
  case h_1 => exact (modules_withContext _ _ _).trans (modules_resumeContext _ _ _ _)
  case h_2 => rfl
  case h_3 => exact (moduleBootClasses_scans a _).modules_eq

theorem modules_settle (a : Analysis) (m : ModuleId) (b : Built) (epoch : Nat) :
    (a.settle m b epoch).2.modules = a.modules := by
  cases b with
  | service x => exact modules_register a m x
  | failed e => rfl
  | asks q stage => rfl

theorem modules_begin (a : Analysis) (m : ModuleId) : (a.begin m).2.modules = a.modules := by
  unfold begin
  split
  · rfl
  · exact (modules_settle _ _ _ _).trans ((modules_withContext _ _ _).trans (modules_purge _))

theorem modules_resume (a : Analysis) (p : Pending) (reply : Answer) :
    (a.resume p reply).2.modules = a.modules := by
  have h := modules_resumeBuild a p.module p.stage reply
  rw [resume]
  generalize a.resumeBuild p.module p.stage reply = r at h
  obtain ⟨b, c⟩ := r
  cases b with
  | failed _ => exact (modules_settle _ _ _ _).trans h
  | asks _ _ => exact (modules_settle _ _ _ _).trans h
  | service x =>
      dsimp only
      split
      · exact (modules_settle _ _ _ _).trans h
      · exact (modules_begin _ _).trans h

end Analysis

end ClassScope
