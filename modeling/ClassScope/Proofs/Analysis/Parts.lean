import ClassScope.Proofs.Analysis.Registrations

/-!
# What gets are made of

A get scans, puts away what is stale, makes one context at most its module's one, and registers one service
at most, with which it ends. This holds of every state, sound or not.
-/

namespace ClassScope.Analysis

variable {a b c : Analysis} {m : ModuleId} {s : ServiceId} {r : Progress × Analysis}

/-! ## Scans that come after one another -/

theorem Scans.refl (a : Analysis) : a.Scans a :=
  ⟨_, _, _, _, rfl⟩

theorem withContext_scans (a : Analysis) (m : ModuleId) (p : ContextProgress) : a.Scans (a.withContext m p).2 := by
  cases p with
  | failed e => exact .refl a
  | asks q stage => exact .refl a
  | found c =>
      have h := dependencyClasses_scans a (a.context c).classPaths.toList
      simp only [withContext]
      split
      · exact h
      · exact h.trans (moduleBootClasses_scans _ none)

/-- What a service reads as its boot classes, given what its module has answered. -/
def bootRead (a : Analysis) (s : ServiceId) (declared : Option (List Path)) : ClassNameSet :=
  match (a.service s).module with
  | some _ => (a.moduleBootClasses declared).1
  | none => ∅

theorem refresh_eq (a : Analysis) (s : ServiceId) (declared : Option (List Path)) :
    ∃ b, a.Scans b ∧ a.refresh s declared =
      { b with services := b.services.modify s fun x => { x with boot := a.bootRead s declared } } := by
  rw [refresh, bootRead]
  cases (a.service s).module with
  | none => exact ⟨a, .refl a, rfl⟩
  | some m => exact ⟨_, moduleBootClasses_scans a declared, rfl⟩

/-! ## Contexts -/

/-- A context that goes on either is not there yet, and nothing has changed, or a built one is made the
module's one. -/
inductive ContextStep (m : ModuleId) (a : Analysis) : ContextProgress × Analysis → Prop
  | stays {p : ContextProgress} (unfound : ∀ c, p ≠ .found c) : ContextStep m a (p, a)
  | keeps {b : Analysis} {x : FileContext} (scans : a.Scans b) (module : x.module = some m)
      (destroyed : x.destroyed = false) :
      ContextStep m a (.found (b.keepContext m x).1, (b.keepContext m x).2)

theorem resumeContext_step (a : Analysis) (m : ModuleId) (stage : ContextStage) (reply : Answer) :
    a.ContextStep m (a.resumeContext m stage reply) := by
  unfold resumeContext
  split
  case h_3 =>
      dsimp only
      split
      · exact .stays nofun
      · exact .keeps (.refl a) rfl rfl
  case h_5 => exact .keeps (updateBoot_scans a _) rfl rfl
  all_goals exact .stays nofun

/-- Scans, and between them perhaps a context that is made the module's one. -/
inductive Prepares (m : ModuleId) (a b : Analysis) : Prop
  | scans (h : a.Scans b)
  | keeps {c : Analysis} {x : FileContext} (before : a.Scans c) (module : x.module = some m)
      (destroyed : x.destroyed = false) (after : (c.keepContext m x).2.Scans b)

theorem resumeBuild_prepares (a : Analysis) (m : ModuleId) (stage : Stage) (reply : Answer) :
    a.Prepares m (a.resumeBuild m stage reply).2 := by
  cases stage with
  | context stage =>
      have h := resumeContext_step a m stage reply
      simp only [resumeBuild]
      generalize a.resumeContext m stage reply = r at h
      cases h with
      | stays _ => exact .scans (withContext_scans a m _)
      | keeps scans module destroyed => exact .keeps scans module destroyed (withContext_scans _ m _)
  | boot c dependencies =>
      cases reply with
      | error e => exact .scans (.refl a)
      | ok paths => exact .scans (moduleBootClasses_scans a (some paths))

/-! ## Services -/

/-- A pass waits or fails, or it ends in a service that was built. -/
inductive Settles (m : ModuleId) (a : Analysis) : Progress × Analysis → Prop
  | scans {p : Progress} {b : Analysis} (h : a.Scans b) (unfound : ∀ s, p ≠ .found s)
      (asks : ∀ {q pending}, p = .asks q pending → pending.module = m) : Settles m a (p, b)
  | registers {x : Service} (module : x.module = some m) (destroyed : x.destroyed = false) :
      Settles m a (.found (a.register m x).1, (a.register m x).2)

theorem settle_settles {x : Built} (hx : x.New m) (a : Analysis) (epoch : Nat) :
    a.Settles m (a.settle m x epoch) := by
  cases x with
  | service x => exact .registers hx.1 hx.2
  | failed e => exact .scans ⟨_, _, _, _, rfl⟩ nofun nofun
  | asks q stage =>
      refine .scans (.refl a) nofun ?_
      intro q pending h
      cases h
      rfl

/-- A get begins with the live service of its module, or it begins a pass. -/
inductive Begins (m : ModuleId) (a : Analysis) : Progress × Analysis → Prop
  | live {s : ServiceId} {b : Analysis} (found : a.liveService? m = some s) (scans : a.Scans b) :
      Begins m a (.found s, b)
  | pass {b c : Analysis} {r : Progress × Analysis} (before : a.Scans b) (after : b.purge.2.Scans c)
      (settles : c.Settles m r) : Begins m a r

theorem begin_begins (a : Analysis) (m : ModuleId) : a.Begins m (a.begin m) := by
  unfold begin
  split
  case h_1 s hs => exact .live hs ⟨_, _, _, _, rfl⟩
  case h_2 =>
      dsimp only
      generalize (if a.registered.has m then _ else _ : Stats) = stats
      exact .pass ⟨_, _, _, _, rfl⟩ (withContext_scans _ m _)
        (settle_settles (withContext_keeps _ m _).2 _ _)

/-- A get that goes on ends or waits within its pass, or it begins anew. -/
theorem resume_settles_or_begins (a : Analysis) (p : Pending) (reply : Answer) :
    ∃ b, a.Prepares p.module b ∧
      (b.Settles p.module (a.resume p reply) ∨ b.Begins p.module (a.resume p reply)) := by
  have hb := resumeBuild_prepares a p.module p.stage reply
  have hx := (resumeBuild_keeps a p.module p.stage reply).2
  rw [resume]
  generalize a.resumeBuild p.module p.stage reply = r at hb hx
  obtain ⟨x, b⟩ := r
  refine ⟨b, hb, ?_⟩
  cases x with
  | failed e => exact Or.inl (settle_settles hx b _)
  | asks q stage => exact Or.inl (settle_settles hx b _)
  | service x =>
      dsimp only
      split
      · exact Or.inl (settle_settles hx b _)
      · exact Or.inr (begin_begins b _)

end ClassScope.Analysis
