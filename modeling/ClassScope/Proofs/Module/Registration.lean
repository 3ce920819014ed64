import ClassScope.Module.Workspace

/-!
# Modules that are registered and modules that are live

A workspace in use: modules are added, replaced and removed under any names, it is closed and used again. Of the
modules it ever made, those are live that are registered, each under its own name.
-/

namespace ClassScope

/-- A workspace among all modules there are, and those of them that it has made. -/
structure Project where
  workspace : Workspace
  modules : Row Module
  made : List ModuleId := []

namespace Project

inductive Act where
  | add (name : String) (settings : Settings)
  | replace (name : String) (settings : Settings)
  | remove (name : String)
  | close
  /-- Somebody who has the module configures it anew. -/
  | reconfigure (m : ModuleId) (settings : Settings)
  /-- A module is made outside of the workspace. -/
  | outside (m : Module)

def opened (root : Path) (modules : Row Module) : Project :=
  { workspace := { root }, modules }

def took (p : Project) : ModuleId × Workspace × Row Module → Project
  | (id, workspace, modules) => ⟨workspace, modules, id :: p.made⟩

/-- What an act does. One that is refused changes nothing. -/
def perform (p : Project) : Act → Project
  | .add name settings => p.took (p.workspace.add name settings p.modules)
  | .replace name settings =>
      match p.workspace.replace name settings p.modules with
      | .ok r => p.took r
      | .error _ => p
  | .remove name =>
      let (_, workspace, modules) := p.workspace.remove name p.modules
      { p with workspace, modules }
  | .close =>
      let (workspace, modules) := p.workspace.close p.modules
      { p with workspace, modules }
  | .reconfigure m settings => { p with modules := p.modules.modify m (Module.reconfigure settings) }
  | .outside m => { p with modules := p.modules.push m }

def run (p : Project) (acts : List Act) : Project :=
  acts.foldl perform p

def name (p : Project) (id : ModuleId) : String :=
  (p.modules.get id).name

def IsLive (p : Project) (id : ModuleId) : Prop :=
  (p.modules.get id).live = true

instance (p : Project) (id : ModuleId) : Decidable (p.IsLive id) :=
  inferInstanceAs (Decidable (_ = _))

/-- The registered modules are those of the made ones that are live, each under its own name. -/
structure InStep (p : Project) : Prop where
  lt_size : ∀ {id}, id ∈ p.made → id < p.modules.size
  registered : ∀ {n id}, p.workspace.registered.get? n = some id → id ∈ p.made ∧ p.name id = n ∧ p.IsLive id
  live : ∀ {id}, id ∈ p.made → p.IsLive id → p.workspace.registered.get? (p.name id) = some id

end Project

/-! ## Letting modules go -/

namespace Workspace

variable {modules : Row Module} {i : ModuleId}

@[simp] theorem size_letGo (modules : Row Module) (id : Option ModuleId) :
    (letGo modules id).size = modules.size := by
  cases id with
  | none => rfl
  | some id => exact Row.size_modify _ _ _

/-- Who lets modules go detaches them and changes nothing else. -/
theorem get_letGo (modules : Row Module) (id : Option ModuleId) (hi : i < modules.size) :
    (letGo modules id).get i =
      if id = some i then (modules.get i).detach else modules.get i := by
  cases id with
  | none => rfl
  | some id =>
      rw [letGo, Row.get_modify hi]
      simp only [Option.some.injEq]

theorem size_letAllGo (modules : Row Module) (ids : List ModuleId) :
    (ids.foldl (fun ms id => letGo ms (some id)) modules).size = modules.size := by
  induction ids generalizing modules with
  | nil => rfl
  | cons id ids ih => exact (ih _).trans (size_letGo _ _)

theorem get_letAllGo (modules : Row Module) (ids : List ModuleId) (hi : i < modules.size) :
    (ids.foldl (fun ms id => letGo ms (some id)) modules).get i =
      if i ∈ ids then (modules.get i).detach else modules.get i := by
  induction ids generalizing modules with
  | nil => rfl
  | cons id ids ih =>
      rw [List.foldl_cons, ih _ (by rw [size_letGo]; exact hi), get_letGo _ _ hi]
      by_cases h : id = i
      · subst h
        simp [Module.detach]
      · simp [h, Ne.symm h]

end Workspace

namespace Project

/-! ## Single acts -/

variable {p : Project} {id i : ModuleId} {n : String}

/-- What changes no name, no registration and no liveness of a made module keeps the two in step. -/
theorem InStep.of_same (h : p.InStep) {modules : Row Module} (size : p.modules.size ≤ modules.size)
    (same : ∀ i < p.modules.size, (modules.get i).name = p.name i ∧ ((modules.get i).live = true ↔ p.IsLive i)) :
    ({ p with modules } : Project).InStep where
  lt_size hm := Nat.lt_of_lt_of_le (h.lt_size hm) size
  registered hr := by
    obtain ⟨hm, hn, hl⟩ := h.registered hr
    obtain ⟨hname, hlive⟩ := same _ (h.lt_size hm)
    exact ⟨hm, hname.trans hn, hlive.mpr hl⟩
  live hm hl := by
    obtain ⟨hname, hlive⟩ := same _ (h.lt_size hm)
    have hr := h.live hm (hlive.mp hl)
    rw [← hname] at hr
    exact hr

theorem opened_inStep (root : Path) (modules : Row Module) : (opened root modules).InStep where
  lt_size hm := nomatch hm
  registered hr := nomatch hr
  live hm := nomatch hm

/-- Taking a name's module out lets it go, whatever was or was not there. -/
theorem InStep.remove (h : p.InStep) (n : String) :
    ({ p with
      workspace := { p.workspace with registered := p.workspace.registered.erase n }
      modules := Workspace.letGo p.modules (p.workspace.registered.get? n) } : Project).InStep where
  lt_size hm := by
    rw [Workspace.size_letGo]
    exact h.lt_size hm
  registered {n' id} hr := by
    rw [Table.get?_erase] at hr
    split at hr
    · cases hr
    · rename_i hne
      obtain ⟨hm, hn, hl⟩ := h.registered hr
      have other : p.workspace.registered.get? n ≠ some id := by
        intro hsome
        exact hne (hn.symm.trans (h.registered hsome).2.1)
      simp only [Project.name, IsLive, Workspace.get_letGo _ _ (h.lt_size hm), if_neg other]
      exact ⟨hm, hn, hl⟩
  live {id} hm hl := by
    simp only [Project.name, IsLive, Workspace.get_letGo _ _ (h.lt_size hm)] at hl ⊢
    split at hl
    · cases hl
    · rename_i other
      rw [if_neg other, Table.get?_erase]
      have hr := h.live hm hl
      split
      · rename_i hn
        rw [← hn] at other
        exact absurd hr other
      · exact hr

/-- A new module takes the place that its name's module has left. -/
theorem InStep.register (h : p.InStep) (free : p.workspace.registered.get? n = none) {m : Module}
    (hname : m.name = n) (hlive : m.live = true) :
    ({ workspace := { p.workspace with registered := p.workspace.registered.put n p.modules.size }
       modules := p.modules.push m
       made := p.modules.size :: p.made } : Project).InStep where
  lt_size {id} hm := by
    rw [Row.size_push]
    rcases List.mem_cons.mp hm with rfl | hm
    · exact Nat.lt_succ_self _
    · exact Nat.lt_succ_of_lt (h.lt_size hm)
  registered {n' id} hr := by
    by_cases hn : n' = n
    · subst hn
      rw [Table.get?_put_self] at hr
      cases hr
      simp only [Project.name, IsLive, Row.get_push_self]
      exact ⟨List.mem_cons_self, hname, hlive⟩
    · rw [Table.get?_put_of_ne hn] at hr
      obtain ⟨hm, hn', hl⟩ := h.registered hr
      simp only [Project.name, IsLive, Row.get_push_of_ne (Nat.ne_of_lt (h.lt_size hm))]
      exact ⟨List.mem_cons_of_mem _ hm, hn', hl⟩
  live {id} hm hl := by
    by_cases hid : id = p.modules.size
    · subst hid
      simp only [Project.name, Row.get_push_self, hname, Table.get?_put_self]
    · have hm : id ∈ p.made := (List.mem_cons.mp hm).resolve_left hid
      simp only [Project.name, IsLive, Row.get_push_of_ne hid] at hl ⊢
      have hr := h.live hm hl
      have hn : (p.modules.get id).name ≠ n := by
        intro hn
        rw [Project.name, hn, free] at hr
        cases hr
      rw [Table.get?_put_of_ne hn]
      exact hr

theorem InStep.add (h : p.InStep) (n : String) (settings : Settings) :
    (p.took (p.workspace.add n settings p.modules)).InStep := by
  have registered := (h.remove n).register (n := n) (m := p.workspace.fresh n settings)
    (by rw [Table.get?_erase, if_pos rfl]) rfl rfl
  rw [Table.put_erase, Workspace.size_letGo] at registered
  -- the new module is made before the old one is let go
  have order : Workspace.letGo (p.modules.push (p.workspace.fresh n settings)) (p.workspace.registered.get? n) =
      (Workspace.letGo p.modules (p.workspace.registered.get? n)).push (p.workspace.fresh n settings) := by
    cases hr : p.workspace.registered.get? n with
    | none => rfl
    | some id => exact Row.modify_push_of_lt (h.lt_size (h.registered hr).1)
  rw [Workspace.add, order]
  exact registered

theorem InStep.close (h : p.InStep) :
    ({ p with
      workspace := (p.workspace.close p.modules).1
      modules := (p.workspace.close p.modules).2 } : Project).InStep := by
  have hmodules : (p.workspace.close p.modules).2 =
      (p.workspace.registered.entries.map (·.2)).foldl (fun ms id => Workspace.letGo ms (some id)) p.modules := by
    rw [Workspace.close, List.foldl_map]
  rw [hmodules]
  constructor
  case lt_size =>
    intro id hm
    rw [Workspace.size_letAllGo]
    exact h.lt_size hm
  case registered => exact fun hr => nomatch hr
  case live =>
    intro id hm hl
    simp only [IsLive, Workspace.get_letAllGo _ _ (h.lt_size hm)] at hl
    split at hl
    · cases hl
    · rename_i out
      exact absurd (Table.mem_values.mpr ⟨_, h.live hm hl⟩) out

theorem InStep.perform (h : p.InStep) (act : Act) : (p.perform act).InStep := by
  cases act with
  | add n settings => exact h.add n settings
  | replace n settings =>
      rw [Project.perform, Workspace.replace]
      split
      · rename_i r hr
        split at hr
        · cases hr
          exact h.add n settings
        · cases hr
      · exact h
  | remove n => exact h.remove n
  | close => exact h.close
  | reconfigure m settings =>
      refine h.of_same (Nat.le_of_eq (Row.size_modify _ _ _).symm) fun i hi => ?_
      rw [Row.get_modify hi]
      split
      · exact ⟨rfl, Iff.rfl⟩
      · exact ⟨rfl, Iff.rfl⟩
  | outside m =>
      refine h.of_same (by rw [Row.size_push]; exact Nat.le_succ _) fun i hi => ?_
      rw [Row.get_push_of_ne (Nat.ne_of_lt hi)]
      exact ⟨rfl, Iff.rfl⟩

theorem InStep.run (h : p.InStep) (acts : List Act) : (p.run acts).InStep := by
  induction acts generalizing p with
  | nil => exact h
  | cons act acts ih => exact ih (h.perform act)

/-! ## The modules of a workspace -/

theorem InStep.mem_modules (h : p.InStep) : id ∈ p.workspace.modules ↔ id ∈ p.made ∧ p.IsLive id := by
  have sorted : id ∈ p.workspace.modules ↔ id ∈ p.workspace.registered.entries.map (·.2) :=
    ((List.mergeSort_perm _ _).map _).mem_iff
  rw [sorted, Table.mem_values]
  constructor
  · rintro ⟨n, hr⟩
    obtain ⟨hm, -, hl⟩ := h.registered hr
    exact ⟨hm, hl⟩
  · rintro ⟨hm, hl⟩
    exact ⟨_, h.live hm hl⟩

theorem InStep.ascending_modules (h : p.InStep) : (p.workspace.modules.map p.name).Pairwise (· < ·) := by
  let sorted := p.workspace.registered.entries.mergeSort fun a b => a.1 ≤ b.1
  have perm : sorted.Perm p.workspace.registered.entries := List.mergeSort_perm _ _
  have keys : p.workspace.modules.map p.name = sorted.map (·.1) := by
    rw [Workspace.modules, List.map_map]
    refine List.map_congr_left fun e he => ?_
    exact (h.registered (Table.get?_eq_some_iff.mpr (perm.mem_iff.mp he))).2.1
  have le : (sorted.map (·.1)).Pairwise (· ≤ ·) := by
    have hp : sorted.Pairwise fun a b => decide (a.1 ≤ b.1) = true := List.pairwise_mergeSort
      (fun a b c hab hbc => by
        simp only [decide_eq_true_eq] at hab hbc ⊢
        exact String.le_trans hab hbc)
      (fun a b => by
        simp only [Bool.or_eq_true, decide_eq_true_eq]
        exact String.le_total a.1 b.1)
      p.workspace.registered.entries
    exact List.pairwise_map.mpr (hp.imp fun hab => of_decide_eq_true hab)
  have nodup : (sorted.map (·.1)).Nodup := (perm.map _).nodup_iff.mpr p.workspace.registered.unique
  rw [keys]
  exact (le.and nodup).imp fun ⟨hle, hne⟩ => Std.lt_of_le_of_ne hle hne

theorem InStep.unique (h : p.InStep) {j : ModuleId} (hi : i ∈ p.made) (hj : j ∈ p.made) (hn : p.name i = p.name j)
    (li : p.IsLive i) (lj : p.IsLive j) : i = j := by
  have ri := h.live hi li
  rw [hn, h.live hj lj] at ri
  exact (Option.some.inj ri).symm

theorem InStep.live_iff (h : p.InStep) (hm : id ∈ p.made) :
    p.IsLive id ↔ p.workspace.module? (p.name id) = some id :=
  ⟨h.live hm, fun hr => (h.registered hr).2.2⟩

theorem replace_of_unknown (settings : Settings) (h : p.workspace.module? n = none) :
    p.workspace.replace n settings p.modules = .error (.unavailable n "not part of the workspace") := by
  have hno : p.workspace.registered.has n = false := by
    rw [Table.has, Option.isSome_eq_false_iff, Option.isNone_iff_eq_none]
    exact h
  rw [Workspace.replace, hno]
  rfl

/-- After any acts, a module that the workspace made is live exactly when it is the one registered under its own
name, so each name has at most one live module. The workspace lists the live ones by ascending name. What is not
there cannot be replaced, and trying to changes nothing. -/
theorem live_iff_registered (root : Path) (modules : Row Module) (acts : List Act) :
    let p := (opened root modules).run acts
    (∀ id ∈ p.made, p.IsLive id ↔ p.workspace.module? (p.name id) = some id) ∧
      (∀ i ∈ p.made, ∀ j ∈ p.made, p.name i = p.name j → p.IsLive i → p.IsLive j → i = j) ∧
      (∀ id, id ∈ p.workspace.modules ↔ id ∈ p.made ∧ p.IsLive id) ∧
      (p.workspace.modules.map p.name).Pairwise (· < ·) ∧
      ∀ n settings, p.workspace.module? n = none →
        p.workspace.replace n settings p.modules = .error (.unavailable n "not part of the workspace") ∧
          p.perform (.replace n settings) = p := by
  intro p
  have h : p.InStep := (opened_inStep root modules).run acts
  refine ⟨fun _ => h.live_iff, fun i hi j hj => h.unique hi hj, fun _ => h.mem_modules, h.ascending_modules, ?_⟩
  intro n settings hn
  have refused := replace_of_unknown settings hn
  refine ⟨refused, ?_⟩
  rw [perform, refused]

/-- Names are used again after a module of theirs was replaced or removed, and after the workspace was closed. -/
def reused : List Act :=
  [.add "app" {}, .add "lib" {}, .replace "app" {}, .outside { name := "app", path := ⟨[]⟩ }, .remove "lib",
    .close, .add "lib" {}, .add "app" {}, .add "lib" {}, .reconfigure 5 { kind := .platform }]

theorem live_iff_registered_of_reused :
    let p := (opened ⟨[]⟩ {}).run reused
    p.made = [6, 5, 4, 2, 1, 0] ∧ (∀ id, id ∈ p.workspace.modules ↔ id = 5 ∨ id = 6) ∧
      p.perform (.replace "test" {}) = p := by
  intro p
  obtain ⟨-, -, listed, -, refused⟩ := live_iff_registered ⟨[]⟩ {} reused
  have made : p.made = [6, 5, 4, 2, 1, 0] := by decide
  refine ⟨made, fun id => ?_, (refused "test" {} (by decide)).2⟩
  rw [listed id, made]
  have live : ∀ id ∈ [6, 5, 4, 2, 1, 0], p.IsLive id ↔ id = 5 ∨ id = 6 := by decide
  constructor
  · rintro ⟨hm, hl⟩
    exact (live id hm).mp hl
  · rintro (rfl | rfl)
    · exact ⟨by decide, (live 5 (by decide)).mpr (Or.inl rfl)⟩
    · exact ⟨by decide, (live 6 (by decide)).mpr (Or.inr rfl)⟩

end Project

end ClassScope
