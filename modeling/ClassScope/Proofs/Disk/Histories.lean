import ClassScope.Proofs.Disk.Writes
import Mathlib.Data.List.Nodup
import Mathlib.Logic.Relation

/-!
# Histories of a disk

Each step from outside is made of single changes: an entry is made in a directory, one that is no directory is written
over, or an entry is erased with all below it. On every disk that comes about so, each entry stands in a directory.
-/

namespace ClassScope.Disk

variable {d d' d₁ : Disk} {loc dir l : Location} {name : Bytes} {e : Entry} {p : Path} {goal : Goal}

/-! ## Directories and other entries -/

/-- Whether a directory stands at a location or something else, if anything does. -/
def kind? (d : Disk) (loc : Location) : Option Bool :=
  (d.entry? loc).map Entry.isDir

theorem kind?_nil : d.kind? [] = some true :=
  rfl

theorem kind?_eq_none_iff : d.kind? loc = none ↔ d.entry? loc = none :=
  Option.map_eq_none_iff

theorem kind?_of_entry (h : d.entry? loc = some e) : d.kind? loc = some e.isDir := by
  rw [kind?, h, Option.map_some]

theorem exists_dir_of_kind? (h : d.kind? loc = some true) : ∃ m, d.entry? loc = some (.dir m) := by
  obtain ⟨e, he, hdir⟩ := Option.map_eq_some_iff.mp h
  cases e with
  | dir m => exact ⟨m, he⟩
  | file content m x => cases hdir
  | link target m => cases hdir

@[simp] theorem Entry.isDir_withModified (e : Entry) (m : Int) : (e.withModified m).isDir = e.isDir := by
  cases e <;> rfl

/-! ## What the changes change -/

theorem entry?_stamp (hl : l ≠ []) :
    entry? (d.stamp loc) l = if l = loc then (d.entry? l).map (Entry.withModified d.now) else d.entry? l := by
  rw [entry?_of_ne_nil hl, entry?_of_ne_nil hl, stamp]
  cases hk : d.entries.lookup loc with
  | none =>
      dsimp only
      split
      case isTrue h =>
          rw [h, hk]
          rfl
      case isFalse => rfl
  | some old =>
      simp only [put, hk, Option.isSome_some, if_true, lookup_replace]
      split
      case isTrue h =>
          rw [h, hk]
          rfl
      case isFalse => rfl

@[simp] theorem kind?_stamp : (d.stamp loc).kind? l = d.kind? l := by
  by_cases hl : l = []
  · rw [hl]
    rfl
  rw [kind?, kind?, entry?_stamp hl]
  split
  · cases d.entry? l with
    | none => rfl
    | some e => exact congrArg some (e.isDir_withModified _)
  · rfl

theorem kind?_put (hloc : loc ≠ []) : (d.put loc e).kind? l = if l = loc then some e.isDir else d.kind? l := by
  rw [kind?, entry?_put hloc]
  split <;> rfl

theorem entry?_create :
    entry? (d.create dir name e) l = if l = dir ++ [name] then some e else entry? (d.stamp dir) l :=
  entry?_put (by simp)

theorem kind?_create :
    (d.create dir name e).kind? l = if l = dir ++ [name] then some e.isDir else d.kind? l := by
  rw [create, kind?_put (by simp), kind?_stamp]

/-- A disk without what stands at a location and below it. -/
def without (loc : Location) (d : Disk) : Disk :=
  { d with entries := d.entries.filter fun x => ¬ loc.isPrefixOf x.1 }

theorem erase_eq : d.erase loc = (d.without loc).stamp loc.dropLast :=
  rfl

theorem entry?_without (hl : l ≠ []) : entry? (d.without loc) l = if loc <+: l then none else d.entry? l := by
  rw [entry?_of_ne_nil hl, entry?_of_ne_nil hl]
  refine (lookup_filter (fun k => decide (¬ loc.isPrefixOf k = true)) d.entries).trans ?_
  simp only [List.isPrefixOf_iff_prefix, decide_not, Bool.not_eq_true', decide_eq_false_iff_not, ite_not]

theorem entry?_erase (hl : l ≠ []) : entry? (d.erase loc) l =
    if loc <+: l then none
    else if l = loc.dropLast then (d.entry? l).map (Entry.withModified d.now) else d.entry? l := by
  rw [erase_eq, entry?_stamp hl, entry?_without hl]
  by_cases h : loc <+: l
  · simp only [if_pos h, Option.map_none, ite_self]
  · simp only [if_neg h]
    rfl

theorem kind?_erase (hl : l ≠ []) : (d.erase loc).kind? l = if loc <+: l then none else d.kind? l := by
  rw [kind?, kind?, entry?_erase hl]
  split
  · rfl
  · split
    · cases d.entry? l with
      | none => rfl
      | some e => exact congrArg some (e.isDir_withModified _)
    · rfl

/-! ## Disks on which everything stands in a directory -/

/-- Where a walk may stand: in a directory, or in the base even when it is gone. -/
def Stands (d : Disk) (dir : Location) : Prop :=
  dir = d.base ∨ d.kind? dir = some true

def locations (d : Disk) : List Location :=
  d.entries.map (·.1)

/-- Each location is listed once, and each entry stands in a directory. -/
structure Rooted (d : Disk) : Prop where
  unique : d.locations.Nodup
  /-- The root has no entry. -/
  root : [] ∉ d.locations
  /-- The base stands at the root. -/
  base : d.base.dropLast = []
  parent : ∀ loc b, d.kind? loc = some b → d.Stands loc.dropLast

theorem mem_iff_lookup {entries : List (Location × Entry)} (h : (entries.map (·.1)).Nodup) :
    (l, e) ∈ entries ↔ entries.lookup l = some e := by
  induction entries with
  | nil => simp
  | cons x entries ih =>
      obtain ⟨k, old⟩ := x
      rw [List.map_cons, List.nodup_cons] at h
      rw [List.mem_cons, ih h.2, List.lookup_cons]
      by_cases hk : l = k
      · subst hk
        have absent : entries.lookup l = none := by
          rw [List.lookup_eq_none_iff]
          rintro ⟨k, old⟩ hx
          have hne : l ≠ k := fun heq => h.1 (heq ▸ List.mem_map_of_mem (f := (·.1)) hx)
          simpa using hne
        rw [absent]
        simp [eq_comm]
      · have hb : (l == k) = false := beq_false_of_ne hk
        simp [hb, hk]

theorem Rooted.mem_iff (h : d.Rooted) (hl : l ≠ []) : (l, e) ∈ d.entries ↔ d.entry? l = some e := by
  rw [mem_iff_lookup h.unique, entry?_of_ne_nil hl]

theorem Rooted.stands_up (h : d.Rooted) (hs : d.Stands dir) : d.Stands dir.dropLast := by
  rcases hs with rfl | hk
  · rw [h.base]
    exact Or.inr kind?_nil
  · exact h.parent dir true hk

/-- A single change. A directory that is made has the time of the clock. -/
inductive Change (d : Disk) : Disk → Prop where
  | create {dir : Location} {name : Bytes} {e : Entry} (stands : d.Stands dir)
      (vacant : d.entry? (dir ++ [name]) = none) (fresh : e.isDir = true → e.modified = d.now) :
      Change d (d.create dir name e)
  | rewrite {loc : Location} {e e' : Entry} (here : d.entry? loc = some e) (old : e.isDir = false)
      (new : e'.isDir = false) : Change d (d.put loc e')
  | erase {loc : Location} {e : Entry} (here : d.entry? loc = some e) : Change d (d.erase loc)

abbrev Changes : Disk → Disk → Prop :=
  Relation.ReflTransGen Change

theorem now_put : (d.put loc e).now = d.now := by
  rw [put]
  split <;> rfl

theorem now_stamp : (d.stamp loc).now = d.now := by
  rw [stamp]
  split
  · exact now_put
  · rfl

theorem Change.now_eq (h : Change d d') : d'.now = d.now := by
  cases h with
  | create => exact now_put.trans now_stamp
  | rewrite => exact now_put
  | erase => exact now_stamp

theorem locations_put :
    (d.put loc e).locations = if (d.entries.lookup loc).isSome then d.locations else d.locations ++ [loc] := by
  rw [put]
  split
  · rw [locations, List.map_map]
    refine List.map_congr_left fun x _ => ?_
    obtain ⟨l, old⟩ := x
    by_cases hl : l = loc
    · simp [hl]
    · simp [hl]
  · simp [locations]

theorem locations_stamp : (d.stamp loc).locations = d.locations := by
  rw [stamp]
  split
  case h_1 e h => rw [locations_put, h, Option.isSome_some, if_pos rfl]
  case h_2 => rfl

theorem locations_erase : (d.erase loc).locations = d.locations.filter fun l => ¬ loc.isPrefixOf l := by
  rw [erase, locations_stamp, locations, locations, List.filter_map]
  rfl

theorem notMem_locations_iff (hl : l ≠ []) : l ∉ d.locations ↔ d.entry? l = none := by
  rw [entry?_of_ne_nil hl, List.lookup_eq_none_iff, locations, List.mem_map]
  simp only [not_exists, not_and]
  exact ⟨fun h x hx => bne_iff_ne.mpr fun heq => h x hx heq.symm,
    fun h x hx heq => bne_iff_ne.mp (h x hx) heq.symm⟩

theorem Stands.of_kind? (hs : d.Stands dir) (base : d'.base = d.base)
    (kind : d.kind? dir = some true → d'.kind? dir = some true) : d'.Stands dir := by
  rcases hs with rfl | hk
  · exact Or.inl base.symm
  · exact Or.inr (kind hk)

/-- Nothing changes between what is a directory and what is not when something is written over. -/
theorem kind?_rewrite {e' : Entry} (here : d.entry? loc = some e) (old : e.isDir = false) (new : e'.isDir = false)
    (l : Location) : (d.put loc e').kind? l = d.kind? l := by
  rw [kind?_put (ne_nil_of_entry here old)]
  split
  case isTrue h => rw [h, kind?_of_entry here, old, new]
  case isFalse => rfl

theorem Rooted.create (h : d.Rooted) (stands : d.Stands dir) (vacant : d.entry? (dir ++ [name]) = none) :
    (d.create dir name e).Rooted := by
  have hne : dir ++ [name] ≠ [] := by simp
  have absent : entry? (d.stamp dir) (dir ++ [name]) = none := by
    rw [entry?_stamp hne, vacant, Option.map_none, ite_self]
  have locations : (d.create dir name e).locations = d.locations ++ [dir ++ [name]] := by
    rw [entry?_of_ne_nil hne] at absent
    rw [Disk.create, locations_put, absent, locations_stamp]
    rfl
  have base : (d.create dir name e).base = d.base := base_put.trans base_stamp
  have kept (l : Location) (hl : d.Stands l) : (d.create dir name e).Stands l := by
    refine hl.of_kind? base fun hk => ?_
    rw [kind?_create, if_neg, hk]
    rintro rfl
    rw [kind?_eq_none_iff.mpr vacant] at hk
    cases hk
  refine ⟨?_, ?_, base ▸ h.base, fun l b hb => ?_⟩
  · rw [locations, ← List.concat_eq_append]
    exact h.unique.concat ((notMem_locations_iff hne).mpr vacant)
  · rw [locations, List.mem_append, List.mem_singleton]
    rintro (hroot | hroot)
    · exact h.root hroot
    · exact hne hroot.symm
  · rw [kind?_create] at hb
    split at hb
    case isTrue hl =>
        rw [hl, List.dropLast_concat]
        exact kept dir stands
    case isFalse => exact kept _ (h.parent l b hb)

theorem Rooted.rewrite {e' : Entry} (h : d.Rooted) (here : d.entry? loc = some e) (old : e.isDir = false)
    (new : e'.isDir = false) : (d.put loc e').Rooted := by
  have locations : (d.put loc e').locations = d.locations := by
    have hlookup := here
    rw [entry?_of_ne_nil (ne_nil_of_entry here old)] at hlookup
    rw [locations_put, hlookup, Option.isSome_some, if_pos rfl]
  have base : (d.put loc e').base = d.base := base_put
  refine ⟨locations ▸ h.unique, locations ▸ h.root, base ▸ h.base, fun l b hb => ?_⟩
  rw [kind?_rewrite here old new] at hb
  exact (h.parent l b hb).of_kind? base fun hk => (kind?_rewrite here old new _).trans hk

theorem Rooted.erase (h : d.Rooted) : (d.erase loc).Rooted := by
  have base : (d.erase loc).base = d.base := base_stamp
  refine ⟨?_, ?_, base ▸ h.base, fun l b hb => ?_⟩
  · rw [locations_erase]
    exact h.unique.filter _
  · rw [locations_erase]
    exact fun hroot => h.root (List.mem_of_mem_filter hroot)
  by_cases hl : l = []
  · rw [hl]
    exact Or.inr kind?_nil
  rw [kind?_erase hl] at hb
  split at hb
  case isTrue => cases hb
  case isFalse outside =>
      refine (h.parent l b hb).of_kind? base fun hk => ?_
      by_cases hparent : l.dropLast = []
      · rw [hparent]
        exact kind?_nil
      · rw [kind?_erase hparent, if_neg, hk]
        exact fun habove => outside (habove.trans (List.dropLast_prefix l))

theorem Change.rooted (h : Change d d') (hd : d.Rooted) : d'.Rooted := by
  cases h with
  | create stands vacant _ => exact hd.create stands vacant
  | rewrite here old new => exact hd.rewrite here old new
  | erase _ => exact hd.erase

theorem changes_now_eq (h : Changes d d') : d'.now = d.now := by
  induction h with
  | refl => rfl
  | tail _ last ih => exact last.now_eq.trans ih

theorem changes_rooted (h : Changes d d') (hd : d.Rooted) : d'.Rooted := by
  induction h with
  | refl => exact hd
  | tail _ last ih => exact last.rooted ih

/-! ## Where walks end -/

/-- What a walk ends beside stands where a walk may stand. -/
def Spot.Beside (d : Disk) : Spot → Prop
  | .found _ _ => True
  | .vacant dir _ => d.Stands dir

def Reach.Beside (d : Disk) : Reach → Prop
  | .spot s => s.Beside d
  | .failed _ => True
  | .link dir _ _ => d.Stands dir

theorem advance_beside (h : d.Rooted) {ts : List Token} (hs : d.Stands dir) :
    (d.advance goal dir ts).Beside d := by
  induction ts generalizing dir with
  | nil =>
      rw [advance]
      split
      · trivial
      · trivial
  | cons t ts ih =>
      cases t with
      | here => exact ih hs
      | slash => exact ih hs
      | up => exact ih (h.stands_up hs)
      | name n =>
          rw [advance]
          split
          · trivial
          split
          · trivial
          split
          case h_1 =>
              split
              · exact hs
              · trivial
          case h_2 hdir => exact ih (Or.inr (kind?_of_entry hdir))
          case h_3 =>
              split
              · trivial
              · trivial
          case h_4 =>
              split
              · trivial
              · exact hs

theorem walk_beside (h : d.Rooted) {links : Nat} {ts : List Token} {s : Spot} (hs : d.Stands dir)
    (hw : d.walk goal links dir ts = .ok s) : s.Beside d := by
  have ha : (d.advance goal dir ts).Beside d := advance_beside h hs
  induction links generalizing dir ts with
  | zero =>
      rw [walk] at hw
      generalize d.advance goal dir ts = r at ha hw
      cases r with
      | spot s =>
          cases hw
          exact ha
      | failed e => cases hw
      | link start target rest => cases hw
  | succ links ih =>
      rw [walk] at hw
      generalize d.advance goal dir ts = r at ha hw
      cases r with
      | spot s =>
          cases hw
          exact ha
      | failed e => cases hw
      | link start target rest =>
          have stands : d.Stands (if target.head? = some Path.slash then [] else start) := by
            split
            · exact Or.inr kind?_nil
            · exact ha
          exact ih stands hw (advance_beside h stands)

theorem locate_beside (h : d.Rooted) {s : Spot} (hl : d.locate goal p = .ok s) : s.Beside d := by
  rw [locate] at hl
  split at hl
  · cases hl
  split at hl
  · cases hl
  split at hl
  · cases hl
  refine walk_beside h ?_ hl
  split
  · exact Or.inr kind?_nil
  · exact Or.inl rfl

/-! ## Steps -/

theorem makeDir_change (h : d.Rooted) (hm : makeDir p d = .ok d') : Change d d' := by
  obtain ⟨dir, name, hs, rfl⟩ := exists_vacant_of_makeDir hm
  exact .create (locate_beside h hs) (locate_on hs) fun _ => rfl

theorem makeDirs_changes (h : d.Rooted) (p : Path) : Changes d ((makeDirs p).run.run d).2 :=
  makeLineage_induction (R := fun d d' => d.Rooted → Changes d d') (fun _ _ => .refl)
    (fun h h' hd => (h hd).trans (h' (changes_rooted (h hd) hd)))
    (fun hm hd => .single (makeDir_change hd hm)) _ d h

theorem makeParent_changes (h : d.Rooted) (p : Path) : Changes d ((makeParent p).run.run d).2 := by
  rw [makeParent]
  split
  · exact makeDirs_changes h _
  · exact .refl

theorem writeFile_changes (h : d.Rooted) (p : Path) (content : Bytes) (m : Int) (x : Bool) :
    Changes d ((writeFile p content m x).run.run d).2 := by
  rw [writeFile_run]
  split
  · exact .refl
  · rename_i dir name hs
    exact .single (.create (locate_beside h hs) (locate_on hs) nofun)
  · rename_i loc old m' before hs
    exact .single (.rewrite (locate_on hs) rfl rfl)
  · exact .refl

theorem makeLink_changes (h : d.Rooted) (p : Path) (target : Bytes) (m : Int) :
    Changes d ((makeLink p target m).run.run d).2 := by
  rw [makeLink]
  by_cases ht : target.isEmpty = true
  · rw [if_pos ht]
    exact .refl
  rw [if_neg ht, Edit.bind_run]
  change Changes d ((get >>= _ : Edit Unit).run.run d).2
  rw [Edit.get_bind]
  cases hs : d.locate .entry (withoutSlash p) with
  | error e => exact .refl
  | ok s =>
      cases s with
      | found loc e => exact .refl
      | vacant dir name =>
          dsimp only
          split
          · exact .single (.create (locate_beside h hs) (locate_on hs) nofun)
          · exact .refl

theorem entryAt_eq_ok (h : d.entryAt goal p = .ok (loc, e)) : d.locate goal p = .ok (.found loc e) := by
  rw [entryAt] at h
  cases hs : d.locate goal p with
  | error err =>
      rw [hs] at h
      cases h
  | ok s =>
      rw [hs] at h
      cases s with
      | found l e =>
          cases h
          rfl
      | vacant dir name => cases h

/-- The step gives no directory another time than the clock's. -/
def Spares (d : Disk) : FileStep → Prop
  | .touch p _ => ∀ loc e, d.entryAt .entry p = .ok (loc, e) → e.isDir = false
  | _ => True

theorem perform_changes (h : d.Rooted) (s : FileStep) (hs : d.Spares s) : Changes d ((perform s).run.run d).2 := by
  -- making the directories above, and then something else
  have parent (p : Path) {f : Unit → Edit Unit}
      (hf : ∀ d', d'.Rooted → Changes d' ((f ()).run.run d').2) :
      Changes d ((makeParent p >>= f).run.run d).2 := by
    have made := makeParent_changes h p
    rw [Edit.bind_run]
    generalize (makeParent p).run.run d = x at made
    obtain ⟨r, d'⟩ := x
    cases r with
    | error e => exact made
    | ok u => exact made.trans (hf d' (changes_rooted made h))
  cases s with
  | write p content modified executable =>
      refine parent p fun d' h' => ?_
      rw [Edit.get_bind]
      exact writeFile_changes h' p content _ executable
  | makeDir p => exact makeDirs_changes h p
  | remove p =>
      rw [perform, Edit.get_bind]
      cases hl : d.entryAt .entry p with
      | error e => exact .refl
      | ok x =>
          obtain ⟨loc, e⟩ := x
          exact .single (.erase (locate_on (entryAt_eq_ok hl)))
  | link p target modified =>
      refine parent p fun d' h' => ?_
      rw [Edit.get_bind]
      exact makeLink_changes h' p target _
  | touch p modified =>
      rw [perform, Edit.get_bind]
      cases hl : d.entryAt .entry p with
      | error e => exact .refl
      | ok x =>
          obtain ⟨loc, e⟩ := x
          have old := hs loc e hl
          exact .single (.rewrite (locate_on (entryAt_eq_ok hl)) old ((e.isDir_withModified _).trans old))

theorem Rooted.tick (h : d.Rooted) : Rooted { d with now := d.now + tick } :=
  ⟨h.unique, h.root, h.base, h.parent⟩

theorem step_changes (h : d.Rooted) {s : FileStep} (hs : Spares { d with now := d.now + tick } s) :
    Changes { d with now := d.now + tick } (d.step s).2 :=
  perform_changes h.tick s hs

/-- A history in which directories have no other times than those that the clock gives them. -/
def SparesDirs : Disk → List FileStep → Prop
  | _, [] => True
  | d, s :: steps => Spares { d with now := d.now + tick } s ∧ (d.step s).2.SparesDirs steps

end ClassScope.Disk
