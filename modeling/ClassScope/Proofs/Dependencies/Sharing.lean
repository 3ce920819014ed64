import ClassScope.Dependencies
import ClassScope.Module.Basic
import ClassScope.Proofs.Clears
import ClassScope.Proofs.Table
import Mathlib.Data.Finset.Sort
import Mathlib.Data.List.Induction

/-!
# Who shares a dependency set

Requests share a set when they name the same paths, however these are spelled, listed and repeated, and never
when they name different ones; so as many sets are known as different sets of paths were requested.
-/

namespace ClassScope

/-! ## Keys of path sets -/

namespace PathSet

/-- The paths that a list names, whatever their spelling, order and number. -/
def named (ps : List Path) : Finset (List Path.Component) :=
  (ps.map Path.components).toFinset

variable {ps qs : List Path} {k : List Path.Component}

theorem mem_named : k ∈ named ps ↔ ∃ p ∈ ps, p.components = k := by
  rw [named, List.mem_toFinset, List.mem_map]

theorem mem_key_ofFirst : k ∈ (ofFirst ps).key ↔ k ∈ named ps := by
  rw [mem_named, key, List.mem_map]
  constructor
  · rintro ⟨p, hp, rfl⟩
    obtain ⟨q, hq, hpq⟩ := names_ofFirst.mp ⟨p, hp, rfl⟩
    exact ⟨q, hq, hpq.symm⟩
  · rintro ⟨p, hp, rfl⟩
    obtain ⟨q, hq, hpq⟩ := names_ofFirst.mpr ⟨p, hp, rfl⟩
    exact ⟨q, hq, hpq.symm⟩

theorem toFinset_key_ofFirst (ps : List Path) : (ofFirst ps).key.toFinset = named ps := by
  ext k
  rw [List.mem_toFinset, mem_key_ofFirst]

theorem map_code_key (s : PathSet) : s.key.map (List.map Path.Component.code) = s.paths.map Path.code := by
  rw [key, List.map_map]
  rfl

/-- A key is in order, so its members make it. -/
theorem key_eq_of_mem_iff {s t : PathSet} (h : ∀ k, k ∈ s.key ↔ k ∈ t.key) : s.key = t.key := by
  have codes : s.key.map (List.map Path.Component.code) = t.key.map (List.map Path.Component.code) := by
    rw [map_code_key, map_code_key]
    refine s.ascending.eq_of_mem_iff t.ascending fun c => ?_
    rw [← map_code_key, ← map_code_key, List.mem_map, List.mem_map]
    simp only [h]
  have injective : Function.Injective (List.map Path.Component.code) :=
    List.map_injective_iff.mpr fun _ _ => Path.Component.code_injective
  exact List.map_injective_iff.mpr injective codes

theorem key_ofFirst_eq_iff : (ofFirst ps).key = (ofFirst qs).key ↔ named ps = named qs := by
  constructor
  · intro h
    rw [← toFinset_key_ofFirst, h, toFinset_key_ofFirst]
  · intro h
    refine key_eq_of_mem_iff fun k => ?_
    rw [mem_key_ofFirst, mem_key_ofFirst, h]

end PathSet

/-! ## Requests -/

namespace Dependencies

open PathSet (named ofFirst)

inductive Call where
  | listed (paths : List Path)
  /-- Through a module, which is asked for its list first. -/
  | declared (answer : Except ModuleError (List Path))
  /-- Without a module. -/
  | absent
  | clear

def Call.paths? : Call → Option (List Path)
  | .listed paths | .declared (.ok paths) => some paths
  | .declared (.error _) | .absent | .clear => none

def Call.isClear : Call → Bool
  | .clear => true
  | .listed _ | .declared _ | .absent => false

structure Moment where
  disk : Disk
  call : Call

/-- The set that is handed out, if one is, and the sets known from then on. -/
def perform (ds : Dependencies) (m : Moment) : Option SharedSet × Dependencies :=
  match m.call with
  | .listed paths | .declared (.ok paths) => (ds.classes paths m.disk).1.map some id
  | .declared (.error _) => (none, ds)
  | .absent => (ds.single ∅).map some id
  | .clear => (none, ds.clear)

/-- The sets of a resolver after some calls. -/
def used (index : Option Path) (ms : List Moment) : Dependencies :=
  ms.foldl (fun ds m => (ds.perform m).2) { index := index }

/-- The set that a call hands out after some others. -/
def handed? (index : Option Path) (before : List Moment) (m : Moment) : Option SharedSet :=
  ((used index before).perform m).1

/-- The sets of paths that were requested since the last clear, by a list or through a module. -/
def requested (ms : List Moment) : Set (Finset (List Path.Component)) :=
  named '' {ps | ∃ m ∈ sinceClear (·.call.isClear) ms, m.call.paths? = some ps}

variable {index : Option Path} {ms : List Moment} {m : Moment} {ds ds' : Dependencies} {ps qs : List Path}
  {r : Option SharedSet} {s t : SharedSet} {k j : List (List Path.Component)}

theorem used_concat (index : Option Path) (ms : List Moment) (m : Moment) :
    used index (ms ++ [m]) = ((used index ms).perform m).2 := by
  rw [used, List.foldl_concat]
  rfl

theorem used_append_cons (index : Option Path) (before between : List Moment) (m : Moment) :
    used index (before ++ m :: between) =
      between.foldl (fun ds m => (ds.perform m).2) ((used index before).perform m).2 := by
  rw [used, List.foldl_append, List.foldl_cons]
  rfl

/-! ## One call -/

/-- What a call does to the known sets, and what it hands out. -/
inductive Performs (ds : Dependencies) (m : Moment) : Option SharedSet → Dependencies → Prop where
  | known {ps : List Path} {s : SharedSet} (paths : m.call.paths? = some ps)
      (clear : m.call.isClear = false) (hit : ds.known.get? (ofFirst ps).key = some s) : Performs ds m (some s) ds
  | scanned {ps : List Path} {c : ClassNameSet} (paths : m.call.paths? = some ps)
      (clear : m.call.isClear = false) (miss : ds.known.get? (ofFirst ps).key = none) :
      Performs ds m (some ⟨ds.made, c⟩)
        { ds with known := ds.known.put (ofFirst ps).key ⟨ds.made, c⟩, made := ds.made + 1 }
  | unlisted {r : Option SharedSet} {made : Nat} (paths : m.call.paths? = none)
      (clear : m.call.isClear = false) (made_le : ds.made ≤ made) : Performs ds m r { ds with made }
  | clear (paths : m.call.paths? = none) (clear : m.call.isClear = true) : Performs ds m none ds.clear

theorem performs_classes (paths : m.call.paths? = some ps) (clear : m.call.isClear = false) (d : Disk) :
    Performs ds m (some (ds.classes ps d).1.1) (ds.classes ps d).1.2 := by
  cases hk : ds.known.get? (ofFirst ps).key with
  | some s =>
      have he : ds.classes ps d = ((s, ds), d) := by
        simp only [classes, hk]
        rfl
      rw [he]
      exact .known paths clear hk
  | none =>
      let out := Scan.all ds.index (ofFirst ps).toList d
      have he : ds.classes ps d = ((⟨ds.made, out.1.classes⟩, { ds with
          known := ds.known.put (ofFirst ps).key ⟨ds.made, out.1.classes⟩, made := ds.made + 1 }), out.2) := by
        simp only [classes, hk]
        rfl
      rw [he]
      exact .scanned paths clear hk

theorem performs_perform (ds : Dependencies) (m : Moment) :
    Performs ds m (ds.perform m).1 (ds.perform m).2 := by
  obtain ⟨d, call⟩ := m
  cases call with
  | listed paths => exact performs_classes rfl rfl d
  | declared answer =>
      cases answer with
      | ok paths => exact performs_classes rfl rfl d
      | error e => exact .unlisted rfl rfl (Nat.le_refl ds.made)
  | absent => exact .unlisted rfl rfl (Nat.le_succ ds.made)
  | clear => exact .clear rfl rfl

theorem Performs.of_paths (h : Performs ds m r ds') (paths : m.call.paths? = some ps) :
    ∃ s, r = some s ∧ ds'.known.get? (ofFirst ps).key = some s := by
  cases h with
  | known hps clear hit =>
      cases hps.symm.trans paths
      exact ⟨_, rfl, hit⟩
  | scanned hps clear miss =>
      cases hps.symm.trans paths
      exact ⟨_, rfl, Table.get?_put_self⟩
  | unlisted hps => cases hps.symm.trans paths
  | clear hps => cases hps.symm.trans paths

theorem Performs.keeps (h : Performs ds m r ds') (hc : m.call.isClear = false)
    (hk : ds.known.get? k = some s) : ds'.known.get? k = some s := by
  cases h with
  | known => exact hk
  | @scanned ps c paths clear miss =>
      have hne : k ≠ (ofFirst ps).key := by
        rintro rfl
        cases hk.symm.trans miss
      rw [Table.get?_put_of_ne hne, hk]
  | unlisted => exact hk
  | clear paths clear => cases hc.symm.trans clear

theorem Performs.has_iff (h : Performs ds m r ds') : ds'.known.has k = true ↔ m.call.isClear = false ∧
    ((∃ ps, m.call.paths? = some ps ∧ (ofFirst ps).key = k) ∨ ds.known.has k = true) := by
  cases h with
  | known paths clear hit =>
      simp only [clear, paths, true_and, Option.some.injEq, exists_eq_left', iff_or_self]
      rintro rfl
      exact Table.has_of_get? hit
  | scanned paths clear miss =>
      simp only [clear, paths, true_and, Option.some.injEq, exists_eq_left', Table.has_put]
      exact or_congr_left eq_comm
  | unlisted paths clear => simp [clear, paths]
  | clear paths clear => simp [clear, Dependencies.clear]

/-! ## Owners -/

/-- Each number stands for one known set, and the numbers to come are larger. -/
structure Distinct (ds : Dependencies) : Prop where
  bound : ∀ {k s}, ds.known.get? k = some s → s.id < ds.made
  key : ∀ {k j s t}, ds.known.get? k = some s → ds.known.get? j = some t → s.id = t.id → k = j

/-- Nothing but one key can ever hold a set of this number. -/
structure Owns (k : List (List Path.Component)) (id : Nat) (ds : Dependencies) : Prop where
  made : id < ds.made
  key : ∀ {j t}, ds.known.get? j = some t → t.id = id → j = k

theorem Distinct.of_empty (h : ds.known = ∅) : ds.Distinct := by
  have none {k s} (hk : ds.known.get? k = some s) : False := by
    rw [h] at hk
    cases hk
  exact ⟨fun hk => (none hk).elim, fun hk => (none hk).elim⟩

theorem Performs.distinct (h : Performs ds m r ds') (hd : ds.Distinct) : ds'.Distinct := by
  cases h with
  | known => exact hd
  | @scanned ps c paths clear miss =>
      have cases {k s} (hk : (ds.known.put (ofFirst ps).key ⟨ds.made, c⟩).get? k = some s) :
          (k = (ofFirst ps).key ∧ s.id = ds.made) ∨ ds.known.get? k = some s := by
        by_cases hkey : k = (ofFirst ps).key
        · subst hkey
          rw [Table.get?_put_self] at hk
          cases hk
          exact .inl ⟨rfl, rfl⟩
        · rw [Table.get?_put_of_ne hkey] at hk
          exact .inr hk
      refine ⟨fun hk => ?_, fun hk hj hid => ?_⟩
      · rcases cases hk with ⟨-, hs⟩ | hk
        · exact hs.symm ▸ Nat.lt_succ_self ds.made
        · exact Nat.lt_succ_of_lt (hd.bound hk)
      · rcases cases hk with ⟨rfl, hs⟩ | hk
        · rcases cases hj with ⟨rfl, -⟩ | hj
          · rfl
          · exact absurd (hd.bound hj) (by omega)
        · rcases cases hj with ⟨rfl, ht⟩ | hj
          · exact absurd (hd.bound hk) (by omega)
          · exact hd.key hk hj hid
  | unlisted paths clear made_le =>
      exact ⟨fun hk => Nat.lt_of_lt_of_le (hd.bound hk) made_le, hd.key⟩
  | clear => exact .of_empty rfl

theorem Performs.owns {id : Nat} (h : Performs ds m r ds') (ho : Owns k id ds) : Owns k id ds' := by
  cases h with
  | known => exact ho
  | @scanned ps c paths clear miss =>
      refine ⟨Nat.lt_succ_of_lt ho.made, fun {j t} hj hid => ?_⟩
      by_cases hkey : j = (ofFirst ps).key
      · subst hkey
        rw [Table.get?_put_self] at hj
        cases hj
        exact absurd ho.made (Nat.ne_of_gt · hid)
      · rw [Table.get?_put_of_ne hkey] at hj
        exact ho.key hj hid
  | unlisted paths clear made_le => exact ⟨Nat.lt_of_lt_of_le ho.made made_le, ho.key⟩
  | clear => exact ⟨ho.made, fun hj => by cases hj⟩

theorem Distinct.owns (hd : ds.Distinct) (hk : ds.known.get? k = some s) : Owns k s.id ds :=
  ⟨hd.bound hk, fun hj hid => hd.key hj hk hid⟩

/-! ## All calls -/

theorem distinct_used (index : Option Path) (ms : List Moment) : (used index ms).Distinct := by
  induction ms using List.reverseRecOn with
  | nil => exact .of_empty rfl
  | append_singleton ms m ih =>
      rw [used_concat]
      exact (performs_perform _ m).distinct ih

theorem owns_foldl {id : Nat} (ho : Owns k id ds) (ms : List Moment) :
    Owns k id (ms.foldl (fun ds m => (ds.perform m).2) ds) := by
  induction ms generalizing ds with
  | nil => exact ho
  | cons m ms ih => exact ih ((performs_perform ds m).owns ho)

theorem keeps_foldl (hk : ds.known.get? k = some s) (ms : List Moment)
    (hc : ∀ m ∈ ms, m.call.isClear = false) :
    (ms.foldl (fun ds m => (ds.perform m).2) ds).known.get? k = some s := by
  induction ms generalizing ds with
  | nil => exact hk
  | cons m ms ih =>
      exact ih ((performs_perform ds m).keeps (hc m List.mem_cons_self) hk)
        fun n hn => hc n (List.mem_cons_of_mem m hn)

theorem has_used (index : Option Path) (ms : List Moment) (k : List (List Path.Component)) :
    (used index ms).known.has k = true ↔
      ∃ ps, (∃ m ∈ sinceClear (·.call.isClear) ms, m.call.paths? = some ps) ∧ (ofFirst ps).key = k := by
  induction ms using List.reverseRecOn with
  | nil =>
      refine ⟨fun h => Bool.noConfusion h, ?_⟩
      rintro ⟨ps, ⟨m, hm, -⟩, -⟩
      exact absurd hm List.not_mem_nil
  | append_singleton ms m ih =>
      rw [used_concat, (performs_perform _ m).has_iff, ih, sinceClear_concat]
      cases m.call.isClear with
      | true => simp
      | false => simp [or_and_right, exists_or, or_comm]

theorem size_used (index : Option Path) (ms : List Moment) :
    (used index ms).size = Set.ncard (requested ms) := by
  have keys : {k | (used index ms).known.has k = true} =
      (fun ps => (ofFirst ps).key) '' {ps | ∃ m ∈ sinceClear (·.call.isClear) ms, m.call.paths? = some ps} := by
    ext k
    exact has_used index ms k
  have sets : requested ms = List.toFinset '' {k | (used index ms).known.has k = true} := by
    rw [keys, Set.image_image, requested]
    simp only [PathSet.toFinset_key_ofFirst]
  rw [sets, size, Table.size_eq_ncard, Set.InjOn.ncard_image]
  rw [keys]
  rintro _ ⟨ps, -, rfl⟩ _ ⟨qs, -, rfl⟩ h
  simp only [PathSet.toFinset_key_ofFirst] at h
  exact PathSet.key_ofFirst_eq_iff.mpr h

/-- Of any two requests in any use, those that name different sets of paths get different sets, and those
that name the same get the same unless all were forgotten in between. As many sets are known as different
sets of paths were requested since they were last forgotten. -/
theorem sets_shared_by_named (index : Option Path) :
    (∀ (before between : List Moment) (m n : Moment) (ps qs : List Path),
      m.call.paths? = some ps → n.call.paths? = some qs →
      ∃ s t, handed? index before m = some s ∧ handed? index (before ++ m :: between) n = some t ∧
        (named ps ≠ named qs → s.id ≠ t.id) ∧
        (named ps = named qs → (∀ x ∈ between, x.call.isClear = false) → s = t)) ∧
    ∀ ms, (used index ms).size = Set.ncard (requested ms) := by
  refine ⟨fun before between m n ps qs hm hn => ?_, size_used index⟩
  have first := performs_perform (used index before) m
  have second := performs_perform (used index (before ++ m :: between)) n
  obtain ⟨s, hs, hks⟩ := first.of_paths hm
  obtain ⟨t, ht, hkt⟩ := second.of_paths hn
  refine ⟨s, t, hs, ht, fun hne hid => ?_, fun heq hc => ?_⟩
  · have owns : Owns (ofFirst ps).key s.id ((used index (before ++ m :: between)).perform n).2 := by
      refine second.owns ?_
      rw [used_append_cons]
      exact owns_foldl ((first.distinct (distinct_used index before)).owns hks) between
    exact hne (PathSet.key_ofFirst_eq_iff.mp (owns.key hkt hid.symm).symm)
  · have kept : (used index (before ++ m :: between)).known.get? (ofFirst qs).key = some s := by
      rw [used_append_cons, ← PathSet.key_ofFirst_eq_iff.mpr heq]
      exact keeps_foldl hks between hc
    have hc : n.call.isClear = false := by
      cases hn' : n.call with
      | listed paths => rfl
      | declared answer => rfl
      | absent => rfl
      | clear => rw [hn'] at hn; cases hn
    exact Option.some.inj ((second.keeps hc kept).symm.trans hkt)

def library : Path :=
  .ofString "lib"

def librarySlash : Path :=
  .ofString "lib//"

def hereLibrary : Path :=
  .ofString "./lib"

def listing (paths : List Path) : Moment :=
  ⟨.empty 0, .listed paths⟩

def declaring (paths : List Path) : Moment :=
  ⟨.empty 1, .declared (.ok paths)⟩

/-- A slash at the end makes no other path, a dot at the start does. -/
theorem sets_shared_by_named_of_spellings :
    (∃ s t, handed? none [] (listing [library]) = some s ∧
      handed? none [listing [library]] (declaring [librarySlash, library]) = some t ∧ s = t) ∧
    (∃ s t, handed? none [] (listing [library]) = some s ∧
      handed? none [listing [library]] (declaring [hereLibrary]) = some t ∧ s.id ≠ t.id) := by
  obtain ⟨share, -⟩ := sets_shared_by_named none
  have same : named [library] = named [librarySlash, library] := by decide +kernel
  have other : named [library] ≠ named [hereLibrary] := by decide +kernel
  obtain ⟨s, t, hs, ht, -, shared⟩ :=
    share [] [] (listing [library]) (declaring [librarySlash, library]) _ _ rfl rfl
  obtain ⟨s', t', hs', ht', apart, -⟩ :=
    share [] [] (listing [library]) (declaring [hereLibrary]) _ _ rfl rfl
  exact ⟨⟨s, t, hs, ht, shared same fun _ hx => absurd hx List.not_mem_nil⟩, s', t', hs', ht', apart other⟩

end Dependencies

end ClassScope
