import ClassScope.BootIndex
import ClassScope.Proofs.Scan.Plain

/-!
# What a boot index remembers

An index in use: entries are updated, looked up and forgotten, and between two calls anything may happen to
the disk. For each path the index remembers the last scan that could be made.
-/

namespace ClassScope.BootIndex

open Scan (found?)

inductive Call where
  | update (paths : List Path)
  | lookup (paths : List Path)
  | clear

def Call.paths : Call → List Path
  | update paths => paths
  | lookup paths => paths
  | clear => []

structure Moment where
  disk : Disk
  call : Call

/-- What scanning a path gives, in some spelling among those that the call names. -/
def Moment.finds? (m : Moment) (p : Path) : Option ClassNameSet :=
  (m.call.paths.filter (p.Same ·)).findSome? (found? m.disk)

def perform (b : BootIndex) (m : Moment) : BootIndex :=
  match m.call with
  | .update paths => (b.update paths m.disk).1
  | .lookup paths => (b.classes paths m.disk).1.2
  | .clear => b.clear

/-- The index after some calls, of a scanner that uses no index files. -/
def after (ms : List Moment) : BootIndex :=
  ms.foldl perform {}

def remember (p : Path) (last : Option ClassNameSet) (m : Moment) : Option ClassNameSet :=
  match m.call with
  | .clear => none
  | _ => (m.finds? p).or last

/-- What the last scan of a path gave that could be made, unless it was forgotten. -/
def remembered (ms : List Moment) (p : Path) : Option ClassNameSet :=
  ms.foldl (remember p) none

/-- A path that has the same stamp at two moments holds the same at both. -/
def Steady (ms : List Moment) : Prop :=
  ∀ m ∈ ms, ∀ n ∈ ms, ∀ p ∈ m.call.paths, p ∈ n.call.paths →
    ∀ s ∈ (Stamp.read m.disk p).toOption, s ∈ (Stamp.read n.disk p).toOption → found? m.disk p = found? n.disk p

instance (ms : List Moment) : Decidable (Steady ms) := by
  unfold Steady
  infer_instance

variable {ms : List Moment} {m : Moment} {b : BootIndex} {d : Disk} {p q : Path}

theorem after_concat (ms : List Moment) (m : Moment) : after (ms ++ [m]) = (after ms).perform m := by
  rw [after, List.foldl_concat]
  rfl

theorem remembered_concat (ms : List Moment) (m : Moment) (p : Path) :
    remembered (ms ++ [m]) p = remember p (remembered ms p) m := by
  rw [remembered, List.foldl_concat]
  rfl

theorem Steady.of_concat (h : Steady (ms ++ [m])) : Steady ms :=
  fun x hx y hy => h x (List.mem_append_left _ hx) y (List.mem_append_left _ hy)

/-! ## Scans -/

theorem Moment.exists_of_finds? {c : ClassNameSet} (h : m.finds? p = some c) :
    ∃ q ∈ m.call.paths, p.Same q ∧ found? m.disk q = some c := by
  obtain ⟨q, hq, hc⟩ := List.exists_of_findSome?_eq_some h
  obtain ⟨hq, hpq⟩ := List.mem_filter.mp hq
  exact ⟨q, hq, of_decide_eq_true hpq, hc⟩

theorem Moment.finds?_eq_none_iff :
    m.finds? p = none ↔ ∀ q ∈ m.call.paths, p.Same q → found? m.disk q = none := by
  simp [Moment.finds?, List.findSome?_eq_none_iff]

/-- Whatever spelling is scanned, it gives the same if it gives anything. -/
theorem Moment.finds?_eq {c : ClassNameSet} (hq : q ∈ m.call.paths) (h : p.Same q)
    (hc : found? m.disk q = some c) : m.finds? p = some c := by
  cases hf : m.finds? p with
  | none => rw [Moment.finds?_eq_none_iff.mp hf q hq h] at hc; cases hc
  | some x =>
      obtain ⟨r, -, hr, hx⟩ := Moment.exists_of_finds? hf
      rw [Scan.found?_eq_of_same (hr.symm.trans h) hx hc]

def rescan? (d : Disk) (x : Path × Option Fingerprint) : Option (Path × IndexedEntry) :=
  (found? d x.1).map fun classes => (x.1, ⟨x.2, classes⟩)

theorem scanEach_none (xs : List (Path × Option Fingerprint)) (d : Disk) :
    scanEach none xs d = (xs.filterMap (rescan? d), d) := by
  induction xs with
  | nil => rfl
  | cons x xs ih =>
      obtain ⟨p, f⟩ := x
      rw [scanEach, Scan.bind_apply, Scan.bind_apply, Scan.entry_none, ih]
      cases hp : Scan.plain d p with
      | ok classes =>
          have hr : rescan? d (p, f) = some (p, ⟨f, classes⟩) := by simp [rescan?, found?, hp, Except.toOption]
          rw [List.filterMap_cons_some hr]
          rfl
      | error e =>
          have hr : rescan? d (p, f) = none := by simp [rescan?, found?, hp, Except.toOption]
          rw [List.filterMap_cons_none hr]
          rfl

def rescanned (b : BootIndex) (d : Disk) (paths : List Path) : List (Path × IndexedEntry) :=
  (b.outdated d paths).filterMap (rescan? d)

theorem refresh_none (h : b.index = none) (paths : List Path) (d : Disk) :
    b.refresh paths d = (b.publish (b.rescanned d paths), d) := by
  have hr : b.refresh paths d = (b.publish (scanEach b.index (b.outdated d paths) d).1,
      (scanEach b.index (b.outdated d paths) d).2) := rfl
  rw [hr, h, scanEach_none]
  rfl

theorem mem_rescanned {paths : List Path} {e : IndexedEntry} : (q, e) ∈ b.rescanned d paths ↔
    q ∈ paths ∧ b.isFresh q (Fingerprint.capture d q).toOption = false ∧
      e.fingerprint = (Fingerprint.capture d q).toOption ∧ found? d q = some e.classes := by
  obtain ⟨f, classes⟩ := e
  simp only [rescanned, outdated, List.mem_filterMap, List.mem_filter, List.mem_map, rescan?,
    Option.map_eq_some_iff, Prod.mk.injEq]
  constructor
  · rintro ⟨x, ⟨⟨r, hr, rfl⟩, hf⟩, c, hc, rfl, he⟩
    cases he
    exact ⟨hr, by simpa using hf, rfl, hc⟩
  · rintro ⟨hq, hf, rfl, hc⟩
    exact ⟨_, ⟨⟨q, hq, rfl⟩, by simpa using hf⟩, classes, hc, rfl, rfl⟩

/-! ## Entries -/

def classesAt? (b : BootIndex) (p : Path) : Option ClassNameSet :=
  Option.map IndexedEntry.classes <| b.entry? p

theorem classesAt?_of_some {e : IndexedEntry} (h : b.entry? p = some e) : b.classesAt? p = some e.classes := by
  rw [classesAt?, h, Option.map_some]

theorem classesAt?_eq_some_iff {c : ClassNameSet} :
    b.classesAt? p = some c ↔ ∃ e, b.entry? p = some e ∧ e.classes = c :=
  Option.map_eq_some_iff

theorem same_entry (b : BootIndex) (h : p.Same q) : b.entry? p = b.entry? q :=
  congrArg b.scanned.get? h

theorem publish_cons (b : BootIndex) (q : Path) (e : IndexedEntry) (found : List (Path × IndexedEntry)) :
    b.publish ((q, e) :: found) = ({ b with scanned := b.scanned.put q.components e } : BootIndex).publish found :=
  rfl

/-- A path has what was published for one of its spellings, or else what it had. -/
theorem publish_at (b : BootIndex) (found : List (Path × IndexedEntry)) (p : Path) :
    (∃ q e, (q, e) ∈ found ∧ p.Same q ∧ entry? (b.publish found) p = some e) ∨
      ((∀ q e, (q, e) ∈ found → ¬ p.Same q) ∧ entry? (b.publish found) p = b.entry? p) := by
  induction found generalizing b with
  | nil => exact .inr ⟨fun _ _ h => absurd h List.not_mem_nil, rfl⟩
  | cons x found ih =>
      obtain ⟨q, e⟩ := x
      rw [publish_cons]
      rcases ih { b with scanned := b.scanned.put q.components e } with ⟨r, f, hr, hpr, hf⟩ | ⟨hnone, hsame⟩
      · exact .inl ⟨r, f, List.mem_cons_of_mem _ hr, hpr, hf⟩
      · by_cases hpq : p.Same q
        · refine .inl ⟨q, e, List.mem_cons_self, hpq, ?_⟩
          rw [hsame, same_entry _ hpq]
          exact Table.get?_put_self
        · refine .inr ⟨fun r f hr => ?_, ?_⟩
          · rcases List.mem_cons.mp hr with heq | hr
            · cases heq
              exact hpq
            · exact hnone r f hr
          · rw [hsame]
            exact Table.get?_put_of_ne hpq

end ClassScope.BootIndex
