import ClassScope.Proofs.BootIndex.History
import Mathlib.Data.List.Induction

/-!
# Lookups against scans of the disk

Where stamps can be trusted, an index gives for each path what it remembers; and so a lookup gives what a
scan of the disk gives, except for the classes of paths that could be scanned before and cannot any more.
-/

namespace ClassScope.BootIndex

open Scan (found?)

/-- The index holds what the calls make it remember, each entry under the stamp of the call that scanned it. -/
structure Tracks (ms : List Moment) (b : BootIndex) : Prop where
  index : b.index = none
  classes (p : Path) : b.classesAt? p = remembered ms p
  origin {p : Path} {e : IndexedEntry} (h : b.entry? p = some e) : ∃ m ∈ ms, ∃ q ∈ m.call.paths, p.Same q ∧
    e.fingerprint = (Fingerprint.capture m.disk q).toOption ∧ found? m.disk q = some e.classes

variable {ms : List Moment} {m : Moment} {b : BootIndex} {d d' : Disk} {p q : Path}

theorem stamp_of_capture {f : Fingerprint} (h : (Fingerprint.capture d p).toOption = some f) :
    f.path = p.display ∧ (Stamp.read d p).toOption = some f.stamp := by
  unfold Fingerprint.capture at h
  cases hr : Stamp.read d p with
  | error e => rw [hr] at h; cases h
  | ok s =>
      rw [hr] at h
      cases h
      exact ⟨rfl, rfl⟩

theorem Tracks.found?_of_fresh (h : Tracks ms b) (hs : Steady (ms ++ [m])) (hq : q ∈ m.call.paths)
    (hf : b.isFresh q (Fingerprint.capture m.disk q).toOption = true) :
    ∃ e, b.entry? q = some e ∧ found? m.disk q = some e.classes := by
  cases hc : (Fingerprint.capture m.disk q).toOption with
  | none =>
      rw [hc] at hf
      cases he : b.entry? q <;> simp [isFresh, he] at hf
  | some f =>
      cases he : b.entry? q with
      | none => simp [isFresh, he] at hf
      | some e =>
          rw [hc] at hf
          have hef : e.fingerprint = some f := by simpa [isFresh, he] using hf
          obtain ⟨n, hn, r, hr, hqr, hfr, hcr⟩ := h.origin he
          rw [hef] at hfr
          obtain ⟨hpq, hsq⟩ := stamp_of_capture hc
          obtain ⟨hpr, hsr⟩ := stamp_of_capture hfr.symm
          obtain rfl := Path.eq_of_same_of_display hqr (hpq.symm.trans hpr)
          refine ⟨e, rfl, ?_⟩
          rw [← hcr]
          exact hs m (List.mem_append_right _ List.mem_cons_self) n (List.mem_append_left _ hn) q hq hr
            f.stamp hsq hsr

theorem Tracks.publish (h : Tracks ms b) (hs : Steady (ms ++ [m]))
    (hm : ∀ p, remembered (ms ++ [m]) p = (m.finds? p).or (remembered ms p)) :
    Tracks (ms ++ [m]) (b.publish (b.rescanned m.disk m.call.paths)) where
  index := h.index
  classes p := by
    rw [hm]
    rcases publish_at b (b.rescanned m.disk m.call.paths) p with ⟨q, e, hq, hpq, he⟩ | ⟨hnone, hsame⟩
    · obtain ⟨hq, -, -, hc⟩ := mem_rescanned.mp hq
      rw [classesAt?_of_some he, Moment.finds?_eq hq hpq hc, Option.some_or]
    · rw [classesAt?, hsame, ← classesAt?]
      cases hf : m.finds? p with
      | none => rw [Option.none_or, h.classes]
      | some c =>
          -- Not rescanned although it can be read: it was fresh.
          obtain ⟨q, hq, hpq, hc⟩ := Moment.exists_of_finds? hf
          have hfresh : b.isFresh q (Fingerprint.capture m.disk q).toOption = true := by
            by_contra hfresh
            exact hnone q ⟨_, c⟩ (mem_rescanned.mpr ⟨hq, Bool.eq_false_iff.mpr hfresh, rfl, hc⟩) hpq
          obtain ⟨e, he, hce⟩ := h.found?_of_fresh hs hq hfresh
          rw [classesAt?_of_some ((b.same_entry hpq).trans he), Option.some_or, ← hce, hc]
  origin {p e} he := by
    rcases publish_at b (b.rescanned m.disk m.call.paths) p with ⟨q, e', hq, hpq, he'⟩ | ⟨-, hsame⟩
    · cases he.symm.trans he'
      obtain ⟨hq, -, hf, hc⟩ := mem_rescanned.mp hq
      exact ⟨m, List.mem_append_right _ List.mem_cons_self, q, hq, hpq, hf, hc⟩
    · obtain ⟨n, hn, hrest⟩ := h.origin (hsame.symm.trans he)
      exact ⟨n, List.mem_append_left _ hn, hrest⟩

theorem Tracks.perform (h : Tracks ms b) (hs : Steady (ms ++ [m])) : Tracks (ms ++ [m]) (b.perform m) := by
  obtain ⟨d, call⟩ := m
  cases call with
  | update paths =>
      have hp := h.publish hs fun p => remembered_concat ms _ p
      have he : b.perform ⟨d, .update paths⟩ = { (b.refresh paths d).1 with current := paths } := rfl
      rw [he, refresh_none h.index]
      exact ⟨hp.index, hp.classes, hp.origin⟩
  | lookup paths =>
      have hp := h.publish hs fun p => remembered_concat ms _ p
      have he : b.perform ⟨d, .lookup paths⟩ = (b.refresh paths d).1 := rfl
      rw [he, refresh_none h.index]
      exact hp
  | clear =>
      refine ⟨h.index, fun p => ?_, fun he => ?_⟩
      · rw [remembered_concat]
        rfl
      · cases he

theorem after_tracks (hs : Steady ms) : Tracks ms (after ms) := by
  induction ms using List.reverseRecOn with
  | nil => exact ⟨rfl, fun _ => rfl, nofun⟩
  | append_singleton ms m ih =>
      rw [after_concat]
      exact (ih hs.of_concat).perform hs

/-! ## Lookups -/

theorem Tracks.mem_unionOf (h : Tracks ms b) {paths : List Path} {name : String} :
    name ∈ b.unionOf paths ↔ ∃ p ∈ paths, ∃ c ∈ remembered ms p, name ∈ c := by
  rw [unionOf, ClassNameSet.mem_union]
  simp only [List.mem_map, List.mem_filterMap]
  constructor
  · rintro ⟨_, ⟨e, ⟨p, hp, he⟩, rfl⟩, hn⟩
    refine ⟨p, hp, e.classes, ?_, hn⟩
    rw [← h.classes, classesAt?_of_some he]
    rfl
  · rintro ⟨p, hp, c, hc, hn⟩
    rw [← h.classes] at hc
    obtain ⟨e, he, rfl⟩ := classesAt?_eq_some_iff.mp hc
    exact ⟨e.classes, ⟨e, ⟨p, hp, he⟩, rfl⟩, hn⟩

/-- What can be read is remembered as it is. -/
theorem remembered_lookup {paths : List Path} {c : ClassNameSet} (hp : p ∈ paths) (hc : found? d p = some c) :
    remembered (ms ++ [⟨d, .lookup paths⟩]) p = some c := by
  have hf := Moment.finds?_eq (m := ⟨d, .lookup paths⟩) hp rfl hc
  rw [remembered_concat, remember, hf, Option.some_or]

/-- Each lookup of each use of an index gives the classes that it remembers for the paths. These are the
classes that a scan of the disk finds just if what it remembers for paths that cannot be read is found in
other paths. -/
theorem lookup_eq_scan_iff (ms : List Moment) (d : Disk) (paths : List Path)
    (hs : Steady (ms ++ [⟨d, .lookup paths⟩])) :
    (∀ name, name ∈ ((after ms).classes paths d).1.1 ↔
      ∃ p ∈ paths, ∃ c ∈ remembered (ms ++ [⟨d, .lookup paths⟩]) p, name ∈ c) ∧
    (((after ms).classes paths d).1.1 = (Scan.all none paths d).1.classes ↔
      ∀ p ∈ paths, found? d p = none → ∀ c ∈ remembered (ms ++ [⟨d, .lookup paths⟩]) p, ∀ name ∈ c.names,
        name ∈ (Scan.all none paths d).1.classes) := by
  have ht := after_tracks hs
  have hu : ((after ms).classes paths d).1.1 = (after (ms ++ [⟨d, .lookup paths⟩])).unionOf paths := by
    rw [after_concat]
    rfl
  have hmem (name : String) : name ∈ (after (ms ++ [⟨d, .lookup paths⟩])).unionOf paths ↔
      ∃ p ∈ paths, ∃ c ∈ remembered (ms ++ [⟨d, .lookup paths⟩]) p, name ∈ c := ht.mem_unionOf
  rw [hu]
  refine ⟨hmem, fun h p hp _ c hc name hn => ?_, fun h => ClassNameSet.eq_of_mem_iff fun name => ?_⟩
  · rw [← h]
    exact (hmem name).mpr ⟨p, hp, c, hc, hn⟩
  · rw [hmem]
    constructor
    · rintro ⟨p, hp, c, hc, hn⟩
      cases hf : found? d p with
      | none => exact h p hp hf c hc name hn
      | some x =>
          rw [remembered_lookup hp hf] at hc
          cases hc
          exact Scan.mem_all_none.mpr ⟨p, hp, c, hf, hn⟩
    · intro hn
      obtain ⟨p, hp, c, hf, hn⟩ := Scan.mem_all_none.mp hn
      exact ⟨p, hp, c, remembered_lookup hp hf, hn⟩

def filled : Disk :=
  { Disk.empty 0 with entries := [([[0]], .dir 0), ([[0], Utf8.encode "a"], .dir 0),
    ([[0], Utf8.encode "a", Utf8.encode "A.class"], .file [] 0 false)] }

def directory : Path :=
  ⟨Utf8.encode "a"⟩

def indexed : List Moment :=
  [⟨filled, .update [directory]⟩]

theorem lookup_eq_scan_iff_of_removed :
    Steady (indexed ++ [⟨.empty 0, .lookup [directory]⟩]) ∧
      "A" ∈ ((after indexed).classes [directory] (.empty 0)).1.1 ∧
      ((after indexed).classes [directory] (.empty 0)).1.1 ≠ (Scan.all none [directory] (.empty 0)).1.classes := by
  have steady : Steady (indexed ++ [⟨.empty 0, .lookup [directory]⟩]) := by decide +kernel
  obtain ⟨answer, same⟩ := lookup_eq_scan_iff indexed (.empty 0) [directory] steady
  have kept : .ofList ["A"] ∈ remembered (indexed ++ [⟨.empty 0, .lookup [directory]⟩]) directory := by
    decide +kernel
  have gone : found? (.empty 0) directory = none := by decide +kernel
  have empty : "A" ∉ (Scan.all none [directory] (.empty 0)).1.classes := by decide +kernel
  have named : "A" ∈ (ClassNameSet.ofList ["A"]).names := by decide +kernel
  refine ⟨steady, (answer "A").mpr ⟨directory, List.mem_cons_self, _, kept, named⟩, fun h => ?_⟩
  exact empty (same.mp h directory List.mem_cons_self gone _ kept "A" named)

end ClassScope.BootIndex
