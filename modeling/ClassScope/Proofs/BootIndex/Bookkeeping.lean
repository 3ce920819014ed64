import ClassScope.Proofs.BootIndex.Lookups
import ClassScope.Proofs.Clears
import ClassScope.Proofs.Table
import Mathlib.Data.List.Induction

/-!
# The books of a boot index

Which list is current, which entries were scanned and how many, after any calls. A scan that fails changes
nothing, and no call touches an entry that it does not name.
-/

namespace ClassScope.BootIndex

/-! ## Calls and their scans -/

def Call.isClear : Call → Bool
  | .clear => true
  | .update _ | .lookup _ => false

/-- The list that an update makes current. -/
def Call.update? : Call → Option (List Path)
  | .update paths => some paths
  | .lookup _ | .clear => none

/-- Scans of some paths one after the other, each with its answer. -/
def scansOf (index : Option Path) : List Path → Disk → List (Path × Except ScanError ClassNameSet)
  | [], _ => []
  | p :: ps, d => (p, (Scan.entry index p d).1) :: scansOf index ps (Scan.entry index p d).2

/-- The scans that a call makes: of the paths that it names and that are outdated. -/
def Moment.scans (b : BootIndex) (m : Moment) : List (Path × Except ScanError ClassNameSet) :=
  scansOf b.index ((b.outdated m.disk m.call.paths).map (·.1)) m.disk

/-- Some scan that a call makes of a path succeeds, in whatever spelling. -/
def Moment.Scans (b : BootIndex) (m : Moment) (p : Path) : Prop :=
  ∃ x ∈ m.scans b, x.2.isOk = true ∧ p.Same x.1

instance (b : BootIndex) (m : Moment) (p : Path) : Decidable (m.Scans b p) := by
  unfold Moment.Scans
  infer_instance

/-- The index of a scanner after some calls. -/
def used (index : Option Path) (ms : List Moment) : BootIndex :=
  ms.foldl perform { index := index }

/-- Some call since the last clear scanned a path, and the scan succeeded. -/
def ScannedSinceClear (index : Option Path) (ms : List Moment) (p : Path) : Prop :=
  ∃ before m rest, ms = before ++ m :: rest ∧ (∀ n ∈ m :: rest, n.call.isClear = false) ∧
    m.Scans (used index before) p

variable {index : Option Path} {ms : List Moment} {m : Moment} {b : BootIndex} {d : Disk} {p q : Path}

theorem used_concat (index : Option Path) (ms : List Moment) (m : Moment) :
    used index (ms ++ [m]) = (used index ms).perform m := by
  rw [used, List.foldl_concat]
  rfl

theorem mem_of_mem_scansOf {ps : List Path} {x : Path × Except ScanError ClassNameSet}
    (h : x ∈ scansOf index ps d) : x.1 ∈ ps := by
  induction ps generalizing d with
  | nil => exact absurd h List.not_mem_nil
  | cons p ps ih =>
      rcases List.mem_cons.mp h with rfl | h
      · exact List.mem_cons_self
      · exact List.mem_cons_of_mem p (ih h)

theorem mem_of_mem_outdated {paths : List Path} {x : Path × Option Fingerprint}
    (h : x ∈ b.outdated d paths) : x.1 ∈ paths := by
  obtain ⟨p, hp, rfl⟩ := List.mem_map.mp (List.mem_filter.mp h).1
  exact hp

/-- A call scans only what it names. -/
theorem Moment.Scans.named (h : m.Scans b p) : ∃ q ∈ m.call.paths, p.Same q := by
  obtain ⟨x, hx, -, hpx⟩ := h
  obtain ⟨y, hy, hyx⟩ := List.mem_map.mp (mem_of_mem_scansOf hx)
  exact ⟨x.1, hyx ▸ mem_of_mem_outdated hy, hpx⟩

/-! ## One call -/

theorem mem_scanEach {xs : List (Path × Option Fingerprint)} :
    (∃ e, (q, e) ∈ (scanEach index xs d).1) ↔
      ∃ x ∈ scansOf index (xs.map (·.1)) d, x.2.isOk = true ∧ x.1 = q := by
  induction xs generalizing d with
  | nil =>
      have none : (scanEach index [] d).1 = [] := rfl
      simp [none, scansOf]
  | cons x xs ih =>
      obtain ⟨p, f⟩ := x
      rw [scanEach, Scan.bind_apply, Scan.bind_apply, List.map_cons, scansOf]
      cases hp : (Scan.entry index p d).1 with
      | ok classes =>
          have hs : (∃ e, (q, e) ∈ (p, (⟨f, classes⟩ : IndexedEntry)) ::
              (scanEach index xs (Scan.entry index p d).2).1) ↔
              p = q ∨ ∃ e, (q, e) ∈ (scanEach index xs (Scan.entry index p d).2).1 := by
            simp [exists_or, eq_comm]
          refine hs.trans ?_
          rw [ih]
          simp [Except.isOk, Except.toBool]
      | error e =>
          refine ih.trans ?_
          simp [Except.isOk, Except.toBool]

theorem scans_iff_mem_scanEach : m.Scans b p ↔
    ∃ q e, (q, e) ∈ (scanEach b.index (b.outdated m.disk m.call.paths) m.disk).1 ∧ p.Same q := by
  constructor
  · rintro ⟨x, hx, hok, hpx⟩
    obtain ⟨e, he⟩ := mem_scanEach.mpr ⟨x, hx, hok, rfl⟩
    exact ⟨x.1, e, he, hpx⟩
  · rintro ⟨q, e, he, hpq⟩
    obtain ⟨x, hx, hok, rfl⟩ := mem_scanEach.mp ⟨e, he⟩
    exact ⟨x, hx, hok, hpq⟩

/-- An update and a lookup differ in the list that is current, and in nothing else. -/
theorem perform_of_not_clear (h : m.call.isClear = false) : b.perform m =
    { b.publish (scanEach b.index (b.outdated m.disk m.call.paths) m.disk).1 with
      current := m.call.update?.getD b.current } := by
  obtain ⟨d, call⟩ := m
  cases call with
  | update paths => rfl
  | lookup paths => rfl
  | clear => cases h

theorem perform_of_clear (h : m.call.isClear = true) : b.perform m = b.clear := by
  obtain ⟨d, call⟩ := m
  cases call with
  | update paths => cases h
  | lookup paths => cases h
  | clear => rfl

theorem has_publish (b : BootIndex) (found : List (Path × IndexedEntry)) (k : List Path.Component) :
    (b.publish found).scanned.has k = true ↔
      (∃ q e, (q, e) ∈ found ∧ k = q.components) ∨ b.scanned.has k = true := by
  induction found generalizing b with
  | nil => simp [publish]
  | cons x found ih =>
      obtain ⟨q, e⟩ := x
      rw [publish_cons, ih, Table.has_put]
      simp only [List.mem_cons, Prod.mk.injEq]
      constructor
      · rintro (⟨r, f, hr, hk⟩ | hk | hb)
        · exact .inl ⟨r, f, .inr hr, hk⟩
        · exact .inl ⟨q, e, .inl ⟨rfl, rfl⟩, hk⟩
        · exact .inr hb
      · rintro (⟨r, f, ⟨rfl, rfl⟩ | hr, hk⟩ | hb)
        · exact .inr (.inl hk)
        · exact .inl ⟨r, f, hr, hk⟩
        · exact .inr (.inr hb)

theorem has_perform (b : BootIndex) (m : Moment) (k : List Path.Component) :
    (b.perform m).scanned.has k = true ↔ m.call.isClear = false ∧
      ((∃ p, m.Scans b p ∧ p.components = k) ∨ b.scanned.has k = true) := by
  cases hc : m.call.isClear with
  | true =>
      rw [perform_of_clear hc]
      simp [clear]
  | false =>
      rw [perform_of_not_clear hc]
      refine (has_publish b _ k).trans ?_
      simp only [scans_iff_mem_scanEach, true_and]
      refine or_congr_left ⟨?_, ?_⟩
      · rintro ⟨q, e, hq, hk⟩
        exact ⟨q, ⟨q, e, hq, rfl⟩, hk.symm⟩
      · rintro ⟨p, ⟨q, e, hq, hpq⟩, hk⟩
        exact ⟨q, e, hq, hk.symm.trans hpq⟩

/-- What was indexed stays where no scan of it succeeds. -/
theorem entry?_perform (hc : m.call.isClear = false) (h : ¬ m.Scans b p) :
    entry? (b.perform m) p = b.entry? p := by
  rw [perform_of_not_clear hc]
  rcases publish_at b (scanEach b.index (b.outdated m.disk m.call.paths) m.disk).1 p with
    ⟨q, e, hq, hpq, -⟩ | ⟨-, hsame⟩
  · exact absurd (scans_iff_mem_scanEach.mpr ⟨q, e, hq, hpq⟩) h
  · exact hsame

/-! ## All calls -/

theorem current_used (index : Option Path) (ms : List Moment) :
    (used index ms).current = ((sinceClear (·.call.isClear) ms).filterMap (·.call.update?)).getLast?.getD [] := by
  induction ms using List.reverseRecOn with
  | nil => rfl
  | append_singleton ms m ih =>
      rw [used_concat, sinceClear_concat]
      cases hc : m.call.isClear with
      | true =>
          rw [perform_of_clear hc]
          rfl
      | false =>
          rw [perform_of_not_clear hc, ih, if_neg Bool.false_ne_true, List.filterMap_append]
          cases hu : m.call.update? with
          | none => simp [hu]
          | some paths => simp [hu]

theorem scannedSinceClear_concat (index : Option Path) (ms : List Moment) (m : Moment) (p : Path) :
    ScannedSinceClear index (ms ++ [m]) p ↔
      m.call.isClear = false ∧ (m.Scans (used index ms) p ∨ ScannedSinceClear index ms p) := by
  constructor
  · rintro ⟨before, n, rest, hms, hclear, hn⟩
    rcases List.eq_nil_or_concat rest with rfl | ⟨rest, l, rfl⟩
    · obtain ⟨rfl, heq⟩ := List.append_inj' hms rfl
      cases heq
      exact ⟨hclear m List.mem_cons_self, .inl hn⟩
    · rw [List.concat_eq_append, ← List.cons_append, ← List.append_assoc] at hms
      obtain ⟨rfl, heq⟩ := List.append_inj' hms rfl
      cases heq
      rw [List.concat_eq_append, ← List.cons_append] at hclear
      exact ⟨hclear m (List.mem_append_right _ List.mem_cons_self), .inr ⟨before, n, rest, rfl,
        fun x hx => hclear x (List.mem_append_left _ hx), hn⟩⟩
  · rintro ⟨hc, hm | ⟨before, n, rest, rfl, hclear, hn⟩⟩
    · refine ⟨ms, m, [], rfl, fun n hn => ?_, hm⟩
      rw [List.mem_singleton.mp hn]
      exact hc
    · refine ⟨before, n, rest ++ [m], by simp, fun x hx => ?_, hn⟩
      rw [← List.cons_append] at hx
      rcases List.mem_append.mp hx with hx | hx
      · exact hclear x hx
      · rw [List.mem_singleton.mp hx]
        exact hc

theorem has_used (index : Option Path) (ms : List Moment) (k : List Path.Component) :
    (used index ms).scanned.has k = true ↔ ∃ p, ScannedSinceClear index ms p ∧ p.components = k := by
  induction ms using List.reverseRecOn with
  | nil =>
      refine ⟨fun h => Bool.noConfusion h, ?_⟩
      rintro ⟨p, ⟨before, m, rest, h, -⟩, -⟩
      exact absurd h.symm (List.append_ne_nil_of_right_ne_nil before (List.cons_ne_nil m rest))
  | append_singleton ms m ih =>
      rw [used_concat, has_perform, ih]
      simp only [scannedSinceClear_concat, or_and_right, and_assoc, exists_and_left, exists_or]

theorem ScannedSinceClear.congr (h : ScannedSinceClear index ms p) (hpq : q.Same p) :
    ScannedSinceClear index ms q := by
  obtain ⟨before, m, rest, hms, hclear, x, hx, hok, hpx⟩ := h
  exact ⟨before, m, rest, hms, hclear, x, hx, hok, hpq.trans hpx⟩

/-- After any calls, the current list is that of the last update since the last clear, and the entries that
are scanned, counted once in whatever spelling, are those of which a scan succeeded since then. A call leaves
an entry as it is where no scan of it succeeds, and so where the call does not name it. -/
theorem used_bookkeeping (index : Option Path) (ms : List Moment) :
    (used index ms).current = ((sinceClear (·.call.isClear) ms).filterMap (·.call.update?)).getLast?.getD [] ∧
    (∀ p, (used index ms).isScanned p = true ↔ ScannedSinceClear index ms p) ∧
    (used index ms).scanned.size = Set.ncard (Path.components '' {p | ScannedSinceClear index ms p}) ∧
    (∀ m p, m.call.isClear = false → ¬ m.Scans (used index ms) p →
      entry? (used index (ms ++ [m])) p = entry? (used index ms) p) ∧
    (∀ m p, m.call.isClear = false → (∀ q ∈ m.call.paths, ¬ p.Same q) →
      entry? (used index (ms ++ [m])) p = entry? (used index ms) p) := by
  refine ⟨current_used index ms, fun p => ?_, ?_, fun m p hc hs => ?_, fun m p hc hnamed => ?_⟩
  · refine (has_used index ms p.components).trans ⟨?_, fun h => ⟨p, h, rfl⟩⟩
    rintro ⟨q, hq, hqp⟩
    exact hq.congr hqp.symm
  · rw [Table.size_eq_ncard]
    simp only [has_used]
    rfl
  · rw [used_concat, entry?_perform hc hs]
  · have hs : ¬ m.Scans (used index ms) p := by
      intro hs
      obtain ⟨q, hq, hpq⟩ := hs.named
      exact hnamed q hq hpq
    rw [used_concat, entry?_perform hc hs]

theorem used_bookkeeping_of_removed :
    (used none indexed).current = [directory] ∧ (used none indexed).isScanned directory = true ∧
      ¬ Moment.Scans (used none indexed) ⟨.empty 0, .lookup [directory]⟩ directory ∧
      entry? (used none (indexed ++ [⟨.empty 0, .lookup [directory]⟩])) directory =
        entry? (used none indexed) directory := by
  obtain ⟨current, scanned, -, failed, -⟩ := used_bookkeeping none indexed
  have found : ScannedSinceClear none indexed directory :=
    ⟨[], ⟨filled, .update [directory]⟩, [], rfl, by decide +kernel, by decide +kernel⟩
  have gone : ¬ Moment.Scans (used none indexed) ⟨.empty 0, .lookup [directory]⟩ directory := by
    decide +kernel
  exact ⟨current, (scanned directory).mpr found, gone, failed _ directory rfl gone⟩

end ClassScope.BootIndex
