import ClassScope.Proofs.ClassIndex.Kept
import ClassScope.Proofs.Scan.Plain

/-!
# Scans with an index

An index answers by fingerprint, and a fingerprint holds a path only as it is displayed. So a scan with an
index answers as one without it, or with what an earlier scan found at another path of the same display.
-/

namespace ClassScope.Scan

open ClassIndex (Kept Record)

variable {root : Path} {d d' : Disk} {p : Path}

/-! ## One scan -/

/-- The ways in which a scan with an index comes to its answer, and the disk it leaves. -/
inductive Indexed (root : Path) (d : Disk) (p : Path) : Except ScanError ClassNameSet → Disk → Prop where
  | direct : Indexed root d p (plain d p) d
  | hit {f r} (hf : Fingerprint.capture d p = .ok f) (hl : ClassIndex.load root f d = .ok (some r)) :
      Indexed root d p (.ok r.classes) d
  | ended : Indexed root d p (plain d p) d.refuse
  | stored {f classes} (hf : Fingerprint.capture d p = .ok f) (hc : plain d p = .ok classes) :
      Indexed root d p (.ok classes) ((ClassIndex.store root f classes 0).run.run d).2

theorem keep_bind (root : Path) (f : Fingerprint) (classes : ClassNameSet) (d : Disk) :
    (do keep root f classes; return .ok classes : StateM Disk (Except ScanError ClassNameSet)) d =
      (.ok classes, ((ClassIndex.store root f classes 0).run.run d).2) := rfl

theorem entry_some (root p : Path) (d : Disk) : entry (some root) p d =
    if d.has p = false then (.error (.missing p), d)
    else match Fingerprint.capture d p with
      | .error _ => (plain d p, d)
      | .ok f =>
          match ClassIndex.load root f d with
          | .ok (some r) => (.ok r.classes, d)
          | .error (.encoding (.memory _)) => (plain d p, d.refuse)
          | _ =>
              match plain d p with
              | .error e => (.error e, d)
              | .ok classes => (.ok classes, ((ClassIndex.store root f classes 0).run.run d).2) := by
  unfold entry
  rw [bind_apply]
  have hget : (get : StateM Disk Disk) d = (d, d) := rfl
  rw [hget]
  dsimp only
  cases hp : d.has p with
  | false => rfl
  | true =>
      simp only [not_true, if_false, Bool.true_eq_false]
      cases Fingerprint.capture d p with
      | error e => rfl
      | ok f =>
          have scanned : (match plain d p with
              | .error e => return .error e
              | .ok classes => do keep root f classes; return .ok classes : StateM Disk (Except ScanError _)) d =
              match plain d p with
              | .error e => (.error e, d)
              | .ok classes => (.ok classes, ((ClassIndex.store root f classes 0).run.run d).2) := by
            cases plain d p with
            | error e => rfl
            | ok classes => exact keep_bind root f classes d
          dsimp only
          generalize ClassIndex.load root f d = loaded
          cases loaded with
          | ok kept =>
              cases kept with
              | some r => rfl
              | none => exact scanned
          | error e =>
              cases e with
              | encoding cause =>
                  cases cause with
                  | memory n => rfl
                  | _ => exact scanned
              | _ => exact scanned

theorem indexed_entry (root : Path) (d : Disk) (p : Path) :
    Indexed root d p (entry (some root) p d).1 (entry (some root) p d).2 := by
  rw [entry_some]
  split
  · rename_i h
    rw [← plain_of_not_has h]
    exact .direct
  split
  · exact .direct
  · rename_i f hf
    split
    · exact .hit hf (by assumption)
    · exact .ended
    · split
      · rename_i e he
        rw [← he]
        exact .direct
      · exact .stored hf (by assumption)

/-! ## Runs -/

/-- A scan of a path on the disk as it was at that moment. -/
structure Scanned where
  disk : Disk
  path : Path

namespace Scanned

def answer (index : Option Path) (s : Scanned) : Except ScanError ClassNameSet :=
  (entry index s.path s.disk).1

theorem answer_none (s : Scanned) : s.answer none = plain s.disk s.path := by
  rw [answer, entry_none]

theorem found?_of_answer_eq {index : Option Path} (h : answer index ⟨d, p⟩ = answer none ⟨d, p⟩) :
    (entry index p d).1.toOption = found? d p := by
  rw [answer_none] at h
  exact congrArg Except.toOption h

/-- What the scan may store fits the fields of a record: its lengths, counts and times take 64 bits. -/
structure Fits (s : Scanned) : Prop where
  fingerprint : ∀ f, Fingerprint.capture s.disk s.path = .ok f → f.Fits (Bytes.capacity 8)
  classes : ∀ c, plain s.disk s.path = .ok c → c.Fits (Bytes.capacity 8)

theorem Fits.of_eq {f : Fingerprint} {c : ClassNameSet} (hf : Fingerprint.capture d p = .ok f)
    (hc : plain d p = .ok c) (ff : f.Fits (Bytes.capacity 8)) (fc : c.Fits (Bytes.capacity 8)) : Fits ⟨d, p⟩ := by
  constructor
  · intro f' hf'
    exact Except.ok.inj (hf.symm.trans hf') ▸ ff
  · intro c' hc'
    exact Except.ok.inj (hc.symm.trans hc') ▸ fc

end Scanned

/-- Scans with an index in a directory, the first one first. It starts without a record, and a change from
outside puts none there. -/
inductive Run (root : Path) : List Scanned → Disk → Prop where
  | start {d : Disk} (empty : ∀ f r, ¬ Kept root d f r) : Run root [] d
  | change {ss : List Scanned} {d d' : Disk} (run : Run root ss d)
      (outside : ∀ f r, Kept root d' f r → Kept root d f r) : Run root ss d'
  | scan {ss : List Scanned} {d : Disk} (run : Run root ss d) (p : Path) :
      Run root (ss ++ [⟨d, p⟩]) (entry (some root) p d).2

/-- Where a path has the same stamp at two scans, it holds the same. -/
def Steady (ss : List Scanned) : Prop :=
  ∀ s ∈ ss, ∀ t ∈ ss, s.path = t.path → Stamp.read s.disk s.path = Stamp.read t.disk t.path →
    found? s.disk s.path = found? t.disk t.path

variable {ss before after : List Scanned} {s t : Scanned}

theorem Run.of_append (run : Run root (before ++ s :: after) d) : Run root before s.disk := by
  generalize hss : before ++ s :: after = ss at run
  induction run generalizing after with
  | start empty => cases before <;> cases hss
  | change run outside ih => exact ih hss
  | @scan ss d run p ih =>
      rcases List.eq_nil_or_concat after with rfl | ⟨init, last, rfl⟩
      · obtain ⟨rfl, hs⟩ := List.append_inj' hss rfl
        cases hs
        exact run
      · have hinit : (before ++ s :: init) ++ [last] = ss ++ [⟨d, p⟩] := by simpa using hss
        exact ih (List.append_inj' hinit rfl).1

/-- A scan adds at most what it found itself. -/
theorem Indexed.kept {answer : Except ScanError ClassNameSet} {f : Fingerprint} {r : Record}
    (hx : Indexed root d p answer d') (fits : Scanned.Fits ⟨d, p⟩) (h : Kept root d' f r) :
    Kept root d f r ∨ Fingerprint.capture d p = .ok f ∧ plain d p = .ok r.classes := by
  cases hx with
  | direct => exact Or.inl h
  | hit hf hl => exact Or.inl h
  | ended => exact Or.inl (h.of_grown (Disk.grown_refuse d))
  | stored hf hc =>
      rcases h.of_store (fits.fingerprint _ hf) (fits.classes _ hc) with h | ⟨rfl, hr⟩
      · exact Or.inl h
      · exact Or.inr ⟨hf, hr ▸ hc⟩

/-- Whatever the index keeps, one of the scans has found under that fingerprint. -/
theorem Run.found_of_kept (run : Run root ss d) (fits : ∀ s ∈ ss, s.Fits) {f : Fingerprint} {r : Record}
    (h : Kept root d f r) : ∃ s ∈ ss, Fingerprint.capture s.disk s.path = .ok f ∧
      plain s.disk s.path = .ok r.classes := by
  induction run with
  | start empty => exact absurd h (empty f r)
  | change run outside ih => exact ih fits (outside f r h)
  | @scan ss d run p ih =>
      have hnew : (⟨d, p⟩ : Scanned) ∈ ss ++ [⟨d, p⟩] := List.mem_append_right _ List.mem_cons_self
      rcases (indexed_entry root d p).kept (fits _ hnew) h with hold | found
      · obtain ⟨s, hs, found⟩ := ih (fun s hs => fits s (List.mem_append_left _ hs)) hold
        exact ⟨s, List.mem_append_left _ hs, found⟩
      · exact ⟨_, hnew, found⟩

/-! ## Answers -/

/-- What is taken from another path: it is displayed alike and had the same stamp. -/
structure Shared (root : Path) (t s : Scanned) : Prop where
  other : t.path ≠ s.path
  display : t.path.display = s.path.display
  stamp : Stamp.read t.disk t.path = Stamp.read s.disk s.path
  answer : ∃ classes, t.answer none = .ok classes ∧ s.answer (some root) = .ok classes

theorem capture_eq_ok_iff {f : Fingerprint} : Fingerprint.capture d p = .ok f ↔
    ∃ stamp, Stamp.read d p = .ok stamp ∧ f = ⟨Fingerprint.currentVersion, p.display, stamp⟩ := by
  rw [Fingerprint.capture]
  cases Stamp.read d p with
  | error e => exact ⟨nofun, nofun⟩
  | ok stamp =>
      constructor
      · intro h
        exact ⟨stamp, rfl, (Except.ok.inj h).symm⟩
      · rintro ⟨stamp', hs, rfl⟩
        rw [Except.ok.inj hs]
        rfl

theorem Scanned.alike_of_capture {f : Fingerprint} (ht : Fingerprint.capture t.disk t.path = .ok f)
    (hs : Fingerprint.capture s.disk s.path = .ok f) :
    t.path.display = s.path.display ∧ Stamp.read t.disk t.path = Stamp.read s.disk s.path := by
  obtain ⟨stamp, hread, rfl⟩ := capture_eq_ok_iff.mp ht
  obtain ⟨stamp', hread', heq⟩ := capture_eq_ok_iff.mp hs
  obtain ⟨-, hdisplay, hstamp⟩ := Fingerprint.mk.inj heq
  exact ⟨hdisplay, by rw [hread, hread', hstamp]⟩

/-- A scan answers as one without an index, or shares the answer of an earlier one. -/
theorem Run.answer_or_shared (run : Run root (before ++ s :: after) d) (steady : Steady (before ++ s :: after))
    (fits : ∀ t ∈ before ++ s :: after, t.Fits) :
    s.answer (some root) = s.answer none ∨ ∃ t ∈ before, Shared root t s := by
  have hx : Indexed root s.disk s.path (s.answer (some root)) (entry (some root) s.path s.disk).2 :=
    indexed_entry root s.disk s.path
  have hmem (t : Scanned) (ht : t ∈ before) : t ∈ before ++ s :: after := List.mem_append_left _ ht
  have hs : s ∈ before ++ s :: after := List.mem_append_right _ List.mem_cons_self
  rw [Scanned.answer_none]
  generalize hanswer : s.answer (some root) = answer at hx
  generalize (entry (some root) s.path s.disk).2 = d' at hx
  cases hx with
  | direct => exact Or.inl rfl
  | ended => exact Or.inl rfl
  | stored hf hc => exact Or.inl hc.symm
  | @hit f r hf hl =>
      obtain ⟨t, ht, htf, htc⟩ := run.of_append.found_of_kept (fun t ht => fits t (hmem t ht))
        (Kept.of_load hl)
      obtain ⟨hdisplay, hstamp⟩ := Scanned.alike_of_capture htf hf
      by_cases hp : t.path = s.path
      · left
        have hfound := steady s hs t (hmem t ht) hp.symm hstamp.symm
        rw [found?_eq_some_iff.mpr htc] at hfound
        exact (found?_eq_some_iff.mp hfound).symm
      · right
        exact ⟨t, ht, hp, hdisplay, hstamp, r.classes, t.answer_none.trans htc, hanswer⟩

/-- A path that is text is displayed as that text, so two such paths are never displayed alike. -/
theorem not_shared_of_text (hs : ∃ text, s.path = Path.ofString text)
    (ht : ∃ text, t.path = Path.ofString text) : ¬ Shared root t s := by
  obtain ⟨text, hs⟩ := hs
  obtain ⟨text', ht⟩ := ht
  intro shared
  have hdisplay : (Path.ofString text').display = (Path.ofString text).display := by
    rw [← ht, ← hs]
    exact shared.display
  have he : text' = text := by
    rw [Path.display, Path.display, Path.ofString, Path.ofString, Utf8.lossy_encode,
      Utf8.lossy_encode] at hdisplay
    exact hdisplay
  exact shared.other (by rw [ht, hs, he])

/-- The index changes no answer but where two paths are displayed alike, and none at all where every path
is text. -/
theorem Run.transparent_or_shared (run : Run root ss d) (steady : Steady ss) (fits : ∀ s ∈ ss, s.Fits) :
    (∀ before s after, ss = before ++ s :: after →
      s.answer (some root) = s.answer none ∨ ∃ t ∈ before, Shared root t s) ∧
    ((∀ s ∈ ss, ∃ text, s.path = Path.ofString text) → ∀ s ∈ ss, s.answer (some root) = s.answer none) := by
  have each (before : List Scanned) (s : Scanned) (after : List Scanned) (h : ss = before ++ s :: after) :
      s.answer (some root) = s.answer none ∨ ∃ t ∈ before, Shared root t s := by
    subst h
    exact run.answer_or_shared steady fits
  refine ⟨each, fun text s hs => ?_⟩
  obtain ⟨before, after, h⟩ := List.append_of_mem hs
  rcases each before s after h with he | ⟨t, ht, shared⟩
  · exact he
  · have hts : t ∈ ss := h ▸ List.mem_append_left _ ht
    exact absurd shared (not_shared_of_text (text s hs) (text t hts))

/-! ### Two directories displayed alike -/

/-- Two directories whose names are no text. Each holds one class file, under another name but of the same
length and time. -/
def twins : Disk :=
  let directory (name : UInt8) (file : String) : List (Disk.Location × Disk.Entry) :=
    [([[0], [name]], .dir 0), ([[0], [name], Utf8.encode file], .file [] 0 false)]
  { Disk.empty 0 with
    entries := (Disk.empty 0).entries ++ directory 0xFF "A.class" ++ directory 0xFE "B.class" }

def twinsIndex : Path :=
  Path.ofString "index"

/-- The disk after the first directory was scanned and another file was written. -/
def twinsLater : Disk :=
  ((entry (some twinsIndex) ⟨[0xFF]⟩ twins).2.step (.write (.ofString "notes") [] none false)).2

def twinsScans : List Scanned :=
  [⟨twins, ⟨[0xFF]⟩⟩, ⟨twinsLater, ⟨[0xFE]⟩⟩]

theorem empty_is_no_record (room : Nat) (f : Fingerprint) (r : Record) : ClassIndex.recordFor room f [] ≠ .ok r :=
  nofun

theorem twins_run : Run twinsIndex twinsScans (entry (some twinsIndex) ⟨[0xFE]⟩ twinsLater).2 := by
  have hempty (f : Fingerprint) (r : Record) : ¬ Kept twinsIndex twins f r := by
    intro h
    obtain ⟨loc, content, m, x, room, hfile, hr⟩ := h.exists_file
    have hlengths : ∀ x ∈ twins.entries, x.2.length = 0 := by decide
    have hmem : (loc, Disk.Entry.file content m x) ∈ twins.entries := Disk.mem_of_entry hfile rfl
    have hnil : content = [] := List.length_eq_zero_iff.mp (hlengths _ hmem)
    rw [hnil] at hr
    exact empty_is_no_record room f r hr
  exact (((Run.start hempty).scan ⟨[0xFF]⟩).change fun f r => Kept.of_write empty_is_no_record).scan ⟨[0xFE]⟩

/-- The second directory is answered with the class of the first one. -/
theorem twins_answers :
    Fingerprint.capture twins ⟨[0xFF]⟩ = .ok ⟨1, "\uFFFD", .classTree 1 0 (some 0)⟩ ∧
    Fingerprint.capture twinsLater ⟨[0xFE]⟩ = .ok ⟨1, "\uFFFD", .classTree 1 0 (some 0)⟩ ∧
    found? twins ⟨[0xFF]⟩ = some (.ofList ["A"]) ∧ found? twinsLater ⟨[0xFE]⟩ = some (.ofList ["B"]) ∧
    (entry (some twinsIndex) ⟨[0xFE]⟩ twinsLater).1.toOption = some (.ofList ["A"]) := by
  decide +kernel

theorem twins_fit : ∀ s ∈ twinsScans, s.Fits := by
  obtain ⟨hfirst, hsecond, hA, hB, -⟩ := twins_answers
  have fitsPrint : Fingerprint.Fits (Bytes.capacity 8) ⟨1, "\uFFFD", .classTree 1 0 (some 0)⟩ := by
    refine ⟨by decide, by decide, by decide, by decide, ?_⟩
    intro ms hms
    rw [← Option.mem_some.mp hms]
    decide
  have fitFirst : Scanned.Fits ⟨twins, ⟨[0xFF]⟩⟩ :=
    .of_eq hfirst (found?_eq_some_iff.mp hA) fitsPrint (ClassNameSet.fits_singleton (by decide))
  have fitSecond : Scanned.Fits ⟨twinsLater, ⟨[0xFE]⟩⟩ :=
    .of_eq hsecond (found?_eq_some_iff.mp hB) fitsPrint (ClassNameSet.fits_singleton (by decide))
  intro s hs
  rcases List.mem_pair.mp hs with h | h
  · exact h ▸ fitFirst
  · exact h ▸ fitSecond

theorem twins_steady : Steady twinsScans := by
  intro s hs t ht hp _
  rcases List.mem_pair.mp hs with rfl | rfl
  · rcases List.mem_pair.mp ht with rfl | rfl
    · rfl
    · cases hp
  · rcases List.mem_pair.mp ht with rfl | rfl
    · cases hp
    · rfl

theorem shared_of_twins :
    Run twinsIndex twinsScans (entry (some twinsIndex) ⟨[0xFE]⟩ twinsLater).2 ∧ Steady twinsScans ∧
    (∀ s ∈ twinsScans, s.Fits) ∧ Shared twinsIndex ⟨twins, ⟨[0xFF]⟩⟩ ⟨twinsLater, ⟨[0xFE]⟩⟩ := by
  refine ⟨twins_run, twins_steady, twins_fit, ?_⟩
  rcases (Run.transparent_or_shared twins_run twins_steady twins_fit).1
    [⟨twins, ⟨[0xFF]⟩⟩] ⟨twinsLater, ⟨[0xFE]⟩⟩ [] rfl with he | ⟨t, ht, shared⟩
  · obtain ⟨-, -, -, hB, hanswer⟩ := twins_answers
    have hsame := (Scanned.found?_of_answer_eq he).symm.trans hanswer
    have hAB : ClassNameSet.ofList ["B"] = .ofList ["A"] := Option.some.inj (hB.symm.trans hsame)
    exact absurd hAB (by decide)
  · rw [List.mem_singleton.mp ht] at shared
    exact shared

end ClassScope.Scan
