import ClassScope.Proofs.Disk.Places
import ClassScope.Scan

/-!
# Plain scans

What a scan without an index finds. It does not depend on how a path is spelled, as long as the spelling
leads somewhere.
-/

namespace ClassScope.Scan

variable {d : Disk} {p q : Path}

/-- What a plain scan finds, if it can be made. -/
def found? (d : Disk) (p : Path) : Option ClassNameSet :=
  (plain d p).toOption

theorem found?_eq_some_iff {c : ClassNameSet} : found? d p = some c ↔ plain d p = .ok c := by
  rw [found?]
  cases plain d p with
  | error e => exact ⟨nofun, nofun⟩
  | ok classes =>
      exact ⟨fun h => congrArg Except.ok (Option.some.inj h), fun h => congrArg some (Except.ok.inj h)⟩

theorem format?_eq_of_same (h : p.Same q) : format? p = format? q := by
  have hc : p.components = q.components := h
  rw [format?, format?, Path.extension?, Path.extension?, Path.fileName?, Path.fileName?, hc]

theorem ofFile_toOption_eq_of_same (h : p.Same q) (content : Bytes) :
    (ofFile p content).toOption = (ofFile q content).toOption := by
  rw [ofFile, ofFile, format?_eq_of_same h]
  cases format? q with
  | none => rfl
  | some f =>
      cases f with
      | archive => cases Archive.names content <;> rfl
      | platformArchive => cases Archive.names content <;> rfl
      | classFile => cases ClassFile.readName content <;> rfl

/-- A directory is read when each directory below it can be opened. -/
theorem ofDirectory_eq_ok_iff {loc : Disk.Location} {c : ClassNameSet} :
    ofDirectory d p loc = .ok c ↔ d.unopened? p loc = none ∧ c = ofEntries (filesBelow d loc) := by
  rw [ofDirectory]
  cases d.unopened? p loc with
  | some q => exact ⟨nofun, nofun⟩
  | none => exact ⟨fun h => ⟨rfl, (Except.ok.inj h).symm⟩, fun h => congrArg Except.ok h.2.symm⟩

theorem stat_of_found? {classes : ClassNameSet} (h : found? d p = some classes) :
    ∃ x, d.stat p = .ok x := by
  cases hs : d.stat p with
  | ok x => exact ⟨x, rfl⟩
  | error e =>
      simp only [found?, plain, hs] at h
      cases h

/-- Spellings of one path that can both be scanned hold the same. -/
theorem found?_eq_of_same (h : p.Same q) {x y : ClassNameSet} (hp : found? d p = some x)
    (hq : found? d q = some y) : x = y := by
  obtain ⟨a, ha⟩ := stat_of_found? hp
  obtain ⟨b, hb⟩ := stat_of_found? hq
  obtain rfl := Disk.stat_eq_of_same h ha hb
  obtain ⟨loc, e⟩ := a
  cases e with
  | dir modified =>
      rw [found?_eq_some_iff, plain, ha] at hp
      rw [found?_eq_some_iff, plain, hb] at hq
      exact (ofDirectory_eq_ok_iff.mp hp).2.trans (ofDirectory_eq_ok_iff.mp hq).2.symm
  | file content modified executable =>
      simp only [found?, plain, ha] at hp
      simp only [found?, plain, hb] at hq
      rw [ofFile_toOption_eq_of_same h] at hp
      exact Option.some.inj (hp.symm.trans hq)
  | link target modified =>
      simp only [found?, plain, ha] at hp
      cases hp

/-! ## Scans without an index -/

theorem bind_apply {α β : Type} (x : StateM Disk α) (f : α → StateM Disk β) (d : Disk) :
    (x >>= f) d = f (x d).1 (x d).2 := rfl

theorem plain_of_not_has (h : d.has p = false) : plain d p = .error (.missing p) := by
  unfold Disk.has at h
  cases hs : d.stat p with
  | ok x => rw [hs] at h; cases h
  | error e => rw [plain, hs]

theorem entry_none (p : Path) (d : Disk) : entry none p d = (plain d p, d) := by
  have h : entry none p d = (if ¬ d.has p then pure (.error (.missing p)) else pure (plain d p) :
      StateM Disk (Except ScanError ClassNameSet)) d := rfl
  rw [h]
  cases hp : d.has p with
  | true => rfl
  | false =>
      rw [plain_of_not_has hp]
      rfl

/-- An outcome with what one more entry gives. -/
def Outcome.add (out : Outcome) : Except ScanError ClassNameSet → Outcome
  | .ok classes => { out with classes := out.classes.merge classes }
  | .error e => { out with skipped := out.skipped ++ [e] }

theorem all_none (ps : List Path) (d : Disk) :
    all none ps d = (ps.foldl (fun out p => out.add (plain d p)) {}, d) := by
  unfold all
  generalize ({} : Outcome) = out
  induction ps generalizing out with
  | nil => rfl
  | cons p ps ih =>
      rw [List.foldlM_cons, List.foldl_cons, ← ih]
      rw [bind_apply, bind_apply, entry_none]
      cases hp : plain d p with
      | ok classes => rfl
      | error e => rfl

theorem mem_all_none {ps : List Path} {name : String} :
    name ∈ (all none ps d).1.classes ↔ ∃ p ∈ ps, ∃ c, found? d p = some c ∧ name ∈ c := by
  have h (out : Outcome) : name ∈ (ps.foldl (fun out p => out.add (plain d p)) out).classes ↔
      name ∈ out.classes ∨ ∃ p ∈ ps, ∃ c, found? d p = some c ∧ name ∈ c := by
    induction ps generalizing out with
    | nil => simp
    | cons p ps ih =>
        have hadd : name ∈ (out.add (plain d p)).classes ↔
            name ∈ out.classes ∨ ∃ c, found? d p = some c ∧ name ∈ c := by
          cases hp : plain d p with
          | ok classes => simp [Outcome.add, found?, hp, Except.toOption]
          | error e => simp [Outcome.add, found?, hp, Except.toOption]
        rw [List.foldl_cons, ih, hadd, or_assoc]
        simp only [List.mem_cons, exists_eq_or_imp]
  rw [all_none, h]
  exact or_iff_right (ClassNameSet.not_mem_empty name)

end ClassScope.Scan
