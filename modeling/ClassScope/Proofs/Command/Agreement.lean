import ClassScope.Command.Report
import ClassScope.Proofs.Analysis.Unindexed
import ClassScope.Proofs.ClassName.Parts

/-!
# What the commands tell of one module

The classes that are listed, those that are found available and those that are listed by the start of their
simple names agree with each other, whatever the module declares, as long as no index is kept.
-/

namespace ClassScope

variable {c : Config} {env : Environment} {d : Disk} {name : String}

/-! ## The part after the last dot -/

/-- Such a part stands after the last dot of a name, or is all of a name without a dot. -/
def AfterLastDot (part : List Char) (name : String) : Prop :=
  '.' ∉ part ∧ (name.toList = part ∨ ∃ front, name.toList = front ++ '.' :: part)

theorem afterLastDot_iff {part : List Char} : AfterLastDot part name ↔ part = (ClassName.simple name).toList := by
  rw [ClassName.simple, String.toList_ofList]
  constructor
  · rintro ⟨hno, hall | ⟨front, hfront⟩⟩
    · rw [hall, ClassName.lastPart_of_not_mem hno]
    · rw [hfront, ClassName.lastPart_append hno]
  · rintro rfl
    exact ⟨ClassName.not_mem_lastPart _ _, ClassName.eq_lastPart_or _ _⟩

/-- The names that are shown for a start are those of a list whose simple names have that start. -/
theorem qualified_withStart (start : String) (classes : ClassNameSet) :
    (Analysis.withStart start classes).map (·.qualified) =
      classes.toList.filter fun name => start.toList.isPrefixOf (ClassName.simple name).toList := by
  rw [Analysis.withStart, List.filter_map, List.map_map]
  exact List.map_id _

/-! ## The module of a command line -/

namespace Command

variable {m : ModuleArgs}

theorem openModule_sound (c : Config) (env : Environment) (d : Disk) (m : ModuleArgs) :
    (openModule c env d m).2.Sound [] :=
  (Analysis.evolves_modules (Session.ofConfig_sound c env d).analysis
    (.push Module.Later.refl _ _)).sound

theorem openModule_unindexed (hc : c.index.enabled = false) (env : Environment) (d : Disk) (m : ModuleArgs) :
    (openModule c env d m).2.Unindexed d := by
  have hindex : c.indexDir? env = none := by simp [Config.indexDir?, hc]
  exact ⟨rfl, hindex, hindex⟩

theorem openModule_answers (c : Config) (env : Environment) (d : Disk) (m : ModuleArgs) :
    (openModule c env d m).2.Answers := by
  intro q
  cases q with
  | home path => exact ⟨_, rfl⟩
  | compile k => cases k <;> exact ⟨_, rfl⟩
  | boot k => cases k <;> exact ⟨_, rfl⟩

/-- The commands for one module all speak of one service of that module. -/
theorem withService_eq (hc : c.index.enabled = false) (env : Environment) (d : Disk) (m : ModuleArgs) :
    ∃ id s a, a.Unindexed d ∧ (a.module id).settings = m.settings ∧ (a.service s).module = some id ∧
      (a.module id).sources = .ok ∅ ∧
      ∀ report, withService c env d m report = (.ok (report id s a).1, (report id s a).2.disk) := by
  obtain ⟨s, a, hget, hunindexed, hmodules, hmodule⟩ :=
    Analysis.get_found (openModule_sound c env d m) (openModule_unindexed hc env d m) nofun
      (openModule_answers c env d m) (openModule c env d m).1
  have same : a.module (openModule c env d m).1 =
      (openModule c env d m).2.module (openModule c env d m).1 := by
    rw [Analysis.module, hmodules, Analysis.module]
  refine ⟨_, s, a, hunindexed, by rw [same]; rfl, hmodule, by rw [same]; rfl, fun report => ?_⟩
  simp only [withService, hget]

/-- What is listed beyond what is available was found in an output directory. -/
theorem scanned_of_mem_types {a : Analysis} {s : ServiceId} {id : ModuleId} (h : a.Unindexed d)
    (hmodule : (a.service s).module = some id) (hsources : (a.module id).sources = .ok ∅)
    (hname : name ∈ (a.types s (a.module id).sources).1) (hnone : a.isAvailable s name = false) :
    ∃ o ∈ (a.module id).outputs, ∃ classes, Scan.plain d o = .ok classes ∧ name ∈ classes := by
  rcases Analysis.mem_types.mp hname with hdep | hboot | ⟨k, own, hk, hown, hmem⟩
  · rw [Analysis.isAvailable_iff.mpr (Or.inl hdep)] at hnone
    cases hnone
  · rw [Analysis.isAvailable_iff.mpr (Or.inr hboot)] at hnone
    cases hnone
  · cases hmodule.symm.trans hk
    cases hsources.symm.trans hown
    have hscanned := hmem.resolve_left (ClassNameSet.not_mem_empty name)
    rw [h.dependencies, h.disk, Scan.mem_all_none] at hscanned
    obtain ⟨o, ho, classes, hfound, hclass⟩ := hscanned
    exact ⟨o, (List.mem_filter.mp ho).1, classes, Scan.found?_eq_some_iff.mp hfound, hclass⟩

/-! ## Agreement -/

/-- Every command for a module succeeds in reporting, as long as no index is kept, and leaves the disk as it is.
What is available is listed, what is listed and not available is in an output directory, and what is shown for a
start are the listed names whose part after the last dot has that start. -/
theorem reports_agree {i : Invocation} (h : i.loadConfig d = .ok c) (hc : c.index.enabled = false)
    (env : Environment) (m : ModuleArgs) :
    ∃ lines : List String,
      (⟨i.config, .types m none⟩ : Invocation).report env d = (.ok ⟨lines, true⟩, d) ∧
      lines.Pairwise (· < ·) ∧
      (∀ name, ∃ told available,
        (⟨i.config, .check m name⟩ : Invocation).report env d = (.ok ⟨told, available⟩, d) ∧
        (available = true → name ∈ lines) ∧
        (name ∈ lines → available = false →
          ∃ o ∈ m.outputs, ∃ classes, Scan.plain d o = .ok classes ∧ name ∈ classes)) ∧
      ∀ start, ∃ shown,
        (⟨i.config, .types m (some start)⟩ : Invocation).report env d = (.ok ⟨shown, true⟩, d) ∧
        (start = "" → shown = []) ∧
        (start ≠ "" → shown.Sublist lines ∧ ∀ name, name ∈ shown ↔
          name ∈ lines ∧ ∃ part, AfterLastDot part name ∧ start.toList <+: part) := by
  obtain ⟨id, s, a, hunindexed, hsettings, hmodule, hsources, hservice⟩ := withService_eq hc env d m
  have houtputs : (a.module id).outputs = m.outputs := by rw [Module.outputs, hsettings]; rfl
  have hdisk : (a.types s (a.module id).sources).2.disk = d := (hunindexed.types s _).disk
  have run (action : Action) : (⟨i.config, action⟩ : Invocation).loadConfig d = .ok c := h
  refine ⟨(a.types s (a.module id).sources).1.toList, ?_, ?_, fun name => ?_, fun start => ?_⟩
  · simp only [Invocation.report, run, hservice, typesReport, hdisk]
  · exact (a.types s (a.module id).sources).1.ascending
  · refine ⟨[name ++ ": " ++ if a.isAvailable s name then "available" else "not found"],
      a.isAvailable s name, ?_, fun havailable => ?_, fun hname hnone => ?_⟩
    · simp only [Invocation.report, run, hservice, checkReport, hunindexed.disk]
    · rcases Analysis.isAvailable_iff.mp havailable with hdep | hboot
      · exact Analysis.mem_types.mpr (Or.inl hdep)
      · exact Analysis.mem_types.mpr (Or.inr (Or.inl hboot))
    · exact houtputs ▸ scanned_of_mem_types hunindexed hmodule hsources hname hnone
  · by_cases hstart : start = ""
    · subst hstart
      refine ⟨[], ?_, fun _ => rfl, fun hne => absurd rfl hne⟩
      simp only [Invocation.report, run, hservice, typesReport, hunindexed.disk]
    · refine ⟨(Analysis.withStart start (a.types s (a.module id).sources).1).map (·.qualified), ?_,
        fun he => absurd he hstart, fun _ => ?_⟩
      · simp only [Invocation.report, run, hservice, typesReport, hdisk]
      · rw [qualified_withStart]
        refine ⟨List.filter_sublist, fun name => ?_⟩
        rw [List.mem_filter, List.isPrefixOf_iff_prefix]
        simp only [afterLastDot_iff, exists_eq_left]

def settingsFile : Path :=
  Path.ofString "k.toml"

/-- A directory of classes as a boot entry by default, another one as a dependency, and one that sources are
compiled to. -/
def project : Disk :=
  { Disk.empty 0 with entries := [([[0]], .dir 0),
    ([[0], settingsFile.bytes], .file (Utf8.encode "default_boot_classpath = ['boot']") 0 false),
    ([[0], Utf8.encode "boot"], .dir 0), ([[0], Utf8.encode "boot", Utf8.encode "B.class"], .file [] 0 false),
    ([[0], Utf8.encode "lib"], .dir 0), ([[0], Utf8.encode "lib", Utf8.encode "A.class"], .file [] 0 false),
    ([[0], Utf8.encode "out"], .dir 0), ([[0], Utf8.encode "out", Utf8.encode "p"], .dir 0),
    ([[0], Utf8.encode "out", Utf8.encode "p", Utf8.encode "Own.class"], .file [] 0 false)] }

def compiled : ModuleArgs :=
  { classpath := [Path.ofString "lib", Path.ofString "none.jar"], outputs := [Path.ofString "out"] }

theorem reports_agree_of_compiled :
    ∃ lines told, "p.Own" ∈ lines ∧
      (⟨some settingsFile, .types compiled none⟩ : Invocation).report {} project = (.ok ⟨lines, true⟩, project) ∧
      (⟨some settingsFile, .check compiled "p.Own"⟩ : Invocation).report {} project =
        (.ok ⟨told, false⟩, project) ∧
      ∃ o ∈ compiled.outputs, ∃ classes, Scan.plain project o = .ok classes ∧ "p.Own" ∈ classes := by
  have loaded : ∃ c, (⟨some settingsFile, .config⟩ : Invocation).loadConfig project = .ok c ∧
      c.index.enabled = false := by
    have known : ((⟨some settingsFile, .config⟩ : Invocation).loadConfig project).toOption.map
        (·.index.enabled) = some false := by decide +kernel
    generalize (⟨some settingsFile, .config⟩ : Invocation).loadConfig project = x at known
    cases x with
    | error e => cases known
    | ok c => exact ⟨c, rfl, Option.some.inj known⟩
  have listed : ((⟨some settingsFile, .types compiled none⟩ : Invocation).report {} project).1.toOption.map
      (·.lines) = some ["A", "B", "p.Own"] := by decide +kernel
  have missing : ((⟨some settingsFile, .check compiled "p.Own"⟩ : Invocation).report {} project).1.toOption.map
      (·.success) = some false := by decide +kernel
  obtain ⟨c, hload, hindex⟩ := loaded
  obtain ⟨lines, htypes, -, checks, -⟩ := reports_agree hload hindex {} compiled
  obtain ⟨told, available, hcheck, -, scanned⟩ := checks "p.Own"
  rw [htypes] at listed
  rw [hcheck] at missing
  cases listed
  cases missing
  have own : "p.Own" ∈ ["A", "B", "p.Own"] := by decide
  exact ⟨_, told, own, htypes, hcheck, scanned own rfl⟩

end Command

end ClassScope
