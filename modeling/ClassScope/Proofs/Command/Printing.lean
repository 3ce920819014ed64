import ClassScope.Command.Report
import ClassScope.Proofs.Config.RoundTrip

/-!
# The configuration that is reported

The lines that are reported for a configuration that was read from a document make a document again, and it reads
as that configuration.
-/

namespace ClassScope.Command

open Toml

variable {cs : List Char} {c : Config}

/-! ## Lines and their text -/

theorem lineParts_cons {c : Char} (h : c ≠ '\r') (cs : List Char) :
    lineParts (c :: cs) =
      if c = '\n' then [] :: lineParts cs
      else match lineParts cs with
        | part :: parts => (c :: part) :: parts
        | [] => [[c]] := by
  conv => lhs; unfold lineParts
  split
  case h_1 he => cases he
  case h_2 he => cases he; exact absurd rfl h
  case h_3 he => cases he; rfl

/-- Without returns, what ends in a line feed falls into what stands between the line feeds. -/
theorem lineParts_lineEnd (h : '\r' ∉ cs) : lineParts (cs ++ ['\n']) = cs.splitOn '\n' := by
  induction cs with
  | nil => rfl
  | cons c cs ih =>
      obtain ⟨hc, hcs⟩ := not_or.mp (mt List.mem_cons.mpr h)
      rw [List.cons_append, lineParts_cons (Ne.symm hc), ih hcs, List.splitOn, List.splitOn,
        List.splitOnP_cons_eq_if_modifyHead]
      by_cases hend : c = '\n'
      · simp [hend]
      · cases hparts : cs.splitOnP (· == '\n') with
        | nil => exact absurd hparts (List.splitOnP_ne_nil _ _)
        | cons part parts => simp [hend]

theorem intercalate_linesOf (h : '\r' ∉ cs) :
    "\n".intercalate (linesOf (String.ofList (cs ++ ['\n']))) = String.ofList cs := by
  have parts : (linesOf (String.ofList (cs ++ ['\n']))).map String.toList = cs.splitOn '\n' := by
    rw [linesOf, String.toList_ofList, lineParts_lineEnd h, List.map_map]
    simp [Function.comp_def]
  rw [← String.toList_inj, String.toList_intercalate, parts]
  exact (List.intercalate_splitOn '\n').trans String.toList_ofList.symm

/-! ## What is reported -/

theorem loadConfig_eq {p : Path} {d : Disk} {text : String} (hd : d.read p = .ok (Utf8.encode text))
    (h : Config.ofToml text = .ok c) (action : Action) :
    (⟨some p, action⟩ : Invocation).loadConfig d = .ok c := by
  simp only [Invocation.loadConfig, Config.load, hd, Utf8.decode_encode, h]
  rfl

/-- A configuration that is read can be written. The lines that are reported for it, with line feeds between them,
are read as the same configuration, and the command reports them wherever its file holds the text. -/
theorem config_report_reads_back {text : String} (h : Config.ofToml text = .ok c) :
    ∃ rendered, c.render = .ok rendered ∧
      Config.ofToml ("\n".intercalate (linesOf rendered)) = .ok c ∧
      ∀ (p : Path) (env : Environment) (d : Disk), d.read p = .ok (Utf8.encode text) →
        (⟨some p, .config⟩ : Invocation).report env d = (.ok ⟨linesOf rendered, true⟩, d) := by
  have hc : c.Printable := Config.printable_of_ofToml h
  obtain ⟨t, ht⟩ := hc.exists_spelled
  have hrender := Config.render_eq hc ht
  refine ⟨_, hrender, ?_, fun p env d hd => ?_⟩
  · rw [intercalate_linesOf (Config.not_mem_return_lines c t)]
    exact Config.ofToml_lines hc ht
  · simp only [Invocation.report, loadConfig_eq hd h, configReport, hrender]

/-- Texts in several quotes and with escapes, and the greatest numbers there can be. -/
def quotedSettings : String :=
  "platform_home = \"C:\\\\jdk\\u0007\\r\"\n" ++
    "default_boot_classpath = [\"it's\\n\\\"in\\\"\", '', \"\\u00E9'''\", 'a\\b']\n" ++
    "reconnect = [4294967295, 9223372036854775807]"

def quotedConfig : Config where
  platformHome := some (Path.ofString "C:\\jdk\x07\r")
  defaultBoot := [Path.ofString "it's\n\"in\"", Path.ofString "", Path.ofString "é'''", Path.ofString "a\\b"]
  reconnect := ⟨4294967295, 9223372036854775807⟩

def quotedFile : Path :=
  Path.ofString "quoted.toml"

def quotedDisk : Disk :=
  { Disk.empty 0 with entries := [([[0]], .dir 0),
    ([[0], quotedFile.bytes], .file (Utf8.encode quotedSettings) 0 false)] }

theorem config_report_of_quoted :
    ∃ lines, Config.ofToml quotedSettings = .ok quotedConfig ∧
      (⟨some quotedFile, .config⟩ : Invocation).report {} quotedDisk = (.ok ⟨lines, true⟩, quotedDisk) ∧
      Config.ofToml ("\n".intercalate lines) = .ok quotedConfig := by
  have known : (Config.ofToml quotedSettings).toOption = some quotedConfig := by decide +kernel
  have loaded : Config.ofToml quotedSettings = .ok quotedConfig := by
    generalize Config.ofToml quotedSettings = x at known
    cases x with
    | error e => cases known
    | ok c => exact congrArg Except.ok (Option.some.inj known)
  obtain ⟨rendered, -, hback, hreport⟩ := config_report_reads_back loaded
  exact ⟨linesOf rendered, loaded, hreport quotedFile {} quotedDisk rfl, hback⟩

end ClassScope.Command
