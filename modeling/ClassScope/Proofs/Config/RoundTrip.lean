import ClassScope.Proofs.Config.Accepted
import ClassScope.Proofs.Text.RoundTrip
import ClassScope.Proofs.Toml.Lines
import ClassScope.Proofs.Toml.Sections

/-!
# Written configurations are read back

A configuration whose paths are texts can be written as a document, and the document reads as that configuration.
-/

namespace ClassScope

open Toml

/-! ## Parts of a document -/

namespace Toml.Render

theorem toList_text (s : String) : (text s).toList = Text.write s.toList := by
  rw [text, String.toList_ofList]

theorem toList_assign (key value : String) :
    (assign key value).toList = assignment key.toList value.toList ++ ['\n'] := by
  simp [assign, assignment]

theorem toList_header (key : String) : (header key).toList = '\n' :: (headerLine key.toList ++ ['\n']) := by
  simp [header, headerLine]

theorem toList_list (items : List String) : (list items).toList = array (items.map String.toList) := by
  match items with
  | [] => rfl
  | [item] => simp [list, array]
  | item :: item' :: items =>
      simp [list, array, itemLines, List.flatMap_map]

theorem path_ofString (s : String) : path (Path.ofString s) = .ok (text s) := by
  rw [path, Path.ofString, Utf8.decode_encode]

theorem paths_map_ofString (texts : List String) :
    paths (texts.map Path.ofString) = .ok (list (texts.map text)) := by
  have h : (texts.map Path.ofString).mapM path = .ok (texts.map text) := by
    induction texts with
    | nil => rfl
    | cons s texts ih =>
        rw [List.map_cons, List.mapM_cons, path_ofString, ih]
        rfl
  rw [paths, h]
  rfl

end Toml.Render

namespace Toml.Value

theorem asPaths_texts (texts : List String) :
    (array (texts.map .text)).asList asPath = .ok (texts.map Path.ofString) := by
  change (texts.map text).mapM asPath = _
  induction texts with
  | nil => rfl
  | cons s texts ih =>
      rw [List.map_cons, List.mapM_cons, ih]
      rfl

theorem asNatural_ofNat {bits n : Nat} (h : n < 1 <<< bits) : (integer n).asNatural bits = .ok n :=
  if_pos ⟨Int.natCast_nonneg n, h⟩

variable {σ : Type} {fields : List (Field σ)} {set : Value → σ → Except Misfit σ} {start next : σ}
  {key : String} {v : Value} {entries : Entries} {read : Except Misfit σ}

/-- A record is read entry by entry. -/
theorem asRecord_cons (name : String) (hset : fields.lookup key = some set) (hv : set v start = .ok next)
    (h : (table .header entries).asRecord name fields next = read) :
    (table .header ((key, v) :: entries)).asRecord name fields start = read := by
  subst h
  simp only [asRecord, List.foldlM_cons, hset, hv]
  rfl

end Toml.Value

namespace Config

/-- The texts of a configuration's paths. -/
structure Texts where
  home : Option String
  boot : List String
  dir : Option String

structure Spelled (c : Config) (t : Texts) : Prop where
  home : c.platformHome = t.home.map Path.ofString
  boot : c.defaultBoot = t.boot.map Path.ofString
  dir : c.index.dir = t.dir.map Path.ofString

variable {c : Config} {t : Texts}

theorem exists_map_ofString {p : Option Path} (h : ∀ q ∈ p, q.IsText) : ∃ s, p = Option.map Path.ofString s := by
  cases p with
  | none => exact ⟨none, rfl⟩
  | some q =>
      obtain ⟨s, rfl⟩ := h q rfl
      exact ⟨some s, rfl⟩

theorem exists_listMap_ofString {ps : List Path} (h : ∀ q ∈ ps, q.IsText) : ∃ ss, ps = List.map Path.ofString ss := by
  induction ps with
  | nil => exact ⟨[], rfl⟩
  | cons p ps ih =>
      obtain ⟨⟨s, rfl⟩, hps⟩ := List.forall_mem_cons.mp h
      obtain ⟨ss, rfl⟩ := ih hps
      exact ⟨s :: ss, rfl⟩

theorem Printable.exists_spelled (h : c.Printable) : ∃ t, c.Spelled t := by
  obtain ⟨home, hhome⟩ := exists_map_ofString h.home
  obtain ⟨boot, hboot⟩ := exists_listMap_ofString h.boot
  obtain ⟨dir, hdir⟩ := exists_map_ofString h.dir
  exact ⟨⟨home, boot, dir⟩, hhome, hboot, hdir⟩

/-! ## The lines that are written -/

/-- A line for a text that may be left out, with its end. -/
def optionalLine (key : String) : Option String → List Char
  | some s => assignment key.toList (Text.write s.toList) ++ ['\n']
  | none => []

/-- The lines of a configuration without the end of the last one. -/
def lines (c : Config) (t : Texts) : List Char :=
  optionalLine "platform_home" t.home ++
    (assignment "default_boot_classpath".toList (array (t.boot.map fun s => Text.write s.toList)) ++ '\n' ::
    (assignment "stale_entries".toList (Text.write c.stale.name.toList) ++ '\n' ::
    ('\n' :: (headerLine "index_cache".toList ++ '\n' ::
    (assignment "enabled".toList (Render.boolean c.index.enabled).toList ++ '\n' ::
    (optionalLine "dir" t.dir ++
    ('\n' :: (headerLine "reconnect".toList ++ '\n' ::
    (assignment "max_attempts".toList (Nat.toDigits 10 c.reconnect.maxAttempts) ++ '\n' ::
    assignment "delay_ms".toList (Nat.toDigits 10 c.reconnect.delayMs))))))))))

theorem optionalPath_eq (key : String) (s : Option String) :
    optionalPath key (s.map Path.ofString) = .ok (String.ofList (optionalLine key s)) := by
  cases s with
  | none => rfl
  | some s =>
      simp only [optionalPath, Option.map_some, Render.path_ofString, Except.map, Except.ok.injEq]
      rw [← String.toList_inj, Render.toList_assign, Render.toList_text, String.toList_ofList]
      rfl

theorem Printable.inRange_attempts (h : c.Printable) : Number.inRange c.reconnect.maxAttempts = true := by
  have hlt := h.attempts
  simp only [Number.inRange, decide_eq_true_eq]
  omega

theorem Printable.inRange_delay (h : c.Printable) : Number.inRange c.reconnect.delayMs = true := by
  have hle := h.delay
  simp only [Number.inRange, decide_eq_true_eq]
  omega

theorem render_eq (hc : c.Printable) (ht : c.Spelled t) : c.render = .ok (String.ofList (lines c t ++ ['\n'])) := by
  have attempts : Render.natural c.reconnect.maxAttempts = .ok (toString c.reconnect.maxAttempts) := by
    rw [Render.natural, if_pos hc.inRange_attempts]
  have delay : Render.natural c.reconnect.delayMs = .ok (toString c.reconnect.delayMs) := by
    rw [Render.natural, if_pos hc.inRange_delay]
  rw [render, ht.home, ht.boot, ht.dir, optionalPath_eq, optionalPath_eq, Render.paths_map_ofString, attempts, delay]
  refine congrArg Except.ok (String.toList_inj.mp ?_)
  simp [lines, Render.toList_assign, Render.toList_header, Render.toList_list, Render.toList_text,
    Function.comp_def]

/-! ## What is read from the lines -/

def optionalEntry (key : String) : Option String → Entries
  | some s => [(key, .text s)]
  | none => []

def topEntries (c : Config) (t : Texts) : Entries :=
  optionalEntry "platform_home" t.home ++
    [("default_boot_classpath", .array (t.boot.map .text)), ("stale_entries", .text c.stale.name)]

def indexEntries (c : Config) (t : Texts) : Entries :=
  ("enabled", .boolean c.index.enabled) :: optionalEntry "dir" t.dir

def reconnectEntries (c : Config) : Entries :=
  [("max_attempts", .integer c.reconnect.maxAttempts), ("delay_ms", .integer c.reconnect.delayMs)]

def sections (c : Config) (t : Texts) : List (String × Entries) :=
  [("index_cache", indexEntries c t), ("reconnect", reconnectEntries c)]

variable {cs rest w : List Char} {v : Value} {ss : List Statement}

theorem reads_assignment (h : Reads cs ss) (key : String) (hkey : Bare key.toList)
    (hw : Writes (nesting - 1) w v) (hrest : LineEnd rest cs) :
    Reads (assignment key.toList w ++ rest) (.assign ⟨[], key⟩ v :: ss) := by
  have hreads := h.assignment hkey hw hrest
  rw [String.ofList_toList] at hreads
  exact hreads

theorem reads_optionalLine (h : Reads cs ss) (key : String) (hkey : Bare key.toList) (s : Option String) :
    Reads (optionalLine key s ++ cs) (assigns (optionalEntry key s) ++ ss) := by
  cases s with
  | none => exact h
  | some s =>
      have hw := writes_text (nesting - 1) s.toList
      rw [String.ofList_toList] at hw
      rw [optionalLine, List.append_assoc]
      exact reads_assignment h key hkey hw (.more cs)

theorem reads_header (h : Reads cs ss) (key : String) (hkey : Bare key.toList) :
    Reads ('\n' :: (headerLine key.toList ++ '\n' :: cs)) (.header ⟨[], key⟩ :: ss) := by
  have hreads := h.header hkey (.more cs)
  rw [String.ofList_toList] at hreads
  exact hreads.blank

theorem forall₂_texts (depth : Nat) (texts : List String) :
    List.Forall₂ (Writes depth) (texts.map fun s => Text.write s.toList) (texts.map .text) := by
  induction texts with
  | nil => exact .nil
  | cons s texts ih =>
      have hw := writes_text depth s.toList
      rw [String.ofList_toList] at hw
      exact .cons hw ih

theorem reads_lines (hc : c.Printable) (t : Texts) :
    Reads (lines c t) (documentOf (topEntries c t) (sections c t)) := by
  have delay := reads_assignment reads_nil "delay_ms" (by decide) (writes_natural _ hc.inRange_delay) .last
  rw [List.append_nil] at delay
  have attempts := reads_assignment delay "max_attempts" (by decide) (writes_natural _ hc.inRange_attempts) (.more _)
  have reconnect := reads_header attempts "reconnect" (by decide)
  have dir := reads_optionalLine reconnect "dir" (by decide) t.dir
  have enabled := reads_assignment dir "enabled" (by decide) (writes_boolean _ c.index.enabled) (.more _)
  have index := reads_header enabled "index_cache" (by decide)
  have stale := reads_assignment index "stale_entries" (by decide) (writes_text _ c.stale.name.toList) (.more _)
  have boot := reads_assignment stale "default_boot_classpath" (by decide)
    (writes_array (forall₂_texts _ t.boot)) (.more _)
  have home := reads_optionalLine boot "platform_home" (by decide) t.home
  rw [String.ofList_toList] at home
  have same : documentOf (topEntries c t) (sections c t) = assigns (optionalEntry "platform_home" t.home) ++
      (.assign ⟨[], "default_boot_classpath"⟩ (.array (t.boot.map .text)) ::
      .assign ⟨[], "stale_entries"⟩ (.text c.stale.name) :: .header ⟨[], "index_cache"⟩ ::
      .assign ⟨[], "enabled"⟩ (.boolean c.index.enabled) :: (assigns (optionalEntry "dir" t.dir) ++
      [.header ⟨[], "reconnect"⟩, .assign ⟨[], "max_attempts"⟩ (.integer c.reconnect.maxAttempts),
        .assign ⟨[], "delay_ms"⟩ (.integer c.reconnect.delayMs)])) := by
    simp [documentOf, topEntries, sections, indexEntries, reconnectEntries, assigns]
  rw [same]
  exact home

/-! ## The document and the configuration -/

theorem names_optionalEntry (key : String) (s : Option String) :
    (optionalEntry key s).names = if s.isSome then [key] else [] := by
  cases s <;> rfl

theorem ofStatements?_lines (c : Config) (t : Texts) :
    Entries.ofStatements? (documentOf (topEntries c t) (sections c t)) =
      some (topEntries c t ++ [("index_cache", .table .header (indexEntries c t)),
        ("reconnect", .table .header (reconnectEntries c))]) := by
  have top : ((topEntries c t).names ++ (sections c t).map (·.1)).Nodup := by
    rw [topEntries, Entries.names_append, names_optionalEntry]
    cases t.home <;> simp [Entries.names, sections]
  have index : (indexEntries c t).names.Nodup := by
    have hnames : (indexEntries c t).names = "enabled" :: (optionalEntry "dir" t.dir).names := rfl
    rw [hnames, names_optionalEntry]
    cases t.dir <;> simp
  have reconnect : (reconnectEntries c).names.Nodup := by
    simp [Entries.names, reconnectEntries]
  exact Entries.ofStatements?_documentOf top
    (List.forall_mem_cons.mpr ⟨index, List.forall_mem_singleton.mpr reconnect⟩)

theorem asChoice_name (stale : StalePolicy) :
    (Value.text stale.name).asChoice ("dispose", StalePolicy.dispose) ("retain", .retain) = .ok stale := by
  cases stale <;> rfl

theorem decode_indexEntries (ht : c.Spelled t) :
    (Value.table .header (indexEntries c t)).asRecord "IndexCacheConfig" indexFields {} = .ok c.index := by
  obtain ⟨_, _, dir⟩ := t
  obtain ⟨_, _, _, ⟨enabled, _⟩, _⟩ := c
  cases ht.dir
  cases dir <;> rfl

theorem decode_reconnectEntries (hc : c.Printable) :
    (Value.table .header (reconnectEntries c)).asRecord "ReconnectConfig" reconnectFields {} = .ok c.reconnect := by
  have hdelay := hc.delay
  have attempts : (Value.integer c.reconnect.maxAttempts).asNatural 32 = .ok c.reconnect.maxAttempts :=
    Value.asNatural_ofNat hc.attempts
  have delay : (Value.integer c.reconnect.delayMs).asNatural 64 = .ok c.reconnect.delayMs :=
    Value.asNatural_ofNat (by omega)
  refine Value.asRecord_cons _ rfl (congrArg (Except.map _) attempts) ?_
  exact Value.asRecord_cons _ rfl (congrArg (Except.map _) delay) rfl

theorem decode_entries (hc : c.Printable) (ht : c.Spelled t) :
    decode (.table .header (topEntries c t ++ [("index_cache", .table .header (indexEntries c t)),
      ("reconnect", .table .header (reconnectEntries c))])) = .ok c := by
  have index := decode_indexEntries ht
  have reconnect := decode_reconnectEntries hc
  have rest : (Value.table .header [("default_boot_classpath", .array (t.boot.map .text)),
      ("stale_entries", .text c.stale.name), ("index_cache", .table .header (indexEntries c t)),
      ("reconnect", .table .header (reconnectEntries c))]).asRecord "ServiceConfig" fields
        { platformHome := c.platformHome } = .ok c := by
    refine Value.asRecord_cons _ rfl (congrArg (Except.map _) (Value.asPaths_texts t.boot)) ?_
    refine Value.asRecord_cons _ rfl (congrArg (Except.map _) (asChoice_name c.stale)) ?_
    refine Value.asRecord_cons _ rfl (congrArg (Except.map _) index) ?_
    refine Value.asRecord_cons _ rfl (congrArg (Except.map _) reconnect) ?_
    rw [← ht.boot]
    rfl
  rw [ht.home] at rest
  obtain ⟨home, boot, dir⟩ := t
  cases home with
  | none => exact rest
  | some home => exact Value.asRecord_cons _ rfl rfl rest

theorem head?_lines (c : Config) (t : Texts) : (lines c t).head? ≠ some '\uFEFF' := by
  obtain ⟨home, boot, dir⟩ := t
  cases home <;> simp [lines, optionalLine, assignment]

/-- What is written is read back. -/
theorem ofToml_lines (hc : c.Printable) (ht : c.Spelled t) : ofToml (String.ofList (lines c t)) = .ok c := by
  have statements := (reads_lines hc t).read?_ofList (head?_lines c t)
  simp only [ofToml, Entries.read?, statements, Option.bind_eq_bind, Option.bind_some, ofStatements?_lines,
    decode_entries hc ht]
  rfl

theorem not_mem_return_optionalLine (key : String) (hkey : '\r' ∉ key.toList) (s : Option String) :
    '\r' ∉ optionalLine key s := by
  cases s with
  | none => exact List.not_mem_nil
  | some s => simp [optionalLine, assignment, hkey, Text.not_mem_return_write]

/-- A return inside a text is written as an escape, and no other is written. -/
theorem not_mem_return_lines (c : Config) (t : Texts) : '\r' ∉ lines c t := by
  have boot : '\r' ∉ array (t.boot.map fun s => Text.write s.toList) :=
    not_mem_return_array (by simp [Text.not_mem_return_write])
  have digits (n : Nat) : '\r' ∉ Nat.toDigits 10 n := fun h => absurd (Number.isDigit_toDigits n _ h) (by decide)
  have enabled : '\r' ∉ (Render.boolean c.index.enabled).toList := by
    cases c.index.enabled <;> decide
  have home := not_mem_return_optionalLine "platform_home" (by decide) t.home
  have dir := not_mem_return_optionalLine "dir" (by decide) t.dir
  simp [lines, assignment, headerLine, boot, digits, enabled, home, dir, Text.not_mem_return_write]

end Config

end ClassScope
