import ClassScope.Proofs.ClassName.Parts
import ClassScope.Proofs.Scan.Plain

/-!
# Top-level classes

No class that a scan reports is nested. It may be a descriptor in two ways: a class file on its own is not asked
for one, and in a path only the whole file name is, so that a descriptor after a dot goes unnoticed.
-/

namespace ClassScope

/-! ## Paths of class files -/

namespace ClassName

/-- The file name of the path ends in a dot and that of a descriptor. -/
def HidesDescriptor (entry : String) : Prop :=
  ∃ front simple, IsDescriptor simple ∧ entry.toList = front ++ '.' :: simple ++ ".class".toList

theorem IsDescriptor.slash_not_mem {simple : List Char} (h : IsDescriptor simple) : '/' ∉ simple := by
  rcases h with rfl | rfl <;> decide

theorem IsDescriptor.dollar_not_mem {simple : List Char} (h : IsDescriptor simple) : '$' ∉ simple := by
  rcases h with rfl | rfl <;> decide

theorem dropEnding?_eq_some_iff {ending cs stem : List Char} :
    dropEnding? ending cs = some stem ↔ cs = stem ++ ending := by
  unfold dropEnding?
  constructor
  · intro h
    split at h
    · rename_i hsuffix
      obtain ⟨front, rfl⟩ := List.isSuffixOf_iff_suffix.mp hsuffix
      simpa using h
    · cases h
  · rintro rfl
    rw [if_pos (List.isSuffixOf_iff_suffix.mpr (List.suffix_append stem ending))]
    simp

theorem ofEntry?_eq_some_iff {entry name : String} : ofEntry? entry = some name ↔
    ¬ "META-INF/".toList <+: entry.toList ∧ ∃ stem, entry.toList = stem ++ ".class".toList ∧
      lastPart '/' stem ≠ [] ∧ IsTopLevel (lastPart '/' stem) ∧ name = String.ofList (dotted stem) := by
  rw [ ofEntry?, ofEntryChars?, ← List.isPrefixOf_iff_prefix]
  cases hprefix : "META-INF/".toList.isPrefixOf entry.toList with
  | true => simp
  | false =>
      simp only [Bool.false_eq_true, ↓reduceIte, not_false_eq_true, true_and, ← dropEnding?_eq_some_iff]
      cases hstem : dropEnding? ".class".toList entry.toList with
      | none => simp
      | some stem =>
          by_cases hname : lastPart '/' stem ≠ [] ∧ IsTopLevel (lastPart '/' stem)
          · simp only [if_pos hname, Option.map_some, Option.some.injEq]
            constructor
            · rintro rfl
              exact ⟨stem, rfl, hname.1, hname.2, rfl⟩
            · rintro ⟨_, rfl, -, -, rfl⟩
              rfl
          · simp only [if_neg hname, Option.map_none, reduceCtorEq, Option.some.injEq, false_iff]
            rintro ⟨_, rfl, hne, htop, -⟩
            exact hname ⟨hne, htop⟩

theorem toList_simple_dotted (stem : List Char) :
    (simple (String.ofList (dotted stem))).toList = lastPart '.' (lastPart '/' stem) := by
  rw [simple, String.toList_ofList, String.toList_ofList, lastPart_dotted]

theorem not_nested_of_entry {entry name : String} (h : ofEntry? entry = some name) :
    '$' ∉ (simple name).toList := by
  obtain ⟨-, stem, -, -, htop, rfl⟩ := ofEntry?_eq_some_iff.mp h
  rw [toList_simple_dotted]
  exact fun hmem => htop.1 (mem_of_mem_lastPart hmem)

/-- The name of a path is a descriptor's only when the path hides it: of the whole file name it was asked. -/
theorem isDescriptor_iff_of_entry {entry name : String} (h : ofEntry? entry = some name) :
    IsDescriptor (simple name).toList ↔ HidesDescriptor entry := by
  obtain ⟨-, stem, hentry, -, htop, rfl⟩ := ofEntry?_eq_some_iff.mp h
  constructor
  · intro hdesc
    rw [toList_simple_dotted] at hdesc
    rcases eq_lastPart_or '.' (lastPart '/' stem) with hall | ⟨front, hfront⟩
    · rw [← hall] at hdesc
      exact absurd hdesc (isTopLevel_iff.mp htop).2
    · rcases eq_lastPart_or '/' stem with hstem | ⟨dirs, hstem⟩
      · exact ⟨front, _, hdesc, by rw [hentry, ← hfront, ← hstem]⟩
      · refine ⟨dirs ++ '/' :: front, _, hdesc, ?_⟩
        rw [hentry, List.append_assoc dirs, List.cons_append, ← hfront, ← hstem]
  · rintro ⟨front, desc, hdesc, hhidden⟩
    obtain rfl : stem = front ++ '.' :: desc := List.append_cancel_right (hentry.symm.trans hhidden)
    have hdotted : dotted (front ++ '.' :: desc) = dotted front ++ '.' :: desc := by
      rw [dotted, List.map_append, List.map_cons, ← dotted, ← dotted, dotted_of_not_mem hdesc.slash_not_mem]
      rfl
    rw [simple, String.toList_ofList, String.toList_ofList, hdotted, lastPart_append hdesc.dot_not_mem]
    exact hdesc

end ClassName

namespace Scan

variable {d : Disk} {p : Path} {s : ClassNameSet} {name : String}

/-- The slash-separated paths that a directory or an archive lists. -/
inductive Lists (d : Disk) (p : Path) (entry : String) : Prop where
  | directory {loc modified} (hp : d.stat p = .ok (loc, .dir modified)) (he : entry ∈ filesBelow d loc)
  | archive {loc content modified executable names}
      (hp : d.stat p = .ok (loc, .file content modified executable)) (hf : format? p = some .archive)
      (hn : Archive.names content = .ok names) (he : entry ∈ names)
  | platformArchive {loc content modified executable names whole}
      (hp : d.stat p = .ok (loc, .file content modified executable)) (hf : format? p = some .platformArchive)
      (hn : Archive.names content = .ok names) (he : whole ∈ names) (hb : belowArchiveRoot? whole = some entry)

/-- The class that a class file on its own names. -/
def Defines (d : Disk) (p : Path) (name : String) : Prop :=
  ∃ loc content modified executable, d.stat p = .ok (loc, .file content modified executable) ∧
    format? p = some .classFile ∧ ClassFile.readName content = .ok name

theorem mem_ofEntries {entries : List String} :
    name ∈ ofEntries entries ↔ ∃ entry ∈ entries, ClassName.ofEntry? entry = some name := by
  rw [ofEntries, ClassNameSet.mem_ofList, List.mem_filterMap]

theorem mem_ofClassName {defined : String} :
    name ∈ ofClassName defined ↔ name = defined ∧ '$' ∉ (ClassName.simple defined).toList := by
  unfold ofClassName
  split
  · rename_i hnested
    exact ⟨fun h => absurd h (ClassNameSet.not_mem_empty name), fun h => absurd hnested h.2⟩
  · rename_i hnested
    rw [ClassNameSet.mem_ofList, List.mem_singleton]
    exact (and_iff_left hnested).symm

theorem plain_eq_ofFile {loc : Disk.Location} {content : Bytes} {modified : Int} {executable : Bool}
    (hp : d.stat p = .ok (loc, .file content modified executable)) : plain d p = ofFile p content := by
  rw [plain, hp]

theorem ofFile_classFile {content : Bytes} {defined : String} (hf : format? p = some .classFile)
    (hn : ClassFile.readName content = .ok defined) : ofFile p content = .ok (ofClassName defined) := by
  rw [ofFile, hf, hn]
  rfl

theorem listed_or_defined_of_mem_file {loc : Disk.Location} {content : Bytes} {modified : Int} {executable : Bool}
    (hp : d.stat p = .ok (loc, .file content modified executable)) (h : ofFile p content = .ok s)
    (hname : name ∈ s) : (∃ entry, Lists d p entry ∧ ClassName.ofEntry? entry = some name) ∨
      Defines d p name ∧ '$' ∉ (ClassName.simple name).toList := by
  cases hf : format? p with
  | none => rw [ofFile, hf] at h; cases h
  | some format =>
      cases format with
      | archive =>
          cases hn : Archive.names content with
          | error e => rw [ofFile, hf, hn] at h; cases h
          | ok names =>
              rw [ofFile, hf, hn] at h
              cases h
              obtain ⟨entry, he, hentry⟩ := mem_ofEntries.mp hname
              exact .inl ⟨entry, .archive hp hf hn he, hentry⟩
      | platformArchive =>
          cases hn : Archive.names content with
          | error e => rw [ofFile, hf, hn] at h; cases h
          | ok names =>
              rw [ofFile, hf, hn] at h
              cases h
              obtain ⟨entry, he, hentry⟩ := mem_ofEntries.mp hname
              obtain ⟨whole, hwhole, hb⟩ := List.mem_filterMap.mp he
              exact .inl ⟨entry, .platformArchive hp hf hn hwhole hb, hentry⟩
      | classFile =>
          cases hn : ClassFile.readName content with
          | error e => rw [ofFile, hf, hn] at h; cases h
          | ok defined =>
              rw [ofFile_classFile hf hn] at h
              obtain rfl := Except.ok.inj h
              obtain ⟨rfl, hnot⟩ := mem_ofClassName.mp hname
              exact .inr ⟨⟨loc, content, modified, executable, hp, hf, hn⟩, hnot⟩

theorem listed_or_defined_of_mem (h : plain d p = .ok s) (hname : name ∈ s) :
    (∃ entry, Lists d p entry ∧ ClassName.ofEntry? entry = some name) ∨
      Defines d p name ∧ '$' ∉ (ClassName.simple name).toList := by
  cases hp : d.stat p with
  | error e => rw [plain, hp] at h; cases h
  | ok found =>
      obtain ⟨loc, e⟩ := found
      cases e with
      | dir modified =>
          rw [plain, hp] at h
          rw [(ofDirectory_eq_ok_iff.mp h).2] at hname
          obtain ⟨entry, he, hentry⟩ := mem_ofEntries.mp hname
          exact .inl ⟨entry, .directory hp he, hentry⟩
      | file content modified executable =>
          rw [plain_eq_ofFile hp] at h
          exact listed_or_defined_of_mem_file hp h hname
      | link target modified => rw [plain, hp] at h; cases h

theorem mem_of_lists (h : plain d p = .ok s) {entry : String} (hlists : Lists d p entry)
    (hentry : ClassName.ofEntry? entry = some name) : name ∈ s := by
  cases hlists with
  | directory hp he =>
      rw [plain, hp] at h
      rw [(ofDirectory_eq_ok_iff.mp h).2]
      exact mem_ofEntries.mpr ⟨entry, he, hentry⟩
  | archive hp hf hn he =>
      rw [plain_eq_ofFile hp, ofFile, hf, hn] at h
      cases h
      exact mem_ofEntries.mpr ⟨entry, he, hentry⟩
  | platformArchive hp hf hn he hb =>
      rw [plain_eq_ofFile hp, ofFile, hf, hn] at h
      cases h
      exact mem_ofEntries.mpr ⟨entry, List.mem_filterMap.mpr ⟨_, he, hb⟩, hentry⟩

theorem mem_of_defines (h : plain d p = .ok s) (hdefines : Defines d p name)
    (hnot : '$' ∉ (ClassName.simple name).toList) : name ∈ s := by
  obtain ⟨loc, content, modified, executable, hp, hf, hn⟩ := hdefines
  rw [plain_eq_ofFile hp, ofFile_classFile hf hn] at h
  obtain rfl := Except.ok.inj h
  exact mem_ofClassName.mpr ⟨rfl, hnot⟩

/-- The names of a scan are those of the paths that the entry lists, or the one that it defines. -/
theorem mem_plain_iff (h : plain d p = .ok s) : name ∈ s ↔
    (∃ entry, Lists d p entry ∧ ClassName.ofEntry? entry = some name) ∨
      Defines d p name ∧ '$' ∉ (ClassName.simple name).toList := by
  constructor
  · exact listed_or_defined_of_mem h
  · rintro (⟨entry, hlists, hentry⟩ | ⟨hdefines, hnot⟩)
    · exact mem_of_lists h hlists hentry
    · exact mem_of_defines h hdefines hnot

/-- No reported class is nested. All of them are top-level exactly when the entry is no class file of a descriptor
and lists no path that hides one behind a dot. -/
theorem reported_top_level_iff (h : (entry none p d).1 = .ok s) :
    (∀ name ∈ s, '$' ∉ (ClassName.simple name).toList) ∧
    ((∀ name ∈ s, ClassName.IsTopLevel (ClassName.simple name).toList) ↔
      (∀ name, Defines d p name → ¬ ClassName.IsDescriptor (ClassName.simple name).toList) ∧
      ∀ entry, Lists d p entry → ClassName.HidesDescriptor entry → ClassName.ofEntry? entry = none) := by
  rw [entry_none] at h
  have hnested : ∀ name ∈ s, '$' ∉ (ClassName.simple name).toList := by
    intro name hname
    rcases (mem_plain_iff h).mp hname with ⟨entry, -, hentry⟩ | ⟨-, hnot⟩
    · exact ClassName.not_nested_of_entry hentry
    · exact hnot
  refine ⟨hnested, ?_⟩
  constructor
  · intro htop
    constructor
    · intro name hdefines hdesc
      have hname : name ∈ s := (mem_plain_iff h).mpr (.inr ⟨hdefines, hdesc.dollar_not_mem⟩)
      exact (ClassName.isTopLevel_iff.mp (htop name hname)).2 hdesc
    · intro entry hlists hhides
      cases hentry : ClassName.ofEntry? entry with
      | none => rfl
      | some name =>
          have hname : name ∈ s := (mem_plain_iff h).mpr (.inl ⟨entry, hlists, hentry⟩)
          have hdesc := (ClassName.isDescriptor_iff_of_entry hentry).mpr hhides
          exact absurd hdesc (ClassName.isTopLevel_iff.mp (htop name hname)).2
  · rintro ⟨hdefined, hlisted⟩ name hname
    refine ClassName.isTopLevel_iff.mpr ⟨hnested name hname, fun hdesc => ?_⟩
    rcases (mem_plain_iff h).mp hname with ⟨entry, hlists, hentry⟩ | ⟨hdefines, -⟩
    · have hhides := (ClassName.isDescriptor_iff_of_entry hentry).mp hdesc
      rw [hlisted entry hlists hhides] at hentry
      cases hentry
    · exact hdefined name hdefines hdesc

/-! ### A class file of a module -/

/-- A disk that holds nothing but the class file of a module. -/
def moduleFile : Disk :=
  { Disk.empty 0 with
    entries := (Disk.empty 0).entries ++
      [([[0], Utf8.encode "module-info.class"], .file (ClassFile.encode "module-info") 0 false)] }

def modulePath : Path :=
  .ofString "module-info.class"

theorem moduleFile_answer : found? moduleFile modulePath = some (.ofList ["module-info"]) := by
  decide +kernel

theorem moduleFile_defines : Defines moduleFile modulePath "module-info" :=
  ⟨[[0], Utf8.encode "module-info.class"], ClassFile.encode "module-info", 0, false, rfl, by decide, rfl⟩

/-- The class file of a module is reported under a name that is a descriptor. -/
theorem descriptor_of_module : ∃ s, (entry none modulePath moduleFile).1 = .ok s ∧
    (∀ name ∈ s, '$' ∉ (ClassName.simple name).toList) ∧
    ¬ ∀ name ∈ s, ClassName.IsTopLevel (ClassName.simple name).toList := by
  have h : (entry none modulePath moduleFile).1 = .ok (.ofList ["module-info"]) := by
    rw [entry_none]
    exact found?_eq_some_iff.mp moduleFile_answer
  obtain ⟨hnested, htop⟩ := reported_top_level_iff h
  refine ⟨_, h, hnested, fun hall => ?_⟩
  exact (htop.mp hall).1 "module-info" moduleFile_defines (by decide)

end Scan

end ClassScope
