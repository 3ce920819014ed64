import ClassScope.Archive.Writer
import ClassScope.Proofs.Scan.TopLevel
import ClassScope.Proofs.Scan.Walks
import ClassScope.Proofs.Text.RoundTrip

/-!
# Directories and archives of the same files

A directory tree, an archive of its files and a platform archive of them hold the same classes. Only a directory can
be too deep: each directory in it is opened by its whole path, and a path has a longest length.
-/

namespace ClassScope.Scan

variable {d d' : Disk} {p a : Path} {loc : Disk.Location} {m : Int} {names : List String}

/-! ## Trees of files -/

/-- Below the location there are directories and plain files, in directories, and their names are UTF-8. -/
structure FileTree (d : Disk) (loc : Disk.Location) : Prop where
  closed : d.Closed loc
  plain : ∀ names e, (names, e) ∈ d.below loc →
    e.isDir = true ∨ ∃ content m executable, e = .file content m executable
  texts : ∀ names e, (names, e) ∈ d.below loc → ∀ name ∈ names, ∃ text, name = Utf8.encode text

/-- A file of the tree, by its path from the top. -/
def HasFile (d : Disk) (loc : Disk.Location) (path : String) : Prop :=
  ∃ (names : List String) (content : Bytes) (m : Int) (executable : Bool),
    (names.map Utf8.encode, .file content m executable) ∈ d.below loc ∧ path = "/".intercalate names

theorem relativePath_encode (names : List String) :
    relativePath (names.map Utf8.encode) = "/".intercalate names := by
  rw [relativePath, List.map_map]
  congr 1
  exact List.map_id'' Utf8.lossy_encode names

theorem mem_filesBelow_iff (tree : FileTree d loc) {path : String} :
    path ∈ filesBelow d loc ↔ HasFile d loc path := by
  rw [filesBelow, List.mem_map]
  constructor
  · rintro ⟨⟨names, e⟩, hmem, rfl⟩
    obtain ⟨hmem, he⟩ := List.mem_filter.mp hmem
    rcases tree.plain names e hmem with hdir | ⟨content, m, executable, rfl⟩
    · simp [hdir] at he
    · have hnames : (names.map Utf8.lossy).map Utf8.encode = names := by
        rw [List.map_map]
        refine (List.map_congr_left fun name hname => ?_).trans (List.map_id names)
        obtain ⟨text, rfl⟩ := tree.texts names _ hmem name hname
        rw [Function.comp_apply, Utf8.lossy_encode, id_eq]
      refine ⟨names.map Utf8.lossy, content, m, executable, ?_, rfl⟩
      rwa [hnames]
  · rintro ⟨names, content, m, executable, hmem, rfl⟩
    exact ⟨_, List.mem_filter.mpr ⟨hmem, rfl⟩, relativePath_encode names⟩

/-! ## Archives of files -/

/-- The name of an entry that is no directory. -/
def IsFileName (name : String) : Prop :=
  name.toList.getLast? ≠ some '/'

instance (name : String) : Decidable (IsFileName name) :=
  inferInstanceAs (Decidable (_ ≠ _))

/-- An archive of that format whose entries have those names. -/
structure Archived (d : Disk) (a : Path) (f : Format) (names : List String) : Prop where
  format : format? a = some f
  content : ∃ loc content m executable,
    d.stat a = .ok (loc, .file content m executable) ∧ Archive.names content = .ok names

/-- The files of the archive have these paths. Directories may have entries too. -/
def HoldsFiles (names : List String) (files : String → Prop) : Prop :=
  ∀ path, files path ↔ path ∈ names ∧ IsFileName path

/-- Below the directory of classes the files have these paths. Anything may stand outside of it. -/
def HoldsClassFiles (names : List String) (files : String → Prop) : Prop :=
  ∀ path, files path ↔ "classes/" ++ path ∈ names ∧ IsFileName ("classes/" ++ path)

theorem getLast?_of_isSome {path : String} (h : (ClassName.ofEntry? path).isSome) :
    path.toList.getLast? = some 's' := by
  obtain ⟨name, hname⟩ := Option.isSome_iff_exists.mp h
  obtain ⟨-, stem, hpath, -⟩ := ClassName.ofEntry?_eq_some_iff.mp hname
  rw [hpath, List.getLast?_append]
  rfl

theorem isFileName_of_isSome {path : String} (h : (ClassName.ofEntry? path).isSome) : IsFileName path := by
  rw [IsFileName, getLast?_of_isSome h]
  decide

theorem belowArchiveRoot?_eq_some_iff {entry rest : String} :
    belowArchiveRoot? entry = some rest ↔ entry = "classes/" ++ rest := by
  simp only [belowArchiveRoot?]
  constructor
  · intro h
    split at h
    case isTrue hp =>
        obtain ⟨cs, hcs⟩ := List.isPrefixOf_iff_prefix.mp hp
        obtain rfl := Option.some.inj h
        apply String.toList_inj.mp
        have hroot : "classes/".toList = archiveRoot := rfl
        rw [← hcs, List.drop_left, String.toList_append, hroot, String.toList_ofList]
    case isFalse => cases h
  · rintro rfl
    have hcs : ("classes/" ++ rest).toList = archiveRoot ++ rest.toList := String.toList_append
    rw [hcs, if_pos (List.isPrefixOf_iff_prefix.mpr (List.prefix_append _ _)), List.drop_left,
      String.ofList_toList]

/-- What counts is which paths of classes there are. -/
theorem mem_ofEntries_iff {entries : List String} {files : String → Prop} {name : String}
    (h : ∀ path, (ClassName.ofEntry? path).isSome → (path ∈ entries ↔ files path)) :
    name ∈ ofEntries entries ↔ ∃ path, files path ∧ ClassName.ofEntry? path = some name := by
  have hsome {path : String} (hname : ClassName.ofEntry? path = some name) :
      (ClassName.ofEntry? path).isSome := by rw [hname]; rfl
  rw [mem_ofEntries]
  constructor
  · rintro ⟨path, hpath, hname⟩
    exact ⟨path, (h path (hsome hname)).mp hpath, hname⟩
  · rintro ⟨path, hpath, hname⟩
    exact ⟨path, (h path (hsome hname)).mpr hpath, hname⟩

theorem HoldsFiles.ofEntries_eq {files : String → Prop} (h : HoldsFiles names files) {s : ClassNameSet}
    (hs : ∀ name, name ∈ s ↔ ∃ path, files path ∧ ClassName.ofEntry? path = some name) : ofEntries names = s := by
  apply ClassNameSet.eq_of_mem_iff
  intro name
  rw [hs]
  refine mem_ofEntries_iff fun path hpath => ?_
  rw [h path]
  exact (and_iff_left (isFileName_of_isSome hpath)).symm

theorem HoldsClassFiles.ofEntries_eq {files : String → Prop} (h : HoldsClassFiles names files) {s : ClassNameSet}
    (hs : ∀ name, name ∈ s ↔ ∃ path, files path ∧ ClassName.ofEntry? path = some name) :
    ofEntries (names.filterMap belowArchiveRoot?) = s := by
  apply ClassNameSet.eq_of_mem_iff
  intro name
  rw [hs]
  refine mem_ofEntries_iff fun path hpath => ?_
  have hfile : IsFileName ("classes/" ++ path) := by
    have hlast := getLast?_of_isSome hpath
    rw [IsFileName, String.toList_append, List.getLast?_append, hlast]
    decide
  rw [h path, and_iff_left hfile, List.mem_filterMap]
  simp only [belowArchiveRoot?_eq_some_iff, exists_eq_right]

/-! ## All of them -/

theorem Archived.entry_eq (h : Archived d a .archive names) : (entry none a d).1 = .ok (ofEntries names) := by
  obtain ⟨loc, content, m, executable, ha, hn⟩ := h.content
  rw [entry_none, plain_eq_ofFile ha, ofFile, h.format, hn]
  rfl

theorem Archived.platform_entry_eq (h : Archived d a .platformArchive names) :
    (entry none a d).1 = .ok (ofEntries (names.filterMap belowArchiveRoot?)) := by
  obtain ⟨loc, content, m, executable, ha, hn⟩ := h.content
  rw [entry_none, plain_eq_ofFile ha, ofFile, h.format, hn]
  rfl

/-- The directory could be opened through every path below it. -/
def Fits (d : Disk) (p : Path) (loc : Disk.Location) : Prop :=
  ∀ names m, (names, .dir m) ∈ d.below loc → (p.descend names).bytes.length ≤ Disk.longestPath

theorem entry_of_directory (hp : d.stat p = .ok (loc, .dir m)) : (entry none p d).1 = ofDirectory d p loc := by
  rw [entry_none, plain, hp]

/-- A tree of files has one set of classes: those of the paths that stand for one. Archives of the files hold that
set, whatever the order of their entries, and so does the directory, whatever the order in which it is listed, unless
it is too deep for the path that it is opened by. However it is listed, that comes to an end. -/
theorem directory_and_archives_alike (hp : d.stat p = .ok (loc, .dir m)) (tree : FileTree d loc) :
    ∃ s : ClassNameSet,
      (∀ name, name ∈ s ↔ ∃ path, HasFile d loc path ∧ ClassName.ofEntry? path = some name) ∧
      (Fits d p loc → (entry none p d).1 = .ok s) ∧
      (¬ Fits d p loc → ∃ names m, (names, .dir m) ∈ d.below loc ∧
        Disk.longestPath < (p.descend names).bytes.length ∧
        (entry none p d).1 = .error (.unreadable (p.descend names) .nameTooLong)) ∧
      (WellFounded fun w' w => Walk.Step d p loc w w') ∧
      (∀ w, Walk.Reaches d p loc w →
        (∃ w', Relation.ReflTransGen (Walk.Step d p loc) w w' ∧ (w'.pending = [] ∨ w'.Stuck p)) ∧
        (w.pending = [] → Fits d p loc ∧ ofEntries (w.files.map relativePath) = s) ∧
        (w.Stuck p → ¬ Fits d p loc)) ∧
      ∀ (d' : Disk) (a : Path) (names : List String),
        (Archived d' a .archive names → HoldsFiles names (HasFile d loc) → (entry none a d').1 = .ok s) ∧
        (Archived d' a .platformArchive names → HoldsClassFiles names (HasFile d loc) →
          (entry none a d').1 = .ok s) := by
  have hs (name : String) : name ∈ ofEntries (filesBelow d loc) ↔
      ∃ path, HasFile d loc path ∧ ClassName.ofEntry? path = some name :=
    mem_ofEntries_iff fun path _ => mem_filesBelow_iff tree
  have hfits : Fits d p loc ↔ d.unopened? p loc = none := Disk.unopened?_eq_none_iff.symm
  refine ⟨ofEntries (filesBelow d loc), hs, ?_, ?_, Walk.wellFounded_step d p loc, ?_, ?_⟩
  · intro h
    rw [entry_of_directory hp]
    exact ofDirectory_eq_ok_iff.mpr ⟨hfits.mp h, rfl⟩
  · intro h
    obtain ⟨q, hq⟩ := Option.ne_none_iff_exists'.mp (hfits.not.mp h)
    obtain ⟨names, m, hmem, rfl, hlong⟩ := Disk.unopened?_eq_some hq
    refine ⟨names, m, hmem, hlong, ?_⟩
    rw [entry_of_directory hp, ofDirectory, hq]
  · intro w hw
    refine ⟨Walk.exists_end d p loc w, ?_, ?_⟩
    · intro done
      obtain ⟨hopen, hset⟩ := ofDirectory_eq_ok_iff.mp (hw.complete tree.closed done)
      exact ⟨hfits.mpr hopen, hset⟩
    · intro hstuck h
      obtain ⟨q, hq⟩ := hw.stuck tree.closed (Disk.length_le_of_stat hp) hstuck
      rw [ofDirectory, hfits.mp h] at hq
      cases hq
  · intro d' a names
    constructor
    · intro ha hfiles
      rw [ha.entry_eq, hfiles.ofEntries_eq hs]
    · intro ha hfiles
      rw [ha.platform_entry_eq, hfiles.ofEntries_eq hs]

/-! ### A tree and its archives -/

namespace Example

def archive : List String :=
  ["META-INF/", "META-INF/C.class", "sub/META-INF/B.class", "sub/", "sub/A.class"]

def platformArchive : List String :=
  ["E.class", "classes/", "classes/sub/A.class", "classes/META-INF/C.class", "classes/sub/META-INF/B.class"]

/-- A directory with three files, two of them in directories that count only at the top, and an empty directory that
is named like a class. Beside it there are the archives of the same files. -/
def files : List (List String × Disk.Entry) :=
  [(["d"], .dir 0), (["d", "sub"], .dir 0), (["d", "sub", "A.class"], .file [1] 0 false),
   (["d", "sub", "META-INF"], .dir 0), (["d", "sub", "META-INF", "B.class"], .file [2] 0 false),
   (["d", "META-INF"], .dir 0), (["d", "META-INF", "C.class"], .file [3] 0 false),
   (["d", "D.class"], .dir 0), (["a.jar"], .file (Archive.encode archive) 0 false),
   (["m.jmod"], .file (Archive.encode platformArchive) 0 false)]

def disk : Disk :=
  { Disk.empty 0 with
    entries := (Disk.empty 0).entries ++ files.map fun (names, e) => ([0] :: names.map Utf8.encode, e) }

def top : Disk.Location :=
  [[0], Utf8.encode "d"]

def path : Path :=
  .ofString "d"

/-- The same directory, by a path that is almost as long as paths can be. -/
def longPath : Path :=
  ⟨Utf8.encode "d" ++ List.replicate 4092 Path.slash⟩

def paths : List String :=
  ["sub/A.class", "sub/META-INF/B.class", "META-INF/C.class"]

theorem below_top : disk.below top = [([Utf8.encode "sub"], .dir 0),
    ([Utf8.encode "sub", Utf8.encode "A.class"], .file [1] 0 false),
    ([Utf8.encode "sub", Utf8.encode "META-INF"], .dir 0),
    ([Utf8.encode "sub", Utf8.encode "META-INF", Utf8.encode "B.class"], .file [2] 0 false),
    ([Utf8.encode "META-INF"], .dir 0), ([Utf8.encode "META-INF", Utf8.encode "C.class"], .file [3] 0 false),
    ([Utf8.encode "D.class"], .dir 0)] := by
  decide +kernel

theorem fileTree_top : FileTree disk top where
  closed := by
    intro names e hmem
    rw [below_top] at hmem ⊢
    simp only [List.mem_cons, Prod.mk.injEq, List.not_mem_nil, or_false] at hmem
    rcases hmem with ⟨rfl, rfl⟩ | ⟨rfl, rfl⟩ | ⟨rfl, rfl⟩ | ⟨rfl, rfl⟩ | ⟨rfl, rfl⟩ | ⟨rfl, rfl⟩ | ⟨rfl, rfl⟩ <;>
      first | exact Or.inl rfl | exact Or.inr ⟨0, by decide +kernel⟩
  plain := by
    intro names e hmem
    rw [below_top] at hmem
    simp only [List.mem_cons, Prod.mk.injEq, List.not_mem_nil, or_false] at hmem
    rcases hmem with ⟨rfl, rfl⟩ | ⟨rfl, rfl⟩ | ⟨rfl, rfl⟩ | ⟨rfl, rfl⟩ | ⟨rfl, rfl⟩ | ⟨rfl, rfl⟩ | ⟨rfl, rfl⟩ <;>
      simp [Disk.Entry.isDir]
  texts := by
    intro names e hmem name hname
    rw [below_top] at hmem
    simp only [List.mem_cons, Prod.mk.injEq, List.not_mem_nil, or_false] at hmem
    rcases hmem with ⟨rfl, rfl⟩ | ⟨rfl, rfl⟩ | ⟨rfl, rfl⟩ | ⟨rfl, rfl⟩ | ⟨rfl, rfl⟩ | ⟨rfl, rfl⟩ | ⟨rfl, rfl⟩ <;>
      simp only [List.mem_cons, List.not_mem_nil, or_false] at hname <;> grind

theorem hasFile_iff {file : String} : HasFile disk top file ↔ file ∈ paths := by
  rw [← mem_filesBelow_iff fileTree_top, show filesBelow disk top = paths by decide +kernel]

theorem archived_jar : Archived disk (.ofString "a.jar") .archive archive where
  format := by decide
  content := ⟨[[0], Utf8.encode "a.jar"], Archive.encode archive, 0, false, by decide +kernel, by decide +kernel⟩

theorem archived_jmod : Archived disk (.ofString "m.jmod") .platformArchive platformArchive where
  format := by decide
  content :=
    ⟨[[0], Utf8.encode "m.jmod"], Archive.encode platformArchive, 0, false, by decide +kernel, by decide +kernel⟩

theorem holdsFiles_archive : HoldsFiles archive (HasFile disk top) := by
  intro file
  have hiff : file ∈ paths ↔ file ∈ archive.filter fun name => IsFileName name :=
    List.Perm.mem_iff (by decide)
  rw [hasFile_iff, hiff, List.mem_filter, decide_eq_true_iff]

theorem holdsClassFiles_platformArchive : HoldsClassFiles platformArchive (HasFile disk top) := by
  intro file
  have hbelow : "classes/" ++ file ∈ platformArchive ↔ file ∈ platformArchive.filterMap belowArchiveRoot? := by
    simp only [List.mem_filterMap, belowArchiveRoot?_eq_some_iff, exists_eq_right]
  have hiff : file ∈ paths ↔ file ∈ (platformArchive.filterMap belowArchiveRoot?).filter fun file =>
      IsFileName ("classes/" ++ file) := List.Perm.mem_iff (by decide)
  rw [hasFile_iff, hbelow, hiff, List.mem_filter, decide_eq_true_iff]

theorem fits_path : Fits disk path top := by
  intro names m hmem
  rw [below_top] at hmem
  simp only [List.mem_cons, Prod.mk.injEq, List.not_mem_nil, or_false] at hmem
  rcases hmem with ⟨rfl, -⟩ | ⟨rfl, -⟩ | ⟨rfl, -⟩ | ⟨rfl, -⟩ | ⟨rfl, -⟩ | ⟨rfl, -⟩ | ⟨rfl, -⟩ <;> decide

end Example

open Example in
/-- All three hold the two classes that are not in the directory that counts only at the top. -/
theorem tree_and_archives_alike : ∃ s : ClassNameSet, (∀ name, name ∈ s ↔ name ∈ ["sub.A", "sub.META-INF.B"]) ∧
    (entry none path disk).1 = .ok s ∧ (entry none (.ofString "a.jar") disk).1 = .ok s ∧
    (entry none (.ofString "m.jmod") disk).1 = .ok s := by
  obtain ⟨s, hs, hdir, -, -, -, harchives⟩ :=
    directory_and_archives_alike (p := path) (d := disk) (m := 0) (by decide +kernel) fileTree_top
  refine ⟨s, fun name => ?_, hdir fits_path, (harchives disk _ _).1 archived_jar holdsFiles_archive,
    (harchives disk _ _).2 archived_jmod holdsClassFiles_platformArchive⟩
  rw [hs]
  simp only [hasFile_iff]
  have h₁ : ClassName.ofEntry? "sub/A.class" = some "sub.A" := by decide
  have h₂ : ClassName.ofEntry? "sub/META-INF/B.class" = some "sub.META-INF.B" := by decide
  have h₃ : ClassName.ofEntry? "META-INF/C.class" = none := by decide
  simp [paths, h₁, h₂, h₃, eq_comm]

open Example in
/-- By the long path the directory cannot be scanned, although the archive of its files can. -/
theorem long_directory_unlike_archive : FileTree disk top ∧ (∃ m, disk.stat longPath = .ok (top, .dir m)) ∧
    Archived disk (.ofString "a.jar") .archive archive ∧ HoldsFiles archive (HasFile disk top) ∧
    (∃ q, (entry none longPath disk).1 = .error (.unreadable q .nameTooLong)) ∧
    ∃ s, (entry none (.ofString "a.jar") disk).1 = .ok s := by
  have hstat : disk.stat longPath = .ok (top, .dir 0) := by decide +kernel
  refine ⟨fileTree_top, ⟨0, hstat⟩, archived_jar, holdsFiles_archive, ?_, _, archived_jar.entry_eq⟩
  have hopen : (disk.unopened? longPath top).isSome := by decide +kernel
  obtain ⟨q, hq⟩ := Option.isSome_iff_exists.mp hopen
  refine ⟨q, ?_⟩
  rw [entry_of_directory hstat, ofDirectory, hq]

end ClassScope.Scan
