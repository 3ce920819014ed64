import ClassScope.Archive.Writer
import ClassScope.Proofs.Disk.Histories
import ClassScope.Proofs.Scan.Indexed
import ClassScope.Proofs.Scan.Trees

/-!
# Fingerprints that stay

Whatever comes or goes in a tree of directories stamps one of them with the clock. As long as nothing in the tree had a
time later than the clock, the newest time in it therefore tells whether its names are the same.
-/

namespace ClassScope

namespace Disk

variable {d d' d₁ : Disk} {loc l dir : Location} {e e' : Entry} {name : Bytes} {c : Int} {p : Path}

/-! ## Trees -/

/-- What became of the tree at a location since an earlier disk: the same names are there, or the directory is gone,
or some directory of the tree is newer than the clock was. -/
inductive Since (d₁ : Disk) (loc : Location) (d : Disk) : Prop where
  | same (kind : ∀ names, d.kind? (loc ++ names) = d₁.kind? (loc ++ names))
  | gone (kind : d.kind? loc ≠ some true)
  | newer (names : List Bytes) {m : Int} (dir : d.entry? (loc ++ names) = some (.dir m)) (lt : d₁.now < m)

/-- Where nothing changed except outside of the tree. -/
theorem Since.of_same (h : Since d₁ loc d) (same : ∀ names, d'.entry? (loc ++ names) = d.entry? (loc ++ names)) :
    Since d₁ loc d' := by
  have kind (names : List Bytes) : d'.kind? (loc ++ names) = d.kind? (loc ++ names) := by
    rw [kind?, same, kind?]
  cases h with
  | same hk => exact .same fun names => (kind names).trans (hk names)
  | gone hk =>
      have here := kind []
      rw [List.append_nil] at here
      exact .gone (here ▸ hk)
  | newer names hdir hlt => exact .newer names ((same names).trans hdir) hlt

/-- Nothing but the base itself leads to the base. -/
theorem Rooted.eq_nil_of_base (hd : d.Rooted) (hloc : loc ≠ []) {rest : List Bytes} (hbase : loc ++ rest = d.base) :
    rest = [] := by
  by_contra hne
  have hdrop := hd.base
  rw [← hbase, List.dropLast_append_of_ne_nil hne] at hdrop
  exact hloc (List.append_eq_nil_iff.mp hdrop).1

/-- A directory of the tree is stamped, unless it is the base and gone. -/
theorem Rooted.since_of_stamp (hd : d.Rooted) (hloc : loc ≠ []) (later : d₁.now < d.now) (within : loc <+: dir)
    (stands : d.Stands dir) (stamp : ∀ m, d.entry? dir = some (.dir m) → d'.entry? dir = some (.dir d.now))
    (kind : d'.kind? loc = d.kind? loc) : Since d₁ loc d' := by
  obtain ⟨rest, rfl⟩ := within
  by_cases hk : d.kind? (loc ++ rest) = some true
  · obtain ⟨m, hm⟩ := exists_dir_of_kind? hk
    exact .newer rest (stamp m hm) later
  · have hrest : rest = [] := hd.eq_nil_of_base hloc (stands.resolve_right hk)
    rw [hrest, List.append_nil] at hk
    exact .gone (kind ▸ hk)

theorem Since.create (hs : Since d₁ loc d) (hd : d.Rooted) (hloc : loc ≠ []) (later : d₁.now < d.now)
    (stands : d.Stands dir) (fresh : e.isDir = true → e.modified = d.now) :
    Since d₁ loc (d.create dir name e) := by
  have ne_nil (names : List Bytes) : loc ++ names ≠ [] := by simp [hloc]
  by_cases hbelow : loc <+: dir ++ [name]
  · rcases List.prefix_concat_iff.mp hbelow with heq | within
    · -- the tree itself is made
      have made : entry? (d.create dir name e) loc = some e := by rw [entry?_create, if_pos heq]
      cases e with
      | dir m =>
          obtain rfl : m = d.now := fresh rfl
          exact .newer [] (by rw [List.append_nil, made]) later
      | file content m x => exact .gone (by simp [kind?_of_entry made, Entry.isDir])
      | link target m => exact .gone (by simp [kind?_of_entry made, Entry.isDir])
    · have hdir : dir ≠ [] := by
        rintro rfl
        exact hloc (List.prefix_nil.mp within)
      have hne : loc ≠ dir ++ [name] := by
        rintro rfl
        simpa using within.length_le
      refine hd.since_of_stamp hloc later within stands (fun m hm => ?_) ?_
      · rw [entry?_create, if_neg (by simp), entry?_stamp hdir, if_pos rfl, hm]
        rfl
      · rw [kind?_create, if_neg hne]
  · refine hs.of_same fun names => ?_
    rw [entry?_create, if_neg, entry?_stamp (ne_nil names), if_neg]
    · rintro rfl
      exact hbelow ((List.prefix_append loc names).trans (List.prefix_append _ _))
    · intro heq
      exact hbelow (heq ▸ List.prefix_append loc names)

theorem Since.rewrite (hs : Since d₁ loc d) (here : d.entry? l = some e) (old : e.isDir = false)
    (new : e'.isDir = false) : Since d₁ loc (d.put l e') := by
  have kind := kind?_rewrite here old new
  cases hs with
  | same hk => exact .same fun names => (kind _).trans (hk names)
  | gone hk => exact .gone (kind loc ▸ hk)
  | newer names hdir hlt =>
      refine .newer names ?_ hlt
      rw [entry?_put (ne_nil_of_entry here old), if_neg, hdir]
      rintro rfl
      cases here.symm.trans hdir
      cases old

theorem Since.erase (hs : Since d₁ loc d) (hd : d.Rooted) (hloc : loc ≠ []) (later : d₁.now < d.now)
    (here : d.entry? l = some e) : Since d₁ loc (d.erase l) := by
  have ne_nil (names : List Bytes) : loc ++ names ≠ [] := by simp [hloc]
  by_cases habove : l <+: loc
  · refine .gone ?_
    rw [kind?_erase hloc, if_pos habove]
    nofun
  by_cases hbelow : loc <+: l
  · obtain ⟨rest, rfl⟩ := hbelow
    have hrest : rest ≠ [] := by
      rintro rfl
      rw [List.append_nil] at habove
      exact habove (List.prefix_refl loc)
    have hdrop : (loc ++ rest).dropLast = loc ++ rest.dropLast := List.dropLast_append_of_ne_nil hrest
    have hshort : ¬ loc ++ rest <+: loc ++ rest.dropLast := by
      intro hwithin
      have hlen := ((List.prefix_append_right_inj loc).mp hwithin).length_le
      rw [List.length_dropLast] at hlen
      have hpos := List.length_pos_iff.mpr hrest
      omega
    have stands : d.Stands (loc ++ rest.dropLast) := hdrop ▸ hd.parent _ _ (kind?_of_entry here)
    refine hd.since_of_stamp hloc later (List.prefix_append _ _) stands (fun m hm => ?_) ?_
    · rw [entry?_erase (ne_nil _), if_neg hshort, if_pos hdrop.symm, hm]
      rfl
    · rw [kind?_erase hloc, if_neg habove]
  · refine hs.of_same fun names => ?_
    have outside : ¬ l <+: loc ++ names := by
      intro hwithin
      rcases List.prefix_or_prefix_of_prefix hwithin (List.prefix_append loc names) with h | h
      · exact habove h
      · exact hbelow h
    rw [entry?_erase (ne_nil names), if_neg outside, if_neg]
    intro heq
    exact hbelow ((heq ▸ List.prefix_append loc names : loc <+: l.dropLast).trans (List.dropLast_prefix l))

/-- Whatever comes or goes in a tree stamps a directory of it. -/
theorem Since.change (hs : Since d₁ loc d) (hd : d.Rooted) (hloc : loc ≠ []) (later : d₁.now < d.now)
    (h : Change d d') : Since d₁ loc d' := by
  cases h with
  | create stands _ fresh => exact hs.create hd hloc later stands fresh
  | rewrite here old new => exact hs.rewrite here old new
  | erase here => exact hs.erase hd hloc later here

theorem Since.changes (hs : Since d₁ loc d) (hd : d.Rooted) (hloc : loc ≠ []) (later : d₁.now < d.now)
    (h : Changes d d') : Since d₁ loc d' := by
  induction h with
  | refl => exact hs
  | tail before last ih =>
      refine ih.change (changes_rooted before hd) hloc ?_ last
      rw [changes_now_eq before]
      exact later

theorem Since.after (hs : Since d₁ loc d) (hd : d.Rooted) (hloc : loc ≠ []) (clock : d₁.now ≤ d.now)
    {steps : List FileStep} (spares : d.SparesDirs steps) : Since d₁ loc (d.after steps) := by
  induction steps generalizing d with
  | nil => exact hs
  | cons s steps ih =>
      have changes := step_changes hd spares.1
      have later : d₁.now < d.now + tick := Int.lt_of_le_of_lt clock (Int.lt_add_of_pos_right _ (by decide))
      have ticked : Since d₁ loc { d with now := d.now + tick } := hs.of_same fun _ => rfl
      refine ih (ticked.changes hd.tick hloc later changes) (changes_rooted changes hd.tick) ?_ spares.2
      rw [changes_now_eq changes]
      exact Int.le_of_lt later

end Disk

/-! ## Newest times -/

namespace Stamp

variable {d : Disk} {loc : Disk.Location} {c m : Int} {files bytes : Nat} {newest s t : Option Nat}

end Stamp

/-! ## Scans -/

namespace Scan

variable {d d' d₁ d₂ : Disk} {p : Path} {loc : Disk.Location} {e : Disk.Entry} {m : Int} {f : Fingerprint}

/-- An archive with a time that is not known can be written over unseen. -/
example :
    let d₁ := (Disk.empty 0).after [.write (.ofString "a.jar") (Archive.encode ["a/A.class"]) (some (-1000)) false]
    let d₂ := d₁.after [.write (.ofString "a.jar") (Archive.encode ["b/B.class"]) (some (-2000)) false]
    (Fingerprint.capture d₁ (.ofString "a.jar")).toOption = (Fingerprint.capture d₂ (.ofString "a.jar")).toOption ∧
      found? d₁ (.ofString "a.jar") = some (.ofList ["a.A"]) ∧
      found? d₂ (.ofString "a.jar") = some (.ofList ["b.B"]) := by
  decide +kernel

/-- A file with a time yet to come hides that another one is removed and one is made. -/
example :
    let d₁ := (Disk.empty 0).after [.write (.ofString "d/A.class") [1] none false,
      .write (.ofString "d/x") [] (some 9000) false]
    let d₂ := d₁.after [.remove (.ofString "d/A.class"), .write (.ofString "d/B.class") [2] none false]
    (Fingerprint.capture d₁ (.ofString "d")).toOption = (Fingerprint.capture d₂ (.ofString "d")).toOption ∧
      found? d₁ (.ofString "d") = some (.ofList ["A"]) ∧ found? d₂ (.ofString "d") = some (.ofList ["B"]) := by
  decide +kernel

/-- A link that leads to another tree brings other classes with it, and the trees may have the same stamp. -/
example :
    let d₁ := (Disk.empty 0).after [.write (.ofString "x/A.class") [1] none false,
      .write (.ofString "y/B.class") [2] none false, .touch (.ofString "x/A.class") 2000,
      .link (.ofString "l") (Utf8.encode "x") none]
    let d₂ := d₁.after [.remove (.ofString "l"), .link (.ofString "l") (Utf8.encode "y") none]
    (Fingerprint.capture d₁ (.ofString "l")).toOption = (Fingerprint.capture d₂ (.ofString "l")).toOption ∧
      found? d₁ (.ofString "l") = some (.ofList ["A"]) ∧ found? d₂ (.ofString "l") = some (.ofList ["B"]) := by
  decide +kernel

end Scan

end ClassScope
