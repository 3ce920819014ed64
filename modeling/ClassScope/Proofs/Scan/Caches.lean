import ClassScope.Dependencies
import ClassScope.Proofs.BootIndex.History

/-!
# Caches over a disk that stays as it is

While the disk does not change and no path is spelled in two ways, the dependency sets and the boot index
answer what plain scans find, whoever has filled them and in whatever order.
-/

namespace ClassScope

def Path.OneSpelling (pool : List Path) : Prop :=
  ∀ p ∈ pool, ∀ q ∈ pool, p.Same q → p = q

instance (pool : List Path) : Decidable (Path.OneSpelling pool) := by
  unfold Path.OneSpelling
  infer_instance

variable {d : Disk} {pool ps qs : List Path} {p q : Path}

/-! ## Sets of paths -/

namespace PathSet

theorem mem_of_mem_place {latest : Bool} (h : q ∈ Path.place latest p ps) : q = p ∨ q ∈ ps := by
  induction ps with
  | nil => exact Or.inl (List.mem_singleton.mp h)
  | cons r ps ih =>
      rw [Path.place] at h
      split at h
      · exact List.mem_cons.mp h
      · split at h
        · cases latest with
          | true => exact (List.mem_cons.mp h).imp_right (List.mem_cons_of_mem r)
          | false => exact Or.inr h
        · rcases List.mem_cons.mp h with rfl | h
          · exact Or.inr List.mem_cons_self
          · exact (ih h).imp_right (List.mem_cons_of_mem r)

theorem mem_of_mem_foldl_insert {latest : Bool} {s : PathSet}
    (h : p ∈ (ps.foldl (fun s p => s.insert latest p) s).paths) : p ∈ s.paths ∨ p ∈ ps := by
  induction ps generalizing s with
  | nil => exact Or.inl h
  | cons q ps ih =>
      rcases ih h with h | h
      · rcases mem_of_mem_place h with rfl | h
        · exact Or.inr List.mem_cons_self
        · exact Or.inl h
      · exact Or.inr (List.mem_cons_of_mem q h)

theorem mem_of_names (one : Path.OneSpelling pool) (hps : ps ⊆ pool) (hp : p ∈ ps) {s : PathSet}
    (hs : ∀ q ∈ s.paths, q ∈ ps) (h : s.Names p) : p ∈ s.paths := by
  obtain ⟨q, hq, hpq⟩ := h
  rw [one p (hps hp) q (hps (hs q hq)) hpq]
  exact hq

theorem mem_of_mem_ofFirst (h : p ∈ (ofFirst ps).toList) : p ∈ ps :=
  (mem_of_mem_foldl_insert h).resolve_left List.not_mem_nil

theorem mem_of_mem_ofLast (h : p ∈ (ofLast ps).toList) : p ∈ ps :=
  (mem_of_mem_foldl_insert h).resolve_left List.not_mem_nil

theorem mem_ofFirst (one : Path.OneSpelling pool) (hps : ps ⊆ pool) :
    p ∈ (ofFirst ps).toList ↔ p ∈ ps := by
  constructor
  · exact mem_of_mem_ofFirst
  · intro hp
    exact mem_of_names one hps hp (fun _ => mem_of_mem_ofFirst) (names_ofFirst.mpr ⟨p, hp, rfl⟩)

theorem mem_ofLast (one : Path.OneSpelling pool) (hps : ps ⊆ pool) :
    p ∈ (ofLast ps).toList ↔ p ∈ ps := by
  constructor
  · exact mem_of_mem_ofLast
  · intro hp
    exact mem_of_names one hps hp (fun _ => mem_of_mem_ofLast) (names_ofLast.mpr ⟨p, hp, rfl⟩)

/-- Lists with one key list the same paths. -/
theorem mem_iff_of_key_eq (one : Path.OneSpelling pool) (hps : ps ⊆ pool) (hqs : qs ⊆ pool)
    (h : (ofFirst ps).key = (ofFirst qs).key) : p ∈ ps ↔ p ∈ qs := by
  have half {ps qs : List Path} (hps : ps ⊆ pool) (hqs : qs ⊆ pool)
      (h : (ofFirst ps).key = (ofFirst qs).key) (hp : p ∈ ps) : p ∈ qs := by
    have hmem : p.components ∈ (ofFirst ps).key :=
      List.mem_map_of_mem ((mem_ofFirst one hps).mpr hp)
    rw [h] at hmem
    obtain ⟨q, hq, hpq⟩ := List.mem_map.mp hmem
    have hq := mem_of_mem_ofFirst hq
    rw [one p (hps hp) q (hqs hq) hpq.symm]
    exact hq
  exact ⟨half hps hqs h, half hqs hps h.symm⟩

end PathSet

/-! ## Plain scans of several entries -/

namespace Scan

/-- The classes that plain scans of some entries find; entries that cannot be read give none. -/
def classesOf (d : Disk) (ps : List Path) : ClassNameSet :=
  .union (ps.filterMap (found? d))

theorem mem_classesOf {name : String} :
    name ∈ classesOf d ps ↔ ∃ p ∈ ps, ∃ c, found? d p = some c ∧ name ∈ c := by
  rw [classesOf, ClassNameSet.mem_union]
  constructor
  · rintro ⟨c, hc, hn⟩
    obtain ⟨p, hp, hf⟩ := List.mem_filterMap.mp hc
    exact ⟨p, hp, c, hf, hn⟩
  · rintro ⟨p, hp, c, hf, hn⟩
    exact ⟨c, List.mem_filterMap.mpr ⟨p, hp, hf⟩, hn⟩

theorem classesOf_congr (h : ∀ p, p ∈ ps ↔ p ∈ qs) : classesOf d ps = classesOf d qs := by
  apply ClassNameSet.eq_of_mem_iff
  intro name
  rw [mem_classesOf, mem_classesOf]
  simp only [h]

theorem classes_all_none (ps : List Path) (d : Disk) : (all none ps d).1.classes = classesOf d ps := by
  apply ClassNameSet.eq_of_mem_iff
  intro name
  rw [mem_all_none, mem_classesOf]

end Scan

/-! ## Dependency sets -/

structure Dependencies.Reads (d : Disk) (pool : List Path) (ds : Dependencies) : Prop where
  index : ds.index = none
  known : ∀ {ps s}, ps ⊆ pool → ds.known.get? (PathSet.ofFirst ps).key = some s →
    s.classes = Scan.classesOf d ps

theorem Dependencies.Reads.classes {ds : Dependencies} (h : ds.Reads d pool) (one : Path.OneSpelling pool)
    (hps : ps ⊆ pool) :
    (ds.classes ps d).1.1.classes = Scan.classesOf d ps ∧ (ds.classes ps d).1.2.Reads d pool ∧
      (ds.classes ps d).2 = d := by
  cases hk : ds.known.get? (PathSet.ofFirst ps).key with
  | some s =>
      have he : ds.classes ps d = ((s, ds), d) := by
        simp only [Dependencies.classes, hk]
        rfl
      rw [he]
      exact ⟨h.known hps hk, h, rfl⟩
  | none =>
      have hall : (Scan.all none (PathSet.ofFirst ps).toList d).1.classes = Scan.classesOf d ps := by
        rw [Scan.classes_all_none]
        exact Scan.classesOf_congr fun p => PathSet.mem_ofFirst one hps
      have hdisk : (Scan.all none (PathSet.ofFirst ps).toList d).2 = d := by rw [Scan.all_none]
      let s : SharedSet := ⟨ds.made, (Scan.all none (PathSet.ofFirst ps).toList d).1.classes⟩
      have he : ds.classes ps d = ((s, { ds with
          known := ds.known.put (PathSet.ofFirst ps).key s, made := ds.made + 1 }),
          (Scan.all none (PathSet.ofFirst ps).toList d).2) := by
        simp only [Dependencies.classes, hk, h.index]
        rfl
      rw [he, hdisk]
      refine ⟨hall, ⟨h.index, ?_⟩, rfl⟩
      intro qs t hqs ht
      by_cases hkey : (PathSet.ofFirst qs).key = (PathSet.ofFirst ps).key
      · rw [hkey, Table.get?_put_self] at ht
        cases ht
        have same : Scan.classesOf d ps = Scan.classesOf d qs :=
          Scan.classesOf_congr fun p => PathSet.mem_iff_of_key_eq one hps hqs hkey.symm
        exact hall.trans same
      · rw [Table.get?_put_of_ne hkey] at ht
        exact h.known hqs ht

theorem Dependencies.Reads.clear {ds : Dependencies} (h : ds.Reads d pool) : ds.clear.Reads d pool :=
  ⟨h.index, fun _ hk => nomatch hk⟩

/-! ## The boot index -/

namespace BootIndex

structure Reads (d : Disk) (pool : List Path) (b : BootIndex) : Prop where
  index : b.index = none
  entries : ∀ {p e}, p ∈ pool → b.entry? p = some e → Scan.found? d p = some e.classes

variable {b : BootIndex}

theorem Reads.publish (h : b.Reads d pool) (one : Path.OneSpelling pool) (hps : ps ⊆ pool) :
    (b.publish (b.rescanned d ps)).Reads d pool := by
  refine ⟨h.index, ?_⟩
  intro p e hp he
  rcases publish_at b (b.rescanned d ps) p with ⟨q, e', hq, hpq, he'⟩ | ⟨-, hsame⟩
  · cases he.symm.trans he'
    obtain ⟨hq, -, -, hf⟩ := mem_rescanned.mp hq
    rw [one p hp q (hps hq) hpq]
    exact hf
  · exact h.entries hp (hsame.symm.trans he)

/-- Whatever can be read is there after a scan of what is outdated. -/
theorem exists_entry_of_found {c : ClassNameSet} (hp : p ∈ ps) (hf : Scan.found? d p = some c) :
    ∃ e, entry? (b.publish (b.rescanned d ps)) p = some e := by
  rcases publish_at b (b.rescanned d ps) p with ⟨q, e, -, -, he⟩ | ⟨hnone, hsame⟩
  · exact ⟨e, he⟩
  · cases hfresh : b.isFresh p (Fingerprint.capture d p).toOption with
    | false => exact absurd rfl (hnone p ⟨_, c⟩ (mem_rescanned.mpr ⟨hp, hfresh, rfl, hf⟩))
    | true =>
        cases he : b.entry? p with
        | none => simp [isFresh, he] at hfresh
        | some e => exact ⟨e, hsame.trans he⟩

theorem Reads.unionOf (h : b.Reads d pool) (one : Path.OneSpelling pool) (hps : ps ⊆ pool) :
    (b.publish (b.rescanned d ps)).unionOf ps = Scan.classesOf d ps := by
  have hreads := h.publish one hps
  apply ClassNameSet.eq_of_mem_iff
  intro name
  rw [BootIndex.unionOf, ClassNameSet.mem_union, Scan.mem_classesOf]
  constructor
  · rintro ⟨c, hc, hn⟩
    obtain ⟨e, he, rfl⟩ := List.mem_map.mp hc
    obtain ⟨p, hp, he⟩ := List.mem_filterMap.mp he
    exact ⟨p, hp, e.classes, hreads.entries (hps hp) he, hn⟩
  · rintro ⟨p, hp, c, hf, hn⟩
    obtain ⟨e, he⟩ := exists_entry_of_found (b := b) hp hf
    cases hf.symm.trans (hreads.entries (hps hp) he)
    exact ⟨e.classes, List.mem_map.mpr ⟨e, List.mem_filterMap.mpr ⟨p, hp, he⟩, rfl⟩, hn⟩

theorem Reads.update (h : b.Reads d pool) (one : Path.OneSpelling pool) (hps : ps ⊆ pool) :
    (b.update ps d).1.Reads d pool ∧ (b.update ps d).2 = d := by
  have he : b.update ps d = ({ (b.refresh ps d).1 with current := ps }, (b.refresh ps d).2) := rfl
  have hreads := h.publish one hps
  rw [he, refresh_none h.index]
  exact ⟨⟨hreads.index, hreads.entries⟩, rfl⟩

theorem Reads.classes (h : b.Reads d pool) (one : Path.OneSpelling pool) (hps : ps ⊆ pool) :
    (b.classes ps d).1.1 = Scan.classesOf d ps ∧ (b.classes ps d).1.2.Reads d pool ∧
      (b.classes ps d).2 = d := by
  have he : b.classes ps d = (((b.refresh ps d).1.unionOf ps, (b.refresh ps d).1), (b.refresh ps d).2) := rfl
  rw [he, refresh_none h.index]
  exact ⟨h.unionOf one hps, h.publish one hps, rfl⟩

theorem Reads.clear (h : b.Reads d pool) : b.clear.Reads d pool :=
  ⟨h.index, fun _ hk => nomatch hk⟩

end BootIndex

end ClassScope
