import ClassScope.Proofs.Text.Lossy
import Mathlib.Data.List.Forall2

/-!
# Spellings of one path

Two spellings of one path that also show alike are the same bytes: what tells spellings apart are empty parts
and single dots, and these show as what they are.
-/

namespace ClassScope.Path

open Utf8 (Reads)

/-! ## Parts -/

theorem split_eq_splitOn (bs : Bytes) : split bs = bs.splitOn slash := by
  induction bs with
  | nil => rfl
  | cons b bs ih =>
      rw [List.splitOn_cons_eq_if_modifyHead, ← ih, split]
      by_cases hb : b = slash
      · simp [hb]
      · cases hs : split bs with
        | nil =>
            rw [hs] at ih
            exact absurd ih.symm (List.splitOn_ne_nil slash bs)
        | cons part parts => simp [hb]

theorem intercalate_split (bs : Bytes) : [slash].intercalate (split bs) = bs := by
  rw [split_eq_splitOn, List.intercalate_splitOn]

theorem split_injective {bs cs : Bytes} (h : split bs = split cs) : bs = cs := by
  rw [← intercalate_split bs, h, intercalate_split]

theorem splitOn_append {α : Type} [DecidableEq α] {a : α} {ws : List α} (h : a ∉ ws) (xs : List α) :
    (ws ++ xs).splitOn a = (xs.splitOn a).modifyHead (ws ++ ·) := by
  induction ws with
  | nil =>
      rw [List.nil_append]
      cases xs.splitOn a with
      | nil => rfl
      | cons part parts => rfl
  | cons w ws ih =>
      have hw : w ≠ a := fun he => h (he ▸ List.mem_cons_self)
      rw [List.cons_append, List.splitOn_cons_eq_if_modifyHead, if_neg (by simpa using hw),
        ih fun hm => h (List.mem_cons_of_mem w hm), List.modifyHead_modifyHead]
      rfl

theorem forall₂_modifyHead {α β : Type} {R : α → β → Prop} {f : α → α} {g : β → β} {xs : List α}
    {ys : List β} (h : List.Forall₂ R xs ys) (hfg : ∀ x y, R x y → R (f x) (g y)) :
    List.Forall₂ R (xs.modifyHead f) (ys.modifyHead g) := by
  cases h with
  | nil => exact .nil
  | cons hxy h => exact .cons (hfg _ _ hxy) h

/-- A text is read part by part. -/
theorem reads_split {bs : Bytes} {cs : List Char} (h : Reads bs cs) :
    List.Forall₂ Reads (split bs) (cs.splitOn '/') := by
  rw [split_eq_splitOn]
  induction h with
  | nil => exact .cons .nil .nil
  | @ascii b bs cs hb h ih =>
      rw [List.splitOn_cons_eq_if_modifyHead, List.splitOn_cons_eq_if_modifyHead]
      by_cases hs : b = slash
      · subst hs
        exact .cons .nil ih
      · have hc : Char.ofNat b.toNat ≠ '/' := fun he => hs (Utf8.eq_of_ofNat_eq hb (by decide) he)
        rw [if_neg (by simpa using hs), if_neg (by simpa using hc)]
        exact forall₂_modifyHead ih fun _ _ hxy => .ascii hb hxy
  | @wide ws bs c cs hne hws hc h ih =>
      have hs : slash ∉ ws := fun hm => absurd (hws slash hm) (by decide)
      rw [splitOn_append hs, List.splitOn_cons_eq_if_modifyHead, if_neg (by simpa using hc.1)]
      exact forall₂_modifyHead ih fun _ _ hxy => .wide hne hws hc hxy

/-! ## Components -/

theorem component?_eq_none_iff {part : Bytes} : component? part = none ↔ part = [] ∨ part = [dot] := by
  unfold component?
  split
  · simp [*]
  · split
    · simp [*]
    · simp [*]

theorem component?_injective {x y : Bytes} {k : Component} (hx : component? x = some k)
    (hy : component? y = some k) : x = y := by
  unfold component? at hx hy
  split at hx
  · cases hx
  split at hy
  · cases hy
  split at hx
  · cases hx
    split at hy
    · simp [*]
    · cases hy
  · cases hx
    split at hy
    · cases hy
    · exact (Component.name.inj (Option.some.inj hy)).symm

theorem component?_ne_root (part : Bytes) : component? part ≠ some .root := by
  unfold component?
  split
  · exact nofun
  · split
    · exact nofun
    · exact nofun

/-- What the first part stands for, which depends on whether the path is absolute. -/
theorem components_of_split {p : Path} {first : Bytes} {rest : List Bytes}
    (h : split p.bytes = first :: rest) :
    p.components = (if p.isAbsolute then [.root] else if first = [dot] then [.here]
      else (component? first).toList) ++ rest.filterMap component? := by
  rw [components, h]

theorem split_eq_cons (bs : Bytes) : ∃ first rest, split bs = first :: rest := by
  rw [split_eq_splitOn]
  exact List.exists_cons_of_ne_nil (List.splitOn_ne_nil slash bs)

theorem eq_nil_of_isAbsolute {p : Path} {first : Bytes} {rest : List Bytes} (ha : p.isAbsolute = true)
    (h : split p.bytes = first :: rest) : first = [] := by
  unfold isAbsolute at ha
  cases hb : p.bytes with
  | nil => simp [hb] at ha
  | cons b bs =>
      simp only [hb, List.head?_cons, Option.some.injEq, decide_eq_true_eq] at ha
      rw [hb, ha, split, if_pos rfl] at h
      exact (List.cons.inj h).1.symm

theorem isAbsolute_iff (p : Path) : p.isAbsolute = true ↔ p.components.head? = some .root := by
  obtain ⟨first, rest, hs⟩ := split_eq_cons p.bytes
  rw [components_of_split hs]
  cases ha : p.isAbsolute with
  | true => simp
  | false =>
      refine ⟨nofun, fun h => ?_⟩
      exfalso
      have hne : ∀ k ∈ rest.filterMap component?, k ≠ .root := by
        intro k hk he
        obtain ⟨part, -, hpart⟩ := List.mem_filterMap.mp hk
        exact component?_ne_root part (he ▸ hpart)
      by_cases hd : first = [dot]
      · simp [hd] at h
      · cases hc : component? first with
        | some k =>
            simp [hd, hc] at h
            exact component?_ne_root first (h ▸ hc)
        | none =>
            simp only [hd, hc, Bool.false_eq_true, if_false, Option.toList_none, List.nil_append] at h
            exact hne _ (List.mem_of_mem_head? h) rfl

theorem Same.isAbsolute_eq {p q : Path} (h : p.Same q) : p.isAbsolute = q.isAbsolute := by
  have hiff := (isAbsolute_iff p).trans ((by rw [h] : _ ↔ _).trans (isAbsolute_iff q).symm)
  exact Bool.eq_iff_iff.mpr hiff

/-! ## Alike spellings -/

/-- Parts that show alike and stand for the same components are the same. -/
theorem parts_eq {xs ys : List Bytes} {cs : List (List Char)} (hx : List.Forall₂ Reads xs cs)
    (hy : List.Forall₂ Reads ys cs) (h : xs.filterMap component? = ys.filterMap component?) : xs = ys := by
  induction hx generalizing ys with
  | nil =>
      cases hy
      rfl
  | @cons x c xs cs hxc hx ih =>
      cases hy with
      | @cons y _ ys _ hyc hy =>
          have hnone : component? x = none ↔ component? y = none := by
            rw [component?_eq_none_iff, component?_eq_none_iff, hxc.eq_nil_iff, hyc.eq_nil_iff,
              hxc.eq_dot_iff, hyc.eq_dot_iff]
          cases hcx : component? x with
          | none =>
              have hcy := hnone.mp hcx
              rw [List.filterMap_cons_none hcx, List.filterMap_cons_none hcy] at h
              have hxy : x = y := by
                rcases component?_eq_none_iff.mp hcx with rfl | rfl
                · exact (hyc.eq_nil_iff.mpr (hxc.eq_nil_iff.mp rfl)).symm
                · exact (hyc.eq_dot_iff.mpr (hxc.eq_dot_iff.mp rfl)).symm
              rw [hxy, ih hy h]
          | some k =>
              cases hcy : component? y with
              | none => rw [hnone.mpr hcy] at hcx; cases hcx
              | some j =>
                  rw [List.filterMap_cons_some hcx, List.filterMap_cons_some hcy] at h
                  obtain ⟨rfl, ht⟩ := List.cons.inj h
                  rw [component?_injective hcx hcy, ih hy ht]

theorem eq_of_same_of_display {p q : Path} (h : p.Same q) (hd : p.display = q.display) : p = q := by
  have hreads : Utf8.lossyFrom none p.bytes = Utf8.lossyFrom none q.bytes := String.ofList_injective hd
  have hp := reads_split (Utf8.reads_lossyFrom p.bytes).1
  have hq := reads_split (Utf8.reads_lossyFrom q.bytes).1
  rw [← hreads] at hq
  obtain ⟨x, xs, hx⟩ := split_eq_cons p.bytes
  obtain ⟨y, ys, hy⟩ := split_eq_cons q.bytes
  have hs : p.components = q.components := h
  rw [components_of_split hx, components_of_split hy, h.isAbsolute_eq] at hs
  suffices hxy : x :: xs = y :: ys by
    cases p
    cases q
    exact congrArg Path.mk (split_injective (hx.trans (hxy.trans hy.symm)))
  rw [hx] at hp
  rw [hy] at hq
  generalize (Utf8.lossyFrom none p.bytes).splitOn '/' = cs at hp hq
  have whole (part : Bytes) (parts : List Bytes) :
      (component? part).toList ++ parts.filterMap component? = (part :: parts).filterMap component? := by
    cases hc : component? part with
    | none => simp [hc]
    | some k => simp [hc]
  cases ha : q.isAbsolute with
  | true =>
      obtain rfl := eq_nil_of_isAbsolute (h.isAbsolute_eq.trans ha) hx
      obtain rfl := eq_nil_of_isAbsolute ha hy
      simp only [ha, if_true, List.singleton_append, List.cons.injEq, true_and] at hs
      exact parts_eq hp hq (by simpa [component?] using hs)
  | false =>
      simp only [ha, Bool.false_eq_true, if_false] at hs
      cases hp with
      | cons hxc hp =>
          cases hq with
          | cons hyc hq =>
              have hdot : x = [dot] ↔ y = [dot] := hxc.eq_dot_iff.trans hyc.eq_dot_iff.symm
              by_cases hd : x = [dot]
              · rw [if_pos hd, if_pos (hdot.mp hd)] at hs
                rw [hd, hdot.mp hd, parts_eq hp hq (List.append_cancel_left hs)]
              · rw [if_neg hd, if_neg fun hyd => hd (hdot.mpr hyd), whole, whole] at hs
                exact parts_eq (.cons hxc hp) (.cons hyc hq) hs

end ClassScope.Path
