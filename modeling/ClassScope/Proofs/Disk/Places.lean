import ClassScope.Proofs.Path.Spelling
import ClassScope.Disk.Basic

/-!
# Where spellings of one path lead

Two spellings of one path differ only in steps that stay in place. Such a step can make a walk fail, but
where both spellings lead somewhere, they lead to the same place.
-/

namespace ClassScope

namespace Disk

/-- The second walk leaves out some of the steps of the first that stay in place. -/
inductive Looser : List Token → List Token → Prop where
  | nil : Looser [] []
  | keep (t : Token) {ts us} (h : Looser ts us) : Looser (t :: ts) (t :: us)
  | here {ts us} (h : Looser ts us) : Looser (.here :: ts) us
  | slash {ts us} (h : Looser ts us) : Looser (.slash :: ts) us

variable {d : Disk} {ts us : List Token}

theorem Looser.append_left (ws : List Token) (h : Looser ts us) : Looser (ws ++ ts) (ws ++ us) := by
  induction ws with
  | nil => exact h
  | cons w ws ih => exact .keep w ih

theorem Looser.eq_nil (h : Looser [] us) : us = [] := by
  cases h
  rfl

/-! ## Walks -/

theorem advance_name (d : Disk) (dir : Location) (n : Bytes) (rest : List Token) :
    d.advance .target dir (.name n :: rest) =
      if n.length > longestName then .failed .nameTooLong
      else match d.entry? (dir ++ [n]) with
        | none => if rest = [] then .spot (.vacant dir n) else .failed .notFound
        | some (.dir _) => d.advance .target (dir ++ [n]) rest
        | some (.file content modified executable) =>
            if rest = [] then .spot (.found (dir ++ [n]) (.file content modified executable))
            else .failed .notDirectory
        | some (.link target _) => .link dir target rest := by
  rw [advance, if_neg (by simp)]
  split
  · rfl
  · split <;> simp [*]

/-- Where the first walk comes to an entry or to a link, the second one does as well. -/
inductive Follows : Reach → Reach → Prop where
  | failed (e : FileError) (r : Reach) : Follows (.failed e) r
  | vacant (dir : Location) (name : Bytes) (r : Reach) : Follows (.spot (.vacant dir name)) r
  | found (loc : Location) (e : Entry) : Follows (.spot (.found loc e)) (.spot (.found loc e))
  | link (dir : Location) (target : Bytes) {ts us} (h : Looser ts us) :
      Follows (.link dir target ts) (.link dir target us)

theorem Looser.advance (h : Looser ts us) (dir : Location) :
    Follows (d.advance .target dir ts) (d.advance .target dir us) := by
  induction h generalizing dir with
  | nil =>
      rw [Disk.advance]
      cases d.entry? dir with
      | none => exact .failed _ _
      | some e => exact .found dir e
  | here _ ih => exact ih dir
  | slash _ ih => exact ih dir
  | @keep t ts us h ih =>
      cases t with
      | here => exact ih dir
      | slash => exact ih dir
      | up => exact ih dir.dropLast
      | name n =>
          rw [advance_name, advance_name]
          by_cases hn : n.length > longestName
          · rw [if_pos hn]
            exact .failed _ _
          rw [if_neg hn, if_neg hn]
          cases d.entry? (dir ++ [n]) with
          | none =>
              cases ts with
              | nil => exact .vacant _ _ _
              | cons t ts => exact .failed _ _
          | some entry =>
              cases entry with
              | dir modified => exact ih (dir ++ [n])
              | file content modified executable =>
                  cases ts with
                  | nil =>
                      rw [h.eq_nil]
                      exact .found _ _
                  | cons t ts => exact .failed _ _
              | link target modified => exact .link dir target h

theorem Looser.walk_found (h : Looser ts us) {links : Nat} {dir loc : Location} {e : Entry}
    (hw : d.walk .target links dir ts = .ok (.found loc e)) :
    d.walk .target links dir us = .ok (.found loc e) := by
  induction links generalizing dir ts us with
  | zero =>
      rw [walk] at hw ⊢
      have ha := h.advance (d := d) dir
      generalize d.advance .target dir ts = x at ha hw
      generalize d.advance .target dir us = y at ha
      cases ha with
      | failed e r => cases hw
      | vacant dir name r => cases hw
      | found loc e => exact hw
      | link start target h => cases hw
  | succ links ih =>
      rw [walk] at hw ⊢
      have ha := h.advance (d := d) dir
      generalize d.advance .target dir ts = x at ha hw
      generalize d.advance .target dir us = y at ha
      cases ha with
      | failed e r => cases hw
      | vacant dir name r => cases hw
      | found loc e => exact hw
      | link start target h => exact ih (h.append_left (tokens target)) hw

/-! ## Paths -/

def Token.ofPart (part : Bytes) : Token :=
  if part = [Path.dot] then .here
  else if part = [Path.dot, Path.dot] then .up
  else .name part

/-- The step that a component prescribes, unless it stays in place. -/
def Token.ofComponent? : Path.Component → Option Token
  | .root => none
  | .here => none
  | .up => some .up
  | .name bytes => some (.name bytes)

theorem looser_parts (parts : List Bytes) :
    Looser ((parts.filter (· ≠ [])).map Token.ofPart)
      ((parts.filterMap Path.component?).filterMap Token.ofComponent?) := by
  induction parts with
  | nil => exact .nil
  | cons part parts ih =>
      by_cases he : part = []
      · subst he
        exact ih
      by_cases hd : part = [Path.dot]
      · subst hd
        exact .here ih
      rw [List.filter_cons_of_pos (by simpa using he), List.map_cons]
      by_cases hu : part = [Path.dot, Path.dot]
      · subst hu
        exact .keep .up ih
      · have hc : Path.component? part = some (.name part) := by simp [Path.component?, he, hd, hu]
        have ht : Token.ofPart part = .name part := by simp [Token.ofPart, hd, hu]
        rw [ht, List.filterMap_cons_some hc]
        exact .keep (.name part) ih

theorem Looser.append_slash (h : Looser ts us) : Looser (ts ++ [.slash]) us := by
  induction h with
  | nil => exact .slash .nil
  | keep t _ ih => exact .keep t ih
  | here _ ih => exact .here ih
  | slash _ ih => exact .slash ih

theorem looser_tokens (p : Path) :
    Looser (tokens p.bytes) (p.components.filterMap Token.ofComponent?) := by
  obtain ⟨first, rest, hs⟩ := Path.split_eq_cons p.bytes
  have hc : p.components.filterMap Token.ofComponent? =
      ((Path.split p.bytes).filterMap Path.component?).filterMap Token.ofComponent? := by
    rw [Path.components_of_split hs, hs]
    cases ha : p.isAbsolute with
    | true =>
        rw [Path.eq_nil_of_isAbsolute ha hs]
        rfl
    | false =>
        by_cases hd : first = [Path.dot]
        · subst hd
          rfl
        · simp only [Bool.false_eq_true, if_false, hd]
          cases hf : Path.component? first with
          | none => simp [hf]
          | some k => simp [hf]
  rw [hc]
  have ht : tokens p.bytes = ((Path.split p.bytes).filter (· ≠ [])).map Token.ofPart ++
      if p.bytes.getLast? = some Path.slash then [.slash] else [] := rfl
  rw [ht]
  split
  · exact (looser_parts _).append_slash
  · rw [List.append_nil]
    exact looser_parts _

theorem stat_eq_ok_iff {p : Path} {loc : Location} {e : Entry} :
    d.stat p = .ok (loc, e) ↔ d.locate .target p = .ok (.found loc e) := by
  cases hs : d.locate .target p with
  | error err =>
      simp only [stat, entryAt, hs]
      constructor
      · intro h
        cases h
      · intro h
        cases h
  | ok s =>
      cases s with
      | vacant dir name =>
          simp only [stat, entryAt, hs]
          constructor
          · intro h
            cases h
          · intro h
            cases h
      | found loc' e' =>
          simp only [stat, entryAt, hs]
          constructor
          · intro h
            cases h
            rfl
          · intro h
            cases h
            rfl

theorem walk_of_stat {p : Path} {loc : Location} {e : Entry} (h : d.stat p = .ok (loc, e)) :
    d.walk .target mostLinks (if p.isAbsolute then [] else d.base)
      (p.components.filterMap Token.ofComponent?) = .ok (.found loc e) := by
  apply (looser_tokens p).walk_found
  have hl := stat_eq_ok_iff.mp h
  unfold locate at hl
  split at hl
  · cases hl
  split at hl
  · cases hl
  split at hl
  · cases hl
  exact hl

/-- Where two spellings of one path lead somewhere, they lead to the same place. -/
theorem stat_eq_of_same {p q : Path} (h : p.Same q) {x y : Location × Entry} (hp : d.stat p = .ok x)
    (hq : d.stat q = .ok y) : x = y := by
  obtain ⟨loc, e⟩ := x
  obtain ⟨loc', e'⟩ := y
  have hwp := walk_of_stat hp
  have hwq := walk_of_stat hq
  have hc : p.components = q.components := h
  rw [h.isAbsolute_eq, hc, hwq] at hwp
  cases hwp
  rfl

end Disk

end ClassScope
