import ClassScope.ClassName
import Mathlib.Data.List.TakeWhile

/-!
# The last parts of names

What stands after the last separator of a text, and how that of a class name goes with that of the path it
was made from.
-/

namespace ClassScope.ClassName

theorem ne_of_mem_reverse {sep : Char} {part : List Char} (h : sep ∉ part) :
    ∀ x ∈ part.reverse, (x != sep) = true := by
  intro x hx
  have hne : x ≠ sep := ne_of_mem_of_not_mem (List.mem_reverse.mp hx) h
  simpa using hne

theorem lastPart_of_not_mem {sep : Char} {part : List Char} (h : sep ∉ part) : lastPart sep part = part := by
  rw [lastPart, List.takeWhile_eq_self_iff.mpr (ne_of_mem_reverse h), List.reverse_reverse]

theorem lastPart_append {sep : Char} {part : List Char} (h : sep ∉ part) (front : List Char) :
    lastPart sep (front ++ sep :: part) = part := by
  have hrev : (front ++ sep :: part).reverse = part.reverse ++ sep :: front.reverse := by simp
  rw [lastPart, hrev, List.takeWhile_append_of_pos (ne_of_mem_reverse h)]
  simp

theorem not_mem_lastPart (sep : Char) (cs : List Char) : sep ∉ lastPart sep cs := by
  intro h
  have hne := List.mem_takeWhile_imp (List.mem_reverse.mp h)
  simp at hne

theorem eq_lastPart_or (sep : Char) (cs : List Char) :
    cs = lastPart sep cs ∨ ∃ front, cs = front ++ sep :: lastPart sep cs := by
  have hsplit := List.takeWhile_append_dropWhile (p := (· != sep)) (l := cs.reverse)
  have hhead := List.head?_dropWhile_not (· != sep) cs.reverse
  cases hdrop : cs.reverse.dropWhile (· != sep) with
  | nil =>
      left
      rw [hdrop, List.append_nil] at hsplit
      rw [lastPart, hsplit, List.reverse_reverse]
  | cons x rest =>
      right
      rw [hdrop] at hsplit hhead
      obtain rfl : x = sep := by simpa using hhead
      have hcs := congrArg List.reverse hsplit
      rw [List.reverse_append, List.reverse_cons, List.reverse_reverse, List.append_assoc] at hcs
      exact ⟨rest.reverse, hcs.symm⟩

/-- What stands before a separator does not matter for the last part. -/
theorem lastPart_append_cons (sep : Char) (front part : List Char) :
    lastPart sep (front ++ sep :: part) = lastPart sep part := by
  rcases eq_lastPart_or sep part with hall | ⟨inner, hinner⟩
  · have hno : sep ∉ part := hall ▸ not_mem_lastPart sep part
    rw [lastPart_append hno, lastPart_of_not_mem hno]
  · have hsplit : front ++ sep :: part = (front ++ sep :: inner) ++ sep :: lastPart sep part := by
      rw [List.append_assoc, List.cons_append, ← hinner]
    rw [hsplit, lastPart_append (not_mem_lastPart sep part)]

theorem mem_of_mem_lastPart {sep c : Char} {cs : List Char} (h : c ∈ lastPart sep cs) : c ∈ cs :=
  List.mem_reverse.mp ((List.takeWhile_sublist _).subset (List.mem_reverse.mp h))

/-! ## Dots for slashes -/

theorem dotted_of_not_mem {cs : List Char} (h : '/' ∉ cs) : dotted cs = cs := by
  refine (List.map_congr_left fun c hc => ?_).trans (List.map_id cs)
  exact if_neg (ne_of_mem_of_not_mem hc h)

theorem dotted_append_slash (front part : List Char) :
    dotted (front ++ '/' :: part) = dotted front ++ '.' :: dotted part := by
  rw [dotted, List.map_append, List.map_cons]
  rfl

/-- The last part of a class name is that of the file name it was made from. -/
theorem lastPart_dotted (stem : List Char) :
    lastPart '.' (dotted stem) = lastPart '.' (lastPart '/' stem) := by
  have hfile : dotted (lastPart '/' stem) = lastPart '/' stem := dotted_of_not_mem (not_mem_lastPart '/' stem)
  rcases eq_lastPart_or '/' stem with hall | ⟨front, hfront⟩
  · rw [hall, lastPart_of_not_mem (not_mem_lastPart '/' stem), hfile]
  · have hdotted : dotted stem = dotted front ++ '.' :: lastPart '/' stem := by
      rw [hfront, dotted_append_slash, lastPart_append (not_mem_lastPart '/' stem), hfile]
    rw [hdotted, lastPart_append_cons]

/-! ## Descriptors -/

/-- What the files are called that describe a module or a package. -/
def IsDescriptor (simple : List Char) : Prop :=
  simple = "module-info".toList ∨ simple = "package-info".toList

instance (simple : List Char) : Decidable (IsDescriptor simple) :=
  inferInstanceAs (Decidable (_ ∨ _))

theorem isTopLevel_iff {simple : List Char} : IsTopLevel simple ↔ '$' ∉ simple ∧ ¬ IsDescriptor simple := by
  rw [IsTopLevel, IsDescriptor, not_or]

theorem IsDescriptor.dot_not_mem {simple : List Char} (h : IsDescriptor simple) : '.' ∉ simple := by
  rcases h with rfl | rfl <;> decide

end ClassScope.ClassName
