import ClassScope.Proofs.Toml.Numbers
import ClassScope.Proofs.Toml.Texts
import ClassScope.Toml.Statement
import Mathlib.Data.List.Forall2

/-!
# Lines of a document

Values, assignments and headers as they are written are read back, one line after the other.
-/

namespace ClassScope.Toml

open Statement

variable {depth : Nat} {w rest cs name : List Char} {v : Value} {ws : List (List Char)} {vs : List Value}

/-! ## Values -/

/-- Such a character is the first one of a value, and nothing is skipped before it. -/
def Opens (c : Char) : Prop :=
  isBlank c = false ∧ c ≠ '\n' ∧ c ≠ '\r' ∧ c ≠ '#' ∧ c ≠ ']'

/-- Such characters write a value: they are read as it wherever a value may end. -/
structure Writes (depth : Nat) (w : List Char) (v : Value) : Prop where
  opens : ∃ c tail, w = c :: tail ∧ Opens c
  reads : ∀ {rest}, Number.Follows rest → value? depth (w ++ rest) = some (v, rest)

theorem Text.write_eq_cons (cs : List Char) : ∃ q tail, Text.write cs = q :: tail ∧ (q = '"' ∨ q = '\'') := by
  have all : ∀ form ∈ [basic, literal, basicBlock, literalBlock],
      ∃ tail, closing form = form.quote :: tail ∧ (form.quote = '"' ∨ form.quote = '\'') := by
    simp [closing, basic, literal, basicBlock, literalBlock, List.replicate]
  obtain ⟨tail, hclosing, hquote⟩ := all _ (Text.shows_formOf cs).1
  exact ⟨_, _, by rw [Text.write_eq, hclosing]; rfl, hquote⟩

theorem writes_text (depth : Nat) (cs : List Char) : Writes depth (Text.write cs) (.text (String.ofList cs)) := by
  obtain ⟨q, tail, hw, hq⟩ := Text.write_eq_cons cs
  constructor
  · refine ⟨q, tail, hw, ?_⟩
    unfold Opens
    rcases hq with rfl | rfl <;> decide
  · intro rest hrest
    have hread := Text.read?_write cs (hrest.head?_ne (by decide)) (hrest.head?_ne (by decide))
    rw [hw, List.cons_append] at hread
    rw [hw, List.cons_append]
    unfold value?
    rcases hq with rfl | rfl
    · dsimp only
      rw [hread]
      rfl
    · dsimp only
      rw [hread]
      rfl

theorem writes_boolean (depth : Nat) (b : Bool) :
    Writes depth (if b then "true" else "false").toList (.boolean b) := by
  cases b with
  | true => exact ⟨⟨_, _, rfl, by unfold Opens; decide⟩, fun _ => by unfold value?; rfl⟩
  | false => exact ⟨⟨_, _, rfl, by unfold Opens; decide⟩, fun _ => by unfold value?; rfl⟩

theorem opens_of_isDigit {c : Char} (h : c.isDigit = true) : Opens c := by
  have other {x : Char} (hx : x.isDigit = false) : c ≠ x := by
    rintro rfl
    rw [h] at hx
    cases hx
  have hblank : isBlank c = false := by
    simp [isBlank, other (show ' '.isDigit = false by decide), other (show '\t'.isDigit = false by decide)]
  exact ⟨hblank, other (by decide), other (by decide), other (by decide), other (by decide)⟩

theorem writes_natural (depth : Nat) {n : Nat} (h : Number.inRange n = true) :
    Writes depth (Nat.toDigits 10 n) (.integer n) := by
  have hdigit := Number.isDigit_toDigits n
  cases hd : Nat.toDigits 10 n with
  | nil => exact absurd hd Nat.toDigits_ne_nil
  | cons d ds =>
      have hdd : d.isDigit = true := hdigit d (by rw [hd]; exact List.mem_cons_self)
      refine ⟨⟨d, ds, rfl, opens_of_isDigit hdd⟩, fun {rest} hrest => ?_⟩
      have hread := Number.read?_toDigits h hrest
      have other {x : Char} {xs : List Char} (hx : x.isDigit = false) : (d :: ds) ++ rest ≠ x :: xs := by
        intro he
        rw [(List.cons.inj he).1, hx] at hdd
        cases hdd
      rw [hd] at hread
      unfold value?
      split
      case h_7 => exact hread
      all_goals
        rename_i he
        exact absurd he (other (by decide))

/-! ## Arrays -/

theorem Opens.skipGap {c : Char} (h : Opens c) (comment : List Char) : skipGap false (c :: comment) = c :: comment := by
  obtain ⟨hblank, hline, hreturn, hcomment, -⟩ := h
  unfold Statement.skipGap
  split
  case h_1 he => cases he
  case h_2 he => exact absurd (List.cons.inj he).1 hreturn
  case h_3 he =>
      obtain ⟨rfl, rfl⟩ := List.cons.inj he
      simp [hline, hblank, hcomment]

theorem Writes.skipGap (h : Writes depth w v) (rest : List Char) : skipGap false (w ++ rest) = w ++ rest := by
  obtain ⟨⟨c, tail, rfl, hc⟩, -⟩ := h
  exact hc.skipGap _

/-- One item of an array is read, and then the closing bracket or a comma decides. -/
theorem items?_step (h : Writes depth w v) (hrest : Number.Follows rest) (bound : Nat) :
    items? (value? depth) (bound + 1) (w ++ rest) = match skipGap false rest with
      | ']' :: rest => some ([v], rest)
      | ',' :: rest => do
          let (vs, rest) ← items? (value? depth) bound rest
          some (v :: vs, rest)
      | _ => none := by
  have hread := h.reads hrest
  have hskip := h.skipGap rest
  obtain ⟨⟨c, tail, rfl, hc⟩, -⟩ := h
  rw [items?, hskip]
  rw [List.cons_append] at hread ⊢
  split
  case h_1 he => exact absurd (List.cons.inj he).1 hc.2.2.2.2
  case h_2 =>
      rw [hread]
      rfl

/-- The items of an array, each on a line of its own. -/
def itemLines (ws : List (List Char)) : List Char :=
  ws.flatMap fun w => "    ".toList ++ (w ++ ",\n".toList)

theorem items?_itemLines (h : List.Forall₂ (Writes depth) ws vs) {bound : Nat} (hbound : ws.length < bound)
    (rest : List Char) :
    items? (value? depth) bound ('\n' :: (itemLines ws ++ ']' :: rest)) = some (vs, rest) := by
  induction h generalizing bound with
  | nil =>
      obtain ⟨bound, rfl⟩ : ∃ b, bound = b + 1 := ⟨bound - 1, by omega⟩
      rfl
  | @cons w v ws vs hw hws ih =>
      obtain ⟨bound, rfl⟩ : ∃ b, bound = b + 1 := ⟨bound - 1, by omega⟩
      have more : items? (value? depth) bound ('\n' :: (itemLines ws ++ ']' :: rest)) = some (vs, rest) :=
        ih (by simpa using hbound)
      have hskip : skipGap false ('\n' :: (itemLines (w :: ws) ++ ']' :: rest)) =
          skipGap false (w ++ (',' :: '\n' :: (itemLines ws ++ ']' :: rest))) := by
        simp [itemLines, Statement.skipGap, isBlank]
      have hstep := items?_step hw (Number.follows_cons (Or.inr (Or.inl rfl))
        ('\n' :: (itemLines ws ++ ']' :: rest))) bound
      rw [items?] at hstep ⊢
      rw [hskip, hstep]
      have hcomma : skipGap false (',' :: '\n' :: (itemLines ws ++ ']' :: rest)) =
          ',' :: '\n' :: (itemLines ws ++ ']' :: rest) := rfl
      simp only [hcomma, more]
      rfl

/-- An array of some items: one item stands on the line of its brackets, several stand on lines of their own. -/
def array : List (List Char) → List Char
  | [] => "[]".toList
  | [w] => '[' :: (w ++ [']'])
  | ws => '[' :: '\n' :: (itemLines ws ++ [']'])

theorem length_le_itemLines (ws : List (List Char)) : ws.length ≤ (itemLines ws).length := by
  induction ws with
  | nil => exact Nat.le_refl _
  | cons w ws ih =>
      have hcons : itemLines (w :: ws) = "    ".toList ++ (w ++ ",\n".toList) ++ itemLines ws := rfl
      rw [hcons]
      simp
      omega

theorem writes_array (h : List.Forall₂ (Writes depth) ws vs) : Writes (depth + 1) (array ws) (.array vs) := by
  have opens : Opens '[' := by unfold Opens; decide
  have close {w rest : List Char} {vs : List Value}
      (hread : items? (value? depth) ((w ++ rest).length + 1) (w ++ rest) = some (vs, rest)) :
      value? (depth + 1) ('[' :: w ++ rest) = some (.array vs, rest) := by
    rw [List.cons_append, value?]
    simp only [hread]
    rfl
  cases h with
  | nil => exact ⟨⟨_, _, rfl, opens⟩, fun {rest} _ => close (w := [']']) rfl⟩
  | @cons w v ws vs hw hws =>
      cases hws with
      | nil =>
          refine ⟨⟨_, _, rfl, opens⟩, fun {rest} _ => close ?_⟩
          rw [List.append_assoc]
          have hfollows : Number.Follows (']' :: rest) := Number.follows_cons (Or.inr (Or.inr rfl)) rest
          exact items?_step hw hfollows _
      | @cons w' v' ws vs hw' hws =>
          refine ⟨⟨_, _, rfl, opens⟩, fun {rest} _ => close ?_⟩
          have hlength := length_le_itemLines (w :: w' :: ws)
          have hbound : (w :: w' :: ws).length <
              ('\n' :: (itemLines (w :: w' :: ws) ++ [']']) ++ rest).length + 1 := by
            simp only [List.length_cons, List.length_append] at hlength ⊢
            omega
          simpa using items?_itemLines (.cons hw (.cons hw' hws)) hbound rest

theorem not_mem_return_array {ws : List (List Char)} (h : ∀ w ∈ ws, '\r' ∉ w) : '\r' ∉ array ws := by
  unfold array
  split
  · decide
  · simpa using h
  · simpa [itemLines] using h

/-! ## Keys -/

/-- Characters that need no quotes in a key. -/
structure Bare (name : List Char) : Prop where
  nonempty : name ≠ []
  bare : ∀ c ∈ name, isBare c = true

instance (name : List Char) : Decidable (Bare name) :=
  decidable_of_iff (name ≠ [] ∧ name.all isBare = true)
    ⟨fun h => ⟨h.1, List.all_eq_true.mp h.2⟩, fun h => ⟨h.1, List.all_eq_true.mpr h.2⟩⟩

theorem Bare.exists_cons (h : Bare name) : ∃ c tail, name = c :: tail ∧ isBare c = true := by
  cases name with
  | nil => exact absurd rfl h.nonempty
  | cons c tail => exact ⟨c, tail, rfl, h.bare c List.mem_cons_self⟩

theorem skipBlanks_cons {c : Char} (h : isBlank c = false) (cs : List Char) : skipBlanks (c :: cs) = c :: cs := by
  rw [skipBlanks, List.dropWhile_cons_of_neg (by rw [h]; decide)]

theorem isBlank_of_isBare {c : Char} (h : isBare c = true) : isBlank c = false := by
  by_contra hblank
  simp only [Bool.not_eq_false, isBlank, Bool.or_eq_true, decide_eq_true_eq] at hblank
  rcases hblank with rfl | rfl
  · exact absurd h (by decide)
  · exact absurd h (by decide)

theorem ne_of_isBare {c x : Char} (h : isBare c = true) (hx : isBare x = false) : c ≠ x := by
  rintro rfl
  rw [h] at hx
  cases hx

theorem keyPart?_bare (h : Bare name) {c : Char} (hc : isBare c = false) (rest : List Char) :
    keyPart? (name ++ c :: rest) = some (String.ofList name, skipBlanks (c :: rest)) := by
  have htake : (name ++ c :: rest).takeWhile isBare = name := by
    rw [List.takeWhile_append_of_pos h.bare, List.takeWhile_cons_of_neg (by rw [hc]; decide), List.append_nil]
  have hdrop : (name ++ c :: rest).dropWhile isBare = c :: rest := by
    rw [List.dropWhile_append_of_pos h.bare, List.dropWhile_cons_of_neg (by rw [hc]; decide)]
  obtain ⟨k, tail, rfl, hk⟩ := h.exists_cons
  rw [List.cons_append] at htake hdrop ⊢
  rw [keyPart?, skipBlanks_cons (isBlank_of_isBare hk)]
  dsimp only
  split
  case h_1 he => exact absurd (List.cons.inj he).1 (ne_of_isBare hk (by decide))
  case h_2 he => exact absurd (List.cons.inj he).1 (ne_of_isBare hk (by decide))
  case h_3 =>
      rw [htake, hdrop]
      rfl

theorem key?_bare (h : Bare name) {c : Char} (hc : isBare c = false) {next : Char} {after : List Char}
    (hskip : skipBlanks (c :: rest) = next :: after) (hnext : next ≠ '.') (parts : Nat) :
    key? (parts + 1) (name ++ c :: rest) = some (⟨[], String.ofList name⟩, next :: after) := by
  rw [key?, keyPart?_bare h hc, hskip]
  simp only [Option.bind_eq_bind, Option.bind_some]
  split
  case h_1 he => exact absurd (List.cons.inj he).1 hnext
  case h_2 => rfl

/-! ## Statements -/

/-- What follows a line: the lines after it, or nothing after the last one. -/
inductive LineEnd : List Char → List Char → Prop
  | more (cs : List Char) : LineEnd ('\n' :: cs) cs
  | last : LineEnd [] []

theorem LineEnd.follows (h : LineEnd rest cs) : Number.Follows rest := by
  cases h with
  | more cs => exact Number.follows_cons (Or.inl rfl) cs
  | last => exact Number.follows_nil

theorem LineEnd.lineEnd? (h : LineEnd rest cs) : lineEnd? false rest = some cs := by
  cases h <;> rfl

/-- An assignment on a line. -/
def assignment (name w : List Char) : List Char :=
  name ++ " = ".toList ++ w

theorem statement?_assignment (h : Bare name) (hw : Writes (nesting - 1) w v) (hrest : LineEnd rest cs) :
    statement? (assignment name w ++ rest) = some (.assign ⟨[], String.ofList name⟩ v, cs) := by
  have hread := hw.reads hrest.follows
  obtain ⟨⟨first, tail, rfl, hfirst⟩, -⟩ := hw
  have hkey : key? (nesting - 1) (assignment name (first :: tail) ++ rest) =
      some (⟨[], String.ofList name⟩, '=' :: ' ' :: (first :: tail ++ rest)) := by
    have hassignment : assignment name (first :: tail) ++ rest =
        name ++ ' ' :: ('=' :: ' ' :: (first :: tail ++ rest)) := by simp [assignment]
    rw [hassignment]
    exact key?_bare h (by decide) rfl (by decide) _
  have hpair : pair? (value? (nesting - 1)) (assignment name (first :: tail) ++ rest) =
      some ((⟨[], String.ofList name⟩, v), rest) := by
    have hskip : skipBlanks (' ' :: (first :: tail ++ rest)) = first :: tail ++ rest := by
      rw [skipBlanks, List.dropWhile_cons_of_pos (by decide), List.cons_append,
        List.dropWhile_cons_of_neg (by rw [hfirst.1]; decide)]
    rw [pair?, hkey]
    simp only [Option.bind_eq_bind, Option.bind_some, Number.expect?, if_pos, hskip, hread]
  obtain ⟨k, name', rfl, hk⟩ := h.exists_cons
  have hcons : assignment (k :: name') (first :: tail) ++ rest =
      k :: (name' ++ " = ".toList ++ (first :: tail) ++ rest) := by simp [assignment]
  rw [hcons] at hpair ⊢
  rw [statement?, skipBlanks_cons (isBlank_of_isBare hk)]
  dsimp only
  split
  case h_1 he => exact absurd (List.cons.inj he).1 (ne_of_isBare hk (by decide))
  case h_2 he => exact absurd (List.cons.inj he).1 (ne_of_isBare hk (by decide))
  case h_3 =>
      rw [hpair]
      simp only [Option.bind_eq_bind, Option.bind_some, hrest.lineEnd?]

/-- A header on a line. -/
def headerLine (name : List Char) : List Char :=
  '[' :: (name ++ [']'])

theorem statement?_headerLine (h : Bare name) (hrest : LineEnd rest cs) :
    statement? (headerLine name ++ rest) = some (.header ⟨[], String.ofList name⟩, cs) := by
  have hkey : key? (nesting - 1) (name ++ ']' :: rest) = some (⟨[], String.ofList name⟩, ']' :: rest) :=
    key?_bare h (by decide) rfl (by decide) _
  have hcons : headerLine name ++ rest = '[' :: (name ++ ']' :: rest) := by simp [headerLine]
  rw [hcons, statement?, skipBlanks_cons (by decide)]
  obtain ⟨k, name', rfl, hk⟩ := h.exists_cons
  rw [List.cons_append] at hkey ⊢
  dsimp only
  split
  case h_1 he =>
      exact absurd (List.cons.inj (List.cons.inj he).2).1 (ne_of_isBare hk (by decide))
  case h_2 he =>
      cases he
      rw [hkey]
      simp only [Option.bind_eq_bind, Option.bind_some, Number.expect?, if_pos, hrest.lineEnd?]
  case h_3 he => exact absurd rfl (he _)

/-! ## Lines -/

/-- Such lines are read as these statements. -/
def Reads (cs : List Char) (ss : List Statement) : Prop :=
  ∀ bound, cs.length ≤ bound → lines? bound cs = some ss

theorem reads_nil : Reads [] [] := by
  intro bound _
  cases bound <;> rfl

theorem Reads.read?_ofList {ss : List Statement} (h : Reads cs ss) (hmark : cs.head? ≠ some '\uFEFF') :
    read? (String.ofList cs) = some ss := by
  unfold read?
  rw [String.toList_ofList]
  split
  · exact absurd rfl hmark
  · exact h _ (Nat.le_refl _)

variable {ss : List Statement}

theorem Reads.blank (h : Reads cs ss) : Reads ('\n' :: cs) ss := by
  intro bound hbound
  cases bound with
  | zero => exact absurd hbound (Nat.not_succ_le_zero _)
  | succ bound => exact h bound (Nat.le_of_succ_le_succ hbound)

theorem Reads.statement (h : Reads cs ss) {c : Char} {line : List Char} {s : Statement}
    (hc : lineEnd? false (c :: line) = none) (hs : statement? (c :: line) = some (s, cs))
    (hlength : cs.length ≤ line.length) : Reads (c :: line) (s :: ss) := by
  intro bound hbound
  cases bound with
  | zero => exact absurd hbound (Nat.not_succ_le_zero _)
  | succ bound =>
      have hmore : lines? bound cs = some ss :=
        h bound (Nat.le_trans hlength (Nat.le_of_succ_le_succ hbound))
      simp only [lines?, hc, hs, Option.bind_eq_bind, Option.bind_some, hmore]

theorem LineEnd.length_le (h : LineEnd rest cs) : cs.length ≤ rest.length := by
  cases h with
  | more cs => exact Nat.le_succ _
  | last => exact Nat.le_refl _

theorem Reads.assignment (h : Reads cs ss) (hname : Bare name) (hw : Writes (nesting - 1) w v)
    (hrest : LineEnd rest cs) :
    Reads (assignment name w ++ rest) (.assign ⟨[], String.ofList name⟩ v :: ss) := by
  have hs := statement?_assignment hname hw hrest
  have hlength := hrest.length_le
  obtain ⟨k, name, rfl, hk⟩ := hname.exists_cons
  refine h.statement ?_ hs ?_
  · have hcomment : k ≠ '#' := ne_of_isBare hk (by decide)
    have hline : k ≠ '\n' := ne_of_isBare hk (by decide)
    unfold Statement.lineEnd?
    split
    case h_1 he => cases he
    case h_2 he => exact absurd (List.cons.inj he).1 (ne_of_isBare hk (by decide))
    case h_3 he =>
        obtain ⟨rfl, rfl⟩ := List.cons.inj he
        simp [hline, hcomment, isBlank_of_isBare hk]
  · simp
    omega

theorem Reads.header (h : Reads cs ss) (hname : Bare name) (hrest : LineEnd rest cs) :
    Reads (headerLine name ++ rest) (.header ⟨[], String.ofList name⟩ :: ss) := by
  have hlength := hrest.length_le
  refine h.statement rfl (statement?_headerLine hname hrest) ?_
  simp
  omega

end ClassScope.Toml
