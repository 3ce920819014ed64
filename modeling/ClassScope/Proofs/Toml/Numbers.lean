import ClassScope.Toml.Number

/-!
# Written numbers

The decimal digits of a natural number are read as that integer, and as nothing else, up to a character that
cannot go on with a number.
-/

namespace ClassScope.Toml.Number

variable {ds rest cs : List Char} {n : Nat}

/-! ## Digits -/

theorem hexDigit?_of_isDigit {c : Char} (h : c.isDigit = true) : hexDigit? c = some (c.toNat - '0'.toNat) := by
  have hbounds : '0' ≤ c ∧ c ≤ '9' := by
    simpa [Char.isDigit, Char.le_def] using h
  rw [hexDigit?, if_pos hbounds]

theorem value_eq_ofDigitChars (h : ∀ c ∈ ds, c.isDigit = true) : value 10 ds = Nat.ofDigitChars 10 ds 0 := by
  have go (n : Nat) : ds.foldl (fun n c => n * 10 + (hexDigit? c).getD 0) n = Nat.ofDigitChars 10 ds n := by
    induction ds generalizing n with
    | nil => rfl
    | cons c ds ih =>
        have hc := hexDigit?_of_isDigit (h c List.mem_cons_self)
        rw [List.foldl_cons, ih (fun x hx => h x (List.mem_cons_of_mem c hx)), Nat.ofDigitChars, Nat.ofDigitChars,
          List.foldl_cons, hc, Option.getD_some, Nat.mul_comm]
  exact go 0

theorem value_toDigits (n : Nat) : value 10 (Nat.toDigits 10 n) = n := by
  rw [value_eq_ofDigitChars fun c hc => Nat.isDigit_of_mem_toDigits (by decide) (by decide) hc]
  exact Nat.ofDigitChars_toDigits (by decide) (by decide)

/-- No number but zero starts with a zero. -/
theorem head?_toDigits (h : 0 < n) : (Nat.toDigits 10 n).head? ≠ some '0' := by
  induction n using Nat.strongRecOn with
  | _ n ih =>
      rw [Nat.toDigits_eq_if (by decide)]
      split
      case isTrue hlt =>
          have all : ∀ n < 10, 0 < n → n.digitChar ≠ '0' := by decide
          simpa using all n hlt h
      case isFalse hge =>
          have hhead := ih (n / 10) (by omega) (by omega)
          cases hd : Nat.toDigits 10 (n / 10) with
          | nil => exact absurd hd Nat.toDigits_ne_nil
          | cons c ds =>
              rw [hd] at hhead
              exact hhead

/-! ## What may follow -/

/-- What comes next ends a value: the end of a line or of the document, a comma or a bracket. -/
def Follows (rest : List Char) : Prop :=
  ∀ c, rest.head? = some c → c = '\n' ∨ c = ',' ∨ c = ']'

theorem follows_nil : Follows [] :=
  nofun

theorem follows_cons {c : Char} (h : c = '\n' ∨ c = ',' ∨ c = ']') (cs : List Char) : Follows (c :: cs) := by
  intro x hx
  cases hx
  exact h

theorem Follows.head?_ne (h : Follows rest) {c : Char} (hc : c ≠ '\n' ∧ c ≠ ',' ∧ c ≠ ']') :
    rest.head? ≠ some c := by
  intro hx
  rcases h c hx with he | he | he
  · exact hc.1 he
  · exact hc.2.1 he
  · exact hc.2.2 he

/-- Digits and what follows them never go on with a sign such as this. -/
theorem expect?_eq_none (hds : ∀ c ∈ ds, c.isDigit = true) (hrest : Follows rest) {c : Char}
    (hc : c ≠ '\n' ∧ c ≠ ',' ∧ c ≠ ']') (hdigit : c.isDigit = false) : expect? c (ds ++ rest) = none := by
  cases ds with
  | cons d ds =>
      have hne : c ≠ d := by
        rintro rfl
        rw [hds c List.mem_cons_self] at hdigit
        cases hdigit
      simp [expect?, hne]
  | nil =>
      cases rest with
      | nil => rfl
      | cons d rest =>
          have hne : c ≠ d := fun he => hrest.head?_ne hc (by rw [he]; rfl)
          simp [expect?, hne]

/-! ## Neither a moment nor a real -/

theorem fixed?_digits (hrest : Follows rest) {count low high m : Nat}
    (h : fixed? count low high (ds ++ rest) = some (m, cs)) : cs = ds.drop count ++ rest := by
  simp only [fixed?] at h
  split at h
  case isFalse => cases h
  case isTrue hfixed =>
      cases h
      obtain ⟨hlength, hall, -, -⟩ := hfixed
      rcases Nat.lt_or_ge ds.length count with hlt | hge
      · -- The digits do not suffice, so one was taken from what follows them.
        cases rest with
        | nil => simp at hlength; omega
        | cons c rest =>
            have hmem : c ∈ (ds ++ c :: rest).take count := by
              rw [List.take_append]
              obtain ⟨k, hk⟩ : ∃ k, count - ds.length = k + 1 := ⟨count - ds.length - 1, by omega⟩
              rw [hk, List.take_succ_cons]
              exact List.mem_append_right _ List.mem_cons_self
            have hdigit := List.all_eq_true.mp hall c hmem
            rcases hrest c rfl with rfl | rfl | rfl
            all_goals exact absurd hdigit (by decide)
      · exact List.drop_append_of_le_length hge

theorem isDigit_of_mem_drop (hds : ∀ c ∈ ds, c.isDigit = true) (k : Nat) : ∀ c ∈ ds.drop k, c.isDigit = true :=
  fun c hc => hds c (List.mem_of_mem_drop hc)

theorem date?_digits (hds : ∀ c ∈ ds, c.isDigit = true) (hrest : Follows rest) : date? (ds ++ rest) = none := by
  cases hf : fixed? 4 0 9999 (ds ++ rest) with
  | none => simp [date?, hf]
  | some r =>
      obtain ⟨m, cs⟩ := r
      have hcs := fixed?_digits hrest hf
      have hnone : expect? '-' cs = none := by
        rw [hcs]
        exact expect?_eq_none (isDigit_of_mem_drop hds _) hrest (by decide) (by decide)
      simp [date?, hf, hnone]

theorem time?_digits (hds : ∀ c ∈ ds, c.isDigit = true) (hrest : Follows rest) : time? (ds ++ rest) = none := by
  cases hf : fixed? 2 0 23 (ds ++ rest) with
  | none => simp [time?, hf]
  | some r =>
      obtain ⟨m, cs⟩ := r
      have hcs := fixed?_digits hrest hf
      have hnone : expect? ':' cs = none := by
        rw [hcs]
        exact expect?_eq_none (isDigit_of_mem_drop hds _) hrest (by decide) (by decide)
      simp [time?, hf, hnone]

theorem moment?_digits (hds : ∀ c ∈ ds, c.isDigit = true) (hrest : Follows rest) : moment? (ds ++ rest) = none := by
  rw [moment?, date?_digits hds hrest, time?_digits hds hrest]
  rfl

theorem digitsFrom_append (hds : ∀ c ∈ ds, c.isDigit = true) (hrest : Follows rest) {needed : Bool}
    (hneeded : ds = [] → needed = false) : digitsFrom Char.isDigit needed (ds ++ rest) = some (ds, rest) := by
  induction ds generalizing needed with
  | nil =>
      rw [hneeded rfl]
      cases rest with
      | nil => rfl
      | cons c rest =>
          rcases hrest c rfl with rfl | rfl | rfl <;> rfl
  | cons d ds ih =>
      rw [List.cons_append, digitsFrom, if_pos (hds d List.mem_cons_self),
        ih (fun x hx => hds x (List.mem_cons_of_mem d hx)) fun _ => rfl]
      rfl

theorem isDigit_toDigits (n : Nat) : ∀ c ∈ Nat.toDigits 10 n, c.isDigit = true :=
  fun _ hc => Nat.isDigit_of_mem_toDigits (by decide) (by decide) hc

theorem decimal?_toDigits (n : Nat) (hrest : Follows rest) :
    decimal? (Nat.toDigits 10 n ++ rest) = some (Nat.toDigits 10 n, rest) := by
  have hdigits : digitsFrom Char.isDigit true (Nat.toDigits 10 n ++ rest) = some (Nat.toDigits 10 n, rest) :=
    digitsFrom_append (isDigit_toDigits n) hrest fun h => absurd h Nat.toDigits_ne_nil
  rcases Nat.eq_zero_or_pos n with rfl | hpos
  · rfl
  · have hhead := head?_toDigits hpos
    cases hd : Nat.toDigits 10 n with
    | nil => exact absurd hd Nat.toDigits_ne_nil
    | cons c ds =>
        rw [hd] at hhead hdigits
        have hc : c ≠ '0' := fun he => hhead (by rw [he]; rfl)
        rw [List.cons_append] at hdigits ⊢
        unfold decimal?
        split
        case h_1 cs h => exact absurd (List.cons.inj h).1 hc
        case h_2 => exact hdigits

theorem sign_digits (hds : ∀ c ∈ ds, c.isDigit = true) (hne : ds ≠ []) (rest : List Char) :
    sign (ds ++ rest) = (false, ds ++ rest) := by
  cases ds with
  | nil => exact absurd rfl hne
  | cons d ds =>
      have hd := hds d List.mem_cons_self
      rw [List.cons_append]
      unfold sign
      split
      case h_1 cs h => exact absurd ((List.cons.inj h).1 ▸ hd) (by decide)
      case h_2 cs h => exact absurd ((List.cons.inj h).1 ▸ hd) (by decide)
      case h_3 => rfl

theorem tail?_of_follows (hrest : Follows rest) : tail? rest = none := by
  cases rest with
  | nil => rfl
  | cons c rest => rcases hrest c rfl with rfl | rfl | rfl <;> rfl

theorem real?_toDigits (n : Nat) (hrest : Follows rest) : real? (Nat.toDigits 10 n ++ rest) = none := by
  have hdigit := isDigit_toDigits n
  have hsign := sign_digits hdigit Nat.toDigits_ne_nil rest
  have hdecimal := decimal?_toDigits n hrest
  rw [real?, hsign]
  dsimp only
  cases hd : Nat.toDigits 10 n with
  | nil => exact absurd hd Nat.toDigits_ne_nil
  | cons d ds =>
      rw [hd] at hdigit hdecimal
      rw [List.cons_append] at hdecimal ⊢
      have hdd := hdigit d List.mem_cons_self
      split
      case h_1 cs h => exact absurd ((List.cons.inj h).1 ▸ hdd) (by decide)
      case h_2 cs h => exact absurd ((List.cons.inj h).1 ▸ hdd) (by decide)
      case h_3 => simp [hdecimal, tail?_of_follows hrest]

theorem integer?_toDigits (h : inRange n = true) (hrest : Follows rest) :
    integer? (Nat.toDigits 10 n ++ rest) = some (.integer n, rest) := by
  have hsign := sign_digits (isDigit_toDigits n) Nat.toDigits_ne_nil rest
  have hdecimal := decimal?_toDigits n hrest
  have hvalue := value_toDigits n
  have other {x : Char} (hx : x.isDigit = false ∧ x ≠ '\n' ∧ x ≠ ',' ∧ x ≠ ']') (cs : List Char) :
      Nat.toDigits 10 n ++ rest ≠ '0' :: x :: cs := by
    intro he
    rcases Nat.eq_zero_or_pos n with rfl | hpos
    · have htail : rest = x :: cs := (List.cons.inj he).2
      exact hrest.head?_ne hx.2 (by rw [htail]; rfl)
    · cases hd : Nat.toDigits 10 n with
      | nil => exact Nat.toDigits_ne_nil hd
      | cons d ds =>
          have hhead := head?_toDigits hpos
          rw [hd] at he hhead
          exact hhead (by rw [(List.cons.inj he).1]; rfl)
  generalize hcs : Nat.toDigits 10 n ++ rest = cs at hsign hdecimal other
  unfold integer?
  split
  case h_1 cs => exact absurd rfl (other (by decide) cs)
  case h_2 cs => exact absurd rfl (other (by decide) cs)
  case h_3 cs => exact absurd rfl (other (by decide) cs)
  case h_4 => simp [hsign, hdecimal, hvalue, h]

theorem read?_toDigits (h : inRange n = true) (hrest : Follows rest) :
    read? (Nat.toDigits 10 n ++ rest) = some (.integer n, rest) := by
  rw [read?, moment?_digits (isDigit_toDigits n) hrest, real?_toDigits n hrest, integer?_toDigits h hrest]
  rfl

end ClassScope.Toml.Number
