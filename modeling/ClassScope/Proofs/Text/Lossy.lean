import ClassScope.Path.Basic

/-!
# Lenient reading and the characters of paths

A character of several bytes is never a slash or a dot, and neither is the replacement character. So a
lenient reading leaves slashes and dots where they stand.
-/

namespace ClassScope.Utf8

/-! ## Characters of one byte and of several -/

/-- No value from 128 on stands for a slash or a dot; an invalid one gives the character of the value 0. -/
theorem ofNat_ne_of_le {n : Nat} (h : 0x80 ≤ n) : Char.ofNat n ≠ '/' ∧ Char.ofNat n ≠ '.' := by
  have hc : (Char.ofNat n).toNat = 0 ∨ 0x80 ≤ (Char.ofNat n).toNat := by
    by_cases hv : n.isValidChar
    · right
      rw [Char.ofNat, dif_pos hv]
      exact h
    · left
      rw [Char.ofNat, dif_neg hv]
      rfl
  constructor
  · intro he
    rw [he] at hc
    revert hc
    decide
  · intro he
    rw [he] at hc
    revert hc
    decide

/-- All values that a character begun can still take are at least 128. -/
def Partial.Large (p : Partial) : Prop :=
  0x80 ≤ p.low.toNat ∧ (2 ≤ p.value ∨ 0 < p.more ∧ 2 ≤ p.value * 64 + (p.low.toNat - 0x80))

instance (p : Partial) : Decidable p.Large :=
  inferInstanceAs (Decidable (_ ∧ _))

theorem Partial.Large.next_char {p : Partial} (h : p.Large) {b : UInt8} {c : Char}
    (hc : p.next b = .char c) : 0x80 ≤ b.toNat ∧ c ≠ '/' ∧ c ≠ '.' := by
  obtain ⟨hlow, hv⟩ := h
  unfold Partial.next at hc
  split at hc
  case isFalse => cases hc
  case isTrue hb =>
      have hl : p.low.toNat ≤ b.toNat := hb.1
      cases hm : p.more with
      | zero =>
          rw [hm] at hc hv
          rw [← Opening.char.inj hc]
          exact ⟨Nat.le_trans hlow hl, ofNat_ne_of_le (by omega)⟩
      | succ more =>
          rw [hm] at hc
          cases hc

theorem Partial.Large.next_lead {p q : Partial} (h : p.Large) {b : UInt8} (hq : p.next b = .lead q) :
    0x80 ≤ b.toNat ∧ q.Large := by
  obtain ⟨hlow, hv⟩ := h
  unfold Partial.next at hq
  split at hq
  case isFalse => cases hq
  case isTrue hb =>
      have hl : p.low.toNat ≤ b.toNat := hb.1
      cases hm : p.more with
      | zero =>
          rw [hm] at hq
          cases hq
      | succ more =>
          rw [hm] at hq
          rw [← Opening.lead.inj hq]
          have hvalue : 2 ≤ p.value * 64 + (b.toNat - 0x80) := by omega
          exact ⟨Nat.le_trans hlow hl, Nat.le_refl 0x80, Or.inl hvalue⟩

/-- What a byte of a value may do where a character begins. -/
def Opening.Fits (n : Nat) : Opening → Prop
  | .char c => n < 0x80 ∧ c = Char.ofNat n
  | .lead p => 0x80 ≤ n ∧ p.Large
  | .bad => 0x80 ≤ n

instance (n : Nat) (o : Opening) : Decidable (o.Fits n) := by
  unfold Opening.Fits
  split <;> infer_instance

theorem opening_fits (b : UInt8) : (opening b).Fits b.toNat := by
  have h : ∀ n < 256, (opening (UInt8.ofNat n)).Fits n := by decide +kernel
  have hb := h b.toNat b.toNat_lt
  rw [UInt8.ofNat_toNat] at hb
  exact hb

/-! ## Reading in blocks -/

/-- A text is read in blocks: each byte below 128 as its character, and each other one, with some of those
that follow, as a character that is no slash and no dot. -/
inductive Reads : Bytes → List Char → Prop where
  | nil : Reads [] []
  | ascii {b bs cs} (hb : b.toNat < 0x80) (h : Reads bs cs) : Reads (b :: bs) (Char.ofNat b.toNat :: cs)
  | wide {ws bs c cs} (hne : ws ≠ []) (hws : ∀ w ∈ ws, 0x80 ≤ w.toNat) (hc : c ≠ '/' ∧ c ≠ '.')
      (h : Reads bs cs) : Reads (ws ++ bs) (c :: cs)

theorem lossyFrom_none_cons (b : UInt8) (bs : Bytes) :
    lossyFrom none (b :: bs) = match opening b with
      | .char c => c :: lossyFrom none bs
      | .lead p => lossyFrom (some p) bs
      | .bad => replacement :: lossyFrom none bs := by
  rw [lossyFrom]
  cases opening b with
  | char c => rfl
  | lead p => rfl
  | bad => rfl

theorem lossyFrom_some_cons (p : Partial) (b : UInt8) (bs : Bytes) :
    lossyFrom (some p) (b :: bs) = match p.next b with
      | .char c => c :: lossyFrom none bs
      | .lead q => lossyFrom (some q) bs
      | .bad => replacement :: lossyFrom none (b :: bs) := by
  rw [lossyFrom_none_cons]
  simp only [lossyFrom, Option.elim_some, Option.isNone_some]
  cases p.next b with
  | char c => rfl
  | lead q => rfl
  | bad =>
      cases opening b with
      | char c => rfl
      | lead q => rfl
      | bad => rfl

theorem Reads.wide_one {b : UInt8} {bs : Bytes} {c : Char} {cs : List Char} (hb : 0x80 ≤ b.toNat)
    (hc : c ≠ '/' ∧ c ≠ '.') (h : Reads bs cs) : Reads (b :: bs) (c :: cs) :=
  wide (List.cons_ne_nil b []) (fun _ hw => List.mem_singleton.mp hw ▸ hb) hc h

/-- The bytes of a character begun are read together with what follows them. -/
theorem reads_lossyFrom (bs : Bytes) : Reads bs (lossyFrom none bs) ∧
    ∀ (p : Partial) (ws : Bytes), p.Large → ws ≠ [] → (∀ w ∈ ws, 0x80 ≤ w.toNat) →
      Reads (ws ++ bs) (lossyFrom (some p) bs) := by
  have sign : replacement ≠ '/' ∧ replacement ≠ '.' := by decide
  induction bs with
  | nil => exact ⟨.nil, fun p ws _ hne hws => .wide hne hws sign .nil⟩
  | cons b bs ih =>
      obtain ⟨ihn, ihs⟩ := ih
      have hnone : Reads (b :: bs) (lossyFrom none (b :: bs)) := by
        have hf := opening_fits b
        rw [lossyFrom_none_cons]
        cases ho : opening b with
        | char c =>
            rw [ho] at hf
            rw [hf.2]
            exact .ascii hf.1 ihn
        | lead p =>
            rw [ho] at hf
            exact ihs p [b] hf.2 (List.cons_ne_nil b []) fun _ hw => List.mem_singleton.mp hw ▸ hf.1
        | bad =>
            rw [ho] at hf
            exact .wide_one hf sign ihn
      refine ⟨hnone, ?_⟩
      intro p ws hp hne hws
      have hws' (hb : 0x80 ≤ b.toNat) : ∀ w ∈ ws ++ [b], 0x80 ≤ w.toNat := by
        intro w hw
        rcases List.mem_append.mp hw with hw | hw
        · exact hws w hw
        · exact List.mem_singleton.mp hw ▸ hb
      have hne' : ws ++ [b] ≠ [] := List.append_ne_nil_of_left_ne_nil hne [b]
      rw [lossyFrom_some_cons]
      cases hn : p.next b with
      | char c =>
          obtain ⟨hb, hc⟩ := hp.next_char hn
          rw [List.append_cons]
          exact .wide hne' (hws' hb) hc ihn
      | lead q =>
          obtain ⟨hb, hq⟩ := hp.next_lead hn
          rw [List.append_cons]
          exact ihs q (ws ++ [b]) hq hne' (hws' hb)
      | bad => exact .wide hne hws sign hnone

/-! ## Parts -/

theorem Reads.eq_nil_iff {bs : Bytes} {cs : List Char} (h : Reads bs cs) : bs = [] ↔ cs = [] := by
  cases h with
  | nil => exact ⟨fun _ => rfl, fun _ => rfl⟩
  | ascii hb h => exact ⟨nofun, nofun⟩
  | wide hne hws hc h =>
      exact ⟨fun he => absurd (List.append_eq_nil_iff.mp he).1 hne, nofun⟩

theorem toNat_ofNat_of_lt {n : Nat} (h : n < 0x80) : (Char.ofNat n).toNat = n := by
  have hv : n.isValidChar := Or.inl (Nat.lt_trans h (by decide))
  rw [Char.ofNat, dif_pos hv]
  rfl

theorem eq_of_ofNat_eq {b : UInt8} {c : UInt8} (hb : b.toNat < 0x80) (hc : c.toNat < 0x80)
    (h : Char.ofNat b.toNat = Char.ofNat c.toNat) : b = c := by
  have he := congrArg Char.toNat h
  rw [toNat_ofNat_of_lt hb, toNat_ofNat_of_lt hc] at he
  exact UInt8.toNat_inj.mp he

theorem Reads.eq_dot_iff {bs : Bytes} {cs : List Char} (h : Reads bs cs) :
    bs = [Path.dot] ↔ cs = ['.'] := by
  cases h with
  | nil => exact ⟨nofun, nofun⟩
  | ascii hb h =>
      rw [List.cons_eq_cons, List.cons_eq_cons, h.eq_nil_iff]
      refine and_congr_left fun _ => ⟨?_, fun he => eq_of_ofNat_eq hb (by decide) he⟩
      rintro rfl
      rfl
  | @wide ws bs c cs hne hws hc h =>
      constructor
      · intro he
        obtain ⟨w, ws, rfl⟩ := List.exists_cons_of_ne_nil hne
        have hw := hws w List.mem_cons_self
        rw [(List.cons.inj he).1] at hw
        exact absurd hw (by decide)
      · intro he
        exact absurd (List.cons.inj he).1 hc.2

end ClassScope.Utf8
