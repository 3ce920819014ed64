import ClassScope.Proofs.Text.RoundTrip

/-!
# Strict reading

Strict reading accepts the written texts and nothing else: the bytes that bring it through a character are
those that the character is written as.
-/

namespace ClassScope.Utf8

/-! ## The written form of a value -/

theorem toNat_ofNat {n : Nat} (h : n < 0xD800 ∨ 0xDFFF < n ∧ n < 0x110000) : (Char.ofNat n).toNat = n := by
  have hv : n.isValidChar := h
  rw [Char.ofNat, dif_pos hv]
  rfl

theorem encodeChar_one {n : Nat} (h : n < 0x80) : encodeChar (Char.ofNat n) = [n.toUInt8] := by
  rw [encodeChar, toNat_ofNat (by omega)]
  exact if_pos h

theorem encodeChar_two {k r : Nat} (hlow : 2 ≤ k) (hk : k < 32) (hr : r < 64) :
    encodeChar (Char.ofNat (k * 64 + r)) = [(0xC0 + k).toUInt8, (0x80 + r).toUInt8] := by
  have hdiv : (k * 64 + r) / 64 = k := by omega
  have hmod : (k * 64 + r) % 64 = r := by omega
  rw [encodeChar, toNat_ofNat (by omega)]
  rw [if_neg (by omega), if_pos (by omega), hdiv, hmod]

theorem encodeChar_three {k r s : Nat} (hk : k < 16) (hr : r < 64) (hs : s < 64) (hlow : k = 0 → 0x20 ≤ r)
    (hhigh : k = 13 → r < 0x20) : encodeChar (Char.ofNat ((k * 64 + r) * 64 + s)) =
      [(0xE0 + k).toUInt8, (0x80 + r).toUInt8, (0x80 + s).toUInt8] := by
  have hfirst : ((k * 64 + r) * 64 + s) / 4096 = k := by omega
  have hsecond : ((k * 64 + r) * 64 + s) / 64 % 64 = r := by omega
  have hthird : ((k * 64 + r) * 64 + s) % 64 = s := by omega
  rw [encodeChar, toNat_ofNat (by omega)]
  rw [if_neg (by omega), if_neg (by omega), if_pos (by omega), hfirst, hsecond, hthird]

theorem encodeChar_four {k r s t : Nat} (hk : k < 5) (hr : r < 64) (hs : s < 64) (ht : t < 64)
    (hlow : k = 0 → 0x10 ≤ r) (hhigh : k = 4 → r < 0x10) :
    encodeChar (Char.ofNat (((k * 64 + r) * 64 + s) * 64 + t)) =
      [(0xF0 + k).toUInt8, (0x80 + r).toUInt8, (0x80 + s).toUInt8, (0x80 + t).toUInt8] := by
  have hfirst : (((k * 64 + r) * 64 + s) * 64 + t) / 262144 = k := by omega
  have hsecond : (((k * 64 + r) * 64 + s) * 64 + t) / 4096 % 64 = r := by omega
  have hthird : (((k * 64 + r) * 64 + s) * 64 + t) / 64 % 64 = s := by omega
  have hfourth : (((k * 64 + r) * 64 + s) * 64 + t) % 64 = t := by omega
  rw [encodeChar, toNat_ofNat (by omega)]
  rw [if_neg (by omega), if_neg (by omega), if_neg (by omega), hfirst, hsecond, hthird, hfourth]

/-! ## Bytes that a reader takes -/

/-- How many bytes follow the first one, with the bits that it holds and the bounds that it sets. -/
def Opening.Begins (n : Nat) : Opening → Prop
  | .char c => n < 0x80 ∧ c = Char.ofNat n
  | .lead p =>
      0xC2 ≤ n ∧ n < 0xE0 ∧ p = ⟨0, 0x80, 0xBF, n - 0xC0, 1⟩ ∨
      0xE0 ≤ n ∧ n < 0xF0 ∧
        p = ⟨1, if n - 0xE0 = 0 then 0xA0 else 0x80, if n - 0xE0 = 13 then 0x9F else 0xBF, n - 0xE0, 1⟩ ∨
      0xF0 ≤ n ∧ n < 0xF5 ∧
        p = ⟨2, if n - 0xF0 = 0 then 0x90 else 0x80, if n - 0xF0 = 4 then 0x8F else 0xBF, n - 0xF0, 1⟩
  | .bad => True

instance (n : Nat) : (o : Opening) → Decidable (o.Begins n)
  | .char _ => inferInstanceAs (Decidable (_ ∧ _))
  | .lead _ => inferInstanceAs (Decidable (_ ∨ _))
  | .bad => inferInstanceAs (Decidable True)

theorem opening_begins (b : UInt8) : (opening b).Begins b.toNat := by
  have h : ∀ n < 256, (opening (UInt8.ofNat n)).Begins n := by decide +kernel
  have hb := h b.toNat b.toNat_lt
  rw [UInt8.ofNat_toNat] at hb
  exact hb

/-- A byte between the bounds, as the bits that it adds. -/
theorem exists_tail {low high b : UInt8} (hlow : 0x80 ≤ low.toNat) (hhigh : high.toNat ≤ 0xBF)
    (h : low ≤ b ∧ b ≤ high) :
    ∃ r < 64, low.toNat ≤ 0x80 + r ∧ 0x80 + r ≤ high.toNat ∧ b.toNat - 0x80 = r ∧ b = (0x80 + r).toUInt8 := by
  have hl : low.toNat ≤ b.toNat := h.1
  have hh : b.toNat ≤ high.toNat := h.2
  refine ⟨b.toNat - 0x80, by omega, by omega, by omega, rfl, ?_⟩
  have hb : 0x80 + (b.toNat - 0x80) = b.toNat := by omega
  rw [hb, Nat.toUInt8_eq, UInt8.ofNat_toNat]

theorem least_tail : 0x80 ≤ (0x80 : UInt8).toNat := Nat.le_refl _

theorem most_tail : (0xBF : UInt8).toNat ≤ 0xBF := Nat.le_refl _

variable {low high : UInt8} {value seen : Nat} {bs : Bytes} {c : Char}

theorem Completes.last (hlow : 0x80 ≤ low.toNat) (hhigh : high.toNat ≤ 0xBF)
    (h : Completes (some ⟨0, low, high, value, seen⟩) bs c) :
    ∃ r < 64, low.toNat ≤ 0x80 + r ∧ 0x80 + r ≤ high.toNat ∧ bs = [(0x80 + r).toUInt8] ∧
      c = Char.ofNat (value * 64 + r) := by
  cases h with
  | ended hb =>
      unfold Partial.next at hb
      split at hb
      case isFalse => cases hb
      case isTrue hbounds =>
          obtain ⟨r, hr, hl, hh, hbits, rfl⟩ := exists_tail hlow hhigh hbounds
          rw [hbits] at hb
          exact ⟨r, hr, hl, hh, rfl, (Opening.char.inj hb).symm⟩
  | went hb _ =>
      unfold Partial.next at hb
      split at hb <;> cases hb

theorem Completes.inner {more : Nat} (hlow : 0x80 ≤ low.toNat) (hhigh : high.toNat ≤ 0xBF)
    (h : Completes (some ⟨more + 1, low, high, value, seen⟩) bs c) :
    ∃ r < 64, low.toNat ≤ 0x80 + r ∧ 0x80 + r ≤ high.toNat ∧ ∃ rest, bs = (0x80 + r).toUInt8 :: rest ∧
      Completes (some ⟨more, 0x80, 0xBF, value * 64 + r, seen + 1⟩) rest c := by
  cases h with
  | ended hb =>
      unfold Partial.next at hb
      split at hb <;> cases hb
  | went hb hrest =>
      unfold Partial.next at hb
      split at hb
      case isFalse => cases hb
      case isTrue hbounds =>
          obtain ⟨r, hr, hl, hh, hbits, rfl⟩ := exists_tail hlow hhigh hbounds
          rw [hbits] at hb
          cases hb
          exact ⟨r, hr, hl, hh, _, rfl, hrest⟩

/-! ### By the number of bytes -/

theorem Completes.two {k : Nat} (hlow : 2 ≤ k) (hk : k < 32)
    (h : Completes (some ⟨0, 0x80, 0xBF, k, 1⟩) bs c) : (0xC0 + k).toUInt8 :: bs = encodeChar c := by
  obtain ⟨r, hr, -, -, rfl, rfl⟩ := h.last least_tail most_tail
  rw [encodeChar_two hlow hk hr]

theorem Completes.three {k : Nat} (hk : k < 16) (h : Completes
    (some ⟨1, if k = 0 then 0xA0 else 0x80, if k = 13 then 0x9F else 0xBF, k, 1⟩) bs c) :
    (0xE0 + k).toUInt8 :: bs = encodeChar c := by
  obtain ⟨r, hr, hl, hh, rest, rfl, hrest⟩ := h.inner (by split <;> decide) (by split <;> decide)
  obtain ⟨s, hs, -, -, rfl, rfl⟩ := hrest.last least_tail most_tail
  refine (encodeChar_three hk hr hs (fun h0 => ?_) fun h13 => ?_).symm
  · rw [if_pos h0] at hl
    exact Nat.le_of_add_le_add_left hl
  · rw [if_pos h13] at hh
    exact Nat.lt_of_add_lt_add_left (Nat.lt_succ_of_le hh)

theorem Completes.four {k : Nat} (hk : k < 5) (h : Completes
    (some ⟨2, if k = 0 then 0x90 else 0x80, if k = 4 then 0x8F else 0xBF, k, 1⟩) bs c) :
    (0xF0 + k).toUInt8 :: bs = encodeChar c := by
  obtain ⟨r, hr, hl, hh, rest, rfl, hrest⟩ := h.inner (by split <;> decide) (by split <;> decide)
  obtain ⟨s, hs, -, -, last, rfl, hlast⟩ := hrest.inner least_tail most_tail
  obtain ⟨t, ht, -, -, rfl, rfl⟩ := hlast.last least_tail most_tail
  refine (encodeChar_four hk hr hs ht (fun h0 => ?_) fun h4 => ?_).symm
  · rw [if_pos h0] at hl
    exact Nat.le_of_add_le_add_left hl
  · rw [if_pos h4] at hh
    exact Nat.lt_of_add_lt_add_left (Nat.lt_succ_of_le hh)

/-! ## Texts -/

/-- The bounds of the second byte are what keeps a reader to the written forms. -/
theorem Completes.eq_encodeChar (h : Completes none bs c) : bs = encodeChar c := by
  cases h with
  | @opened b _ hb =>
      have hbegins := opening_begins b
      rw [hb] at hbegins
      obtain ⟨hn, rfl⟩ := hbegins
      rw [encodeChar_one hn, Nat.toUInt8_eq, UInt8.ofNat_toNat]
  | @led b p rest _ hb hrest =>
      have hbegins := opening_begins b
      rw [hb] at hbegins
      have hfirst {base : Nat} (hbase : base ≤ b.toNat) : (base + (b.toNat - base)).toUInt8 = b := by
        rw [Nat.add_sub_cancel' hbase, Nat.toUInt8_eq, UInt8.ofNat_toNat]
      obtain ⟨hn, hn', rfl⟩ | ⟨hn, hn', rfl⟩ | ⟨hn, hn', rfl⟩ := hbegins
      · rw [← hrest.two (by omega) (by omega), hfirst (by omega)]
      · rw [← hrest.three (by omega), hfirst hn]
      · rw [← hrest.four (by omega), hfirst hn]

theorem decodeFrom_none_cons (start : Nat) (b : UInt8) (bs : Bytes) :
    decodeFrom none start (b :: bs) = match opening b with
      | .char c => (decodeFrom none (start + 1) bs).map (c :: ·)
      | .lead p => decodeFrom (some p) start bs
      | .bad => .error ⟨start, some 1⟩ := by
  rw [decodeFrom]
  cases opening b <;> rfl

theorem decodeFrom_some_cons (p : Partial) (start : Nat) (b : UInt8) (bs : Bytes) :
    decodeFrom (some p) start (b :: bs) = match p.next b with
      | .char c => (decodeFrom none (start + p.seen + 1) bs).map (c :: ·)
      | .lead q => decodeFrom (some q) start bs
      | .bad => .error ⟨start, some (max p.seen 1)⟩ := by
  rw [decodeFrom]
  cases p.next b <;> rfl

theorem eq_cons_of_map_eq_ok {x : Except Error (List Char)} {cs : List Char} (h : x.map (c :: ·) = .ok cs) :
    ∃ tail, x = .ok tail ∧ cs = c :: tail := by
  cases x with
  | error e => cases h
  | ok tail => exact ⟨tail, rfl, (Except.ok.inj h).symm⟩

/-- What is read from inside a character is the rest of that character and then a written text. -/
theorem encoded_of_decodeFrom (bs : Bytes) :
    (∀ start cs, decodeFrom none start bs = .ok cs → bs = encodeChars cs) ∧
    ∀ p start cs, decodeFrom (some p) start bs = .ok cs →
      ∃ front c tail, bs = front ++ encodeChars tail ∧ Completes (some p) front c ∧ cs = c :: tail := by
  induction bs with
  | nil =>
      constructor
      · intro start cs h
        cases h
        rfl
      · intro p start cs h
        cases h
  | cons b bs ih =>
      obtain ⟨ihn, ihs⟩ := ih
      constructor
      · intro start cs h
        rw [decodeFrom_none_cons] at h
        cases ho : opening b with
        | char c =>
            rw [ho] at h
            obtain ⟨tail, htail, rfl⟩ := eq_cons_of_map_eq_ok h
            have hb := (Completes.opened ho).eq_encodeChar
            have hcons : encodeChars (c :: tail) = encodeChar c ++ encodeChars tail := rfl
            rw [hcons, ← hb, ← ihn _ _ htail]
            rfl
        | lead p =>
            rw [ho] at h
            obtain ⟨front, c, tail, rfl, hfront, rfl⟩ := ihs _ _ _ h
            have hb := (Completes.led ho hfront).eq_encodeChar
            have hcons : encodeChars (c :: tail) = encodeChar c ++ encodeChars tail := rfl
            rw [hcons, ← hb]
            rfl
        | bad =>
            rw [ho] at h
            cases h
      · intro p start cs h
        rw [decodeFrom_some_cons] at h
        cases hn : p.next b with
        | char c =>
            rw [hn] at h
            obtain ⟨tail, htail, rfl⟩ := eq_cons_of_map_eq_ok h
            refine ⟨[b], c, tail, ?_, .ended hn, rfl⟩
            rw [← ihn _ _ htail]
            rfl
        | lead q =>
            rw [hn] at h
            obtain ⟨front, c, tail, rfl, hfront, rfl⟩ := ihs _ _ _ h
            exact ⟨b :: front, c, tail, rfl, .went hn hfront, rfl⟩
        | bad =>
            rw [hn] at h
            cases h

/-- The texts that strict reading accepts are the written ones. -/
theorem decodeChars_eq_ok_iff {cs : List Char} : decodeChars bs = .ok cs ↔ bs = encodeChars cs := by
  constructor
  · exact (encoded_of_decodeFrom bs).1 0 cs
  · rintro rfl
    exact decodeFrom_encodeChars cs 0

theorem eq_encode_of_decode {s : String} (h : decode bs = .ok s) : bs = encode s := by
  rw [decode] at h
  cases hc : decodeChars bs with
  | error e =>
      rw [hc] at h
      cases h
  | ok cs =>
      rw [hc] at h
      cases h
      rw [encode, String.toList_ofList]
      exact decodeChars_eq_ok_iff.mp hc

end ClassScope.Utf8
