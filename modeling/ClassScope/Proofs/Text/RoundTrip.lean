import ClassScope.Text.Utf8

/-!
# Reading back what was written

The bytes of a character bring a reader from its beginning to its end, and so both readings of a written
text give that text.
-/

namespace ClassScope.Utf8

/-! ## The bytes of one character -/

/-- The bytes that finish a character from where its reader stands. -/
inductive Completes : Option Partial → Bytes → Char → Prop where
  | opened {b c} (h : opening b = .char c) : Completes none [b] c
  | led {b p bs c} (h : opening b = .lead p) (hbs : Completes (some p) bs c) : Completes none (b :: bs) c
  | ended {p b c} (h : p.next b = .char c) : Completes (some p) [b] c
  | went {p b q bs c} (h : p.next b = .lead q) (hbs : Completes (some q) bs c) :
      Completes (some p) (b :: bs) c

theorem opening_one {n : Nat} (h : n < 0x80) : opening n.toUInt8 = .char (Char.ofNat n) := by
  have all : ∀ n < 0x80, opening (UInt8.ofNat n) = .char (Char.ofNat n) := by decide +kernel
  exact all n h

theorem opening_two {k : Nat} (hlow : 2 ≤ k) (hk : k < 32) :
    opening (0xC0 + k).toUInt8 = .lead ⟨0, 0x80, 0xBF, k, 1⟩ := by
  have all : ∀ k < 32, 2 ≤ k → opening (UInt8.ofNat (0xC0 + k)) = .lead ⟨0, 0x80, 0xBF, k, 1⟩ := by
    decide +kernel
  exact all k hk hlow

theorem opening_three {k : Nat} (hk : k < 16) :
    opening (0xE0 + k).toUInt8 =
      .lead ⟨1, if k = 0 then 0xA0 else 0x80, if k = 13 then 0x9F else 0xBF, k, 1⟩ := by
  have all : ∀ k < 16, opening (UInt8.ofNat (0xE0 + k)) =
      .lead ⟨1, if k = 0 then 0xA0 else 0x80, if k = 13 then 0x9F else 0xBF, k, 1⟩ := by
    decide +kernel
  exact all k hk

theorem opening_four {k : Nat} (hk : k < 5) :
    opening (0xF0 + k).toUInt8 =
      .lead ⟨2, if k = 0 then 0x90 else 0x80, if k = 4 then 0x8F else 0xBF, k, 1⟩ := by
  have all : ∀ k < 5, opening (UInt8.ofNat (0xF0 + k)) =
      .lead ⟨2, if k = 0 then 0x90 else 0x80, if k = 4 then 0x8F else 0xBF, k, 1⟩ := by
    decide +kernel
  exact all k hk

/-! ### Bytes that continue a character -/

theorem toNat_tail {r : Nat} (hr : r < 64) : (0x80 + r).toUInt8.toNat = 0x80 + r := by
  rw [Nat.toUInt8_eq, UInt8.toNat_ofNat']
  omega

theorem tail_within {low high : UInt8} {r : Nat} (hr : r < 64) (hlow : low.toNat ≤ 0x80 + r)
    (hhigh : 0x80 + r ≤ high.toNat) : low ≤ (0x80 + r).toUInt8 ∧ (0x80 + r).toUInt8 ≤ high := by
  rw [UInt8.le_iff_toNat_le, UInt8.le_iff_toNat_le, toNat_tail hr]
  exact ⟨hlow, hhigh⟩

theorem Partial.next_last {low high : UInt8} {value seen r : Nat} (hr : r < 64)
    (hlow : low.toNat ≤ 0x80 + r) (hhigh : 0x80 + r ≤ high.toNat) :
    Partial.next ⟨0, low, high, value, seen⟩ (0x80 + r).toUInt8 = .char (Char.ofNat (value * 64 + r)) := by
  simp only [Partial.next, if_pos (tail_within hr hlow hhigh), toNat_tail hr, Nat.add_sub_cancel_left]

theorem Partial.next_inner {more : Nat} {low high : UInt8} {value seen r : Nat} (hr : r < 64)
    (hlow : low.toNat ≤ 0x80 + r) (hhigh : 0x80 + r ≤ high.toNat) :
    Partial.next ⟨more + 1, low, high, value, seen⟩ (0x80 + r).toUInt8 =
      .lead ⟨more, 0x80, 0xBF, value * 64 + r, seen + 1⟩ := by
  simp only [Partial.next, if_pos (tail_within hr hlow hhigh), toNat_tail hr, Nat.add_sub_cancel_left]

/-! ### By the number of bytes -/

variable {n : Nat}

theorem completes_last {v k r : Nat} (hr : r < 64) (hn : v * 64 + r = n) :
    Completes (some ⟨0, 0x80, 0xBF, v, k⟩) [(0x80 + r).toUInt8] (Char.ofNat n) := by
  subst hn
  refine .ended (Partial.next_last hr (Nat.le_add_right _ _) ?_)
  show _ ≤ 0xBF
  omega

theorem completes_two (hlow : 0x80 ≤ n) (hhigh : n < 0x800) :
    Completes none [(0xC0 + n / 64).toUInt8, (0x80 + n % 64).toUInt8] (Char.ofNat n) :=
  .led (opening_two (by omega) (by omega)) (completes_last (by omega) (by omega))

/-- Where the first byte narrows the bounds of the second, the value keeps to them: it is large enough to
need three bytes, and no surrogate. -/
theorem completes_three (hlow : 0x800 ≤ n) (hhigh : n < 0x10000) (hs : n < 0xD800 ∨ 0xDFFF < n) :
    Completes none [(0xE0 + n / 4096).toUInt8, (0x80 + n / 64 % 64).toUInt8, (0x80 + n % 64).toUInt8]
      (Char.ofNat n) := by
  have hlast := completes_last (n := n) (v := n / 4096 * 64 + n / 64 % 64) (k := 2) (r := n % 64)
    (by omega) (by omega)
  refine .led (opening_three (by omega)) (.went (Partial.next_inner (by omega) ?_ ?_) hlast)
  · split
    · show 0xA0 ≤ _
      omega
    · exact Nat.le_add_right _ _
  · split
    · show _ ≤ 0x9F
      omega
    · show _ ≤ 0xBF
      omega

theorem completes_four (hlow : 0x10000 ≤ n) (hhigh : n < 0x110000) :
    Completes none [(0xF0 + n / 262144).toUInt8, (0x80 + n / 4096 % 64).toUInt8,
      (0x80 + n / 64 % 64).toUInt8, (0x80 + n % 64).toUInt8] (Char.ofNat n) := by
  have hlast := completes_last (n := n) (v := (n / 262144 * 64 + n / 4096 % 64) * 64 + n / 64 % 64)
    (k := 3) (r := n % 64) (by omega) (by omega)
  have hthird : 0x80 + n / 64 % 64 ≤ 0xBF := by omega
  refine .led (opening_four (by omega)) (.went (Partial.next_inner (by omega) ?_ ?_)
    (.went (Partial.next_inner (by omega) (Nat.le_add_right _ _) hthird) hlast))
  · split
    · show 0x90 ≤ _
      omega
    · exact Nat.le_add_right _ _
  · split
    · show _ ≤ 0x8F
      omega
    · show _ ≤ 0xBF
      omega

theorem completes_encodeChar (c : Char) : Completes none (encodeChar c) c := by
  have hvalid : c.toNat < 0xD800 ∨ 0xDFFF < c.toNat ∧ c.toNat < 0x110000 := c.valid
  have hc : Char.ofNat c.toNat = c := Char.ofNat_toNat c
  unfold encodeChar
  generalize c.toNat = n at hvalid hc
  subst hc
  dsimp only
  split
  · rename_i h
    exact .opened (opening_one h)
  · split
    · exact completes_two (by omega) (by omega)
    · split
      · exact completes_three (by omega) (by omega) (by omega)
      · exact completes_four (by omega) (by omega)

/-! ## Texts -/

variable {state : Option Partial} {bs : Bytes} {c : Char}

theorem Completes.decodeFrom (h : Completes state bs c) (start : Nat) (rest : Bytes) :
    ∃ next, Utf8.decodeFrom state start (bs ++ rest) = (Utf8.decodeFrom none next rest).map (c :: ·) := by
  induction h with
  | opened hb =>
      rw [List.singleton_append, Utf8.decodeFrom]
      simp only [hb]
      exact ⟨_, rfl⟩
  | ended hb =>
      rw [List.singleton_append, Utf8.decodeFrom]
      simp only [hb]
      exact ⟨_, rfl⟩
  | led hb _ ih =>
      obtain ⟨next, ih⟩ := ih
      refine ⟨next, ?_⟩
      rw [List.cons_append, Utf8.decodeFrom]
      simp only [hb]
      exact ih
  | went hb _ ih =>
      obtain ⟨next, ih⟩ := ih
      refine ⟨next, ?_⟩
      rw [List.cons_append, Utf8.decodeFrom]
      simp only [hb]
      exact ih

theorem Completes.lossyFrom (h : Completes state bs c) (rest : Bytes) :
    Utf8.lossyFrom state (bs ++ rest) = c :: Utf8.lossyFrom none rest := by
  induction h with
  | opened hb => simp [Utf8.lossyFrom, hb]
  | ended hb => simp [Utf8.lossyFrom, hb]
  | led hb _ ih => simp [Utf8.lossyFrom, hb, ih]
  | went hb _ ih => simp [Utf8.lossyFrom, hb, ih]

theorem decodeFrom_encodeChars (cs : List Char) (start : Nat) :
    decodeFrom none start (encodeChars cs) = .ok cs := by
  induction cs generalizing start with
  | nil => rfl
  | cons c cs ih =>
      obtain ⟨next, h⟩ := (completes_encodeChar c).decodeFrom start (encodeChars cs)
      have hcons : encodeChars (c :: cs) = encodeChar c ++ encodeChars cs := rfl
      rw [hcons, h, ih next]
      rfl

theorem lossyFrom_encodeChars (cs : List Char) : lossyFrom none (encodeChars cs) = cs := by
  induction cs with
  | nil => rfl
  | cons c cs ih =>
      have hcons : encodeChars (c :: cs) = encodeChar c ++ encodeChars cs := rfl
      rw [hcons, (completes_encodeChar c).lossyFrom, ih]

@[simp] theorem decode_encode (s : String) : decode (encode s) = .ok s := by
  rw [decode, decodeChars, encode, decodeFrom_encodeChars]
  exact congrArg Except.ok String.ofList_toList

@[simp] theorem lossy_encode (s : String) : lossy (encode s) = s := by
  rw [lossy, encode, lossyFrom_encodeChars]
  exact String.ofList_toList

end ClassScope.Utf8
