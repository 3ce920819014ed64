import ClassScope.Proofs.Text.Strict

/-!
# Texts as class files hold them

Class files write a text by its units of sixteen bits. Such a text is UTF-8 exactly when it has no unit 0 and
no half of a character past U+FFFF: everything else is written as UTF-8 writes it.
-/

namespace ClassScope.ModifiedUtf8

/-- The unit 0 takes two bytes, and half of a character takes three like any other unit of its size. -/
def encodeUnit (u : UInt16) : Bytes :=
  let n := u.toNat
  if n = 0 then [0xC0, 0x80]
  else if n < 0x80 then [n.toUInt8]
  else if n < 0x800 then [(0xC0 + n / 64).toUInt8, (0x80 + n % 64).toUInt8]
  else [(0xE0 + n / 4096).toUInt8, (0x80 + n / 64 % 64).toUInt8, (0x80 + n % 64).toUInt8]

def encode (units : List UInt16) : Bytes :=
  units.flatMap encodeUnit

/-- The unit is a character of its own, and not the one that ends a text elsewhere. -/
def IsPlain (u : UInt16) : Prop :=
  u.toNat ≠ 0 ∧ (u.toNat < 0xD800 ∨ 0xDFFF < u.toNat)

instance (u : UInt16) : Decidable (IsPlain u) :=
  inferInstanceAs (Decidable (_ ∧ _))

variable {u : UInt16} {units : List UInt16}

theorem encodeUnit_of_isPlain (h : IsPlain u) : encodeUnit u = Utf8.encodeChar (Char.ofNat u.toNat) := by
  have hlt : u.toNat < 0x10000 := u.toNat_lt
  obtain ⟨hne, hsize⟩ := h
  have hchar : (Char.ofNat u.toNat).toNat = u.toNat := Utf8.toNat_ofNat (by omega)
  rw [encodeUnit, Utf8.encodeChar, hchar, if_neg hne, if_pos hlt]

theorem decodeFrom_zero (start : Nat) (rest : Bytes) :
    Utf8.decodeFrom none start (0xC0 :: rest) = .error ⟨start, some 1⟩ := by
  have hbad : Utf8.opening 0xC0 = .bad := by decide
  rw [Utf8.decodeFrom_none_cons, hbad]

/-- The second byte of half a character is out of the bounds that the first one sets. -/
theorem decodeFrom_half {n : Nat} (hlow : 0xD800 ≤ n) (hhigh : n ≤ 0xDFFF) (start : Nat) (rest : Bytes) :
    Utf8.decodeFrom none start ((0xE0 + n / 4096).toUInt8 :: (0x80 + n / 64 % 64).toUInt8 :: rest) =
      .error ⟨start, some 1⟩ := by
  have hfirst : n / 4096 = 13 := by omega
  have hlead := Utf8.opening_three (k := 13) (by decide)
  have hbad : Utf8.Partial.next ⟨1, 0x80, 0x9F, 13, 1⟩ (0x80 + n / 64 % 64).toUInt8 = .bad := by
    have hnot : ¬ ((0x80 : UInt8) ≤ (0x80 + n / 64 % 64).toUInt8 ∧ (0x80 + n / 64 % 64).toUInt8 ≤ 0x9F) := by
      rw [UInt8.le_iff_toNat_le, UInt8.le_iff_toNat_le, Utf8.toNat_tail (by omega)]
      intro h
      have h9F : 0x80 + n / 64 % 64 ≤ 0x9F := h.2
      omega
    rw [Utf8.Partial.next, if_neg hnot]
  rw [hfirst, Utf8.decodeFrom_none_cons, hlead]
  dsimp only
  rw [Utf8.decodeFrom_some_cons]
  simp only [Nat.reduceEqDiff, ↓reduceIte, hbad]
  rfl

theorem isPlain_of_decodeFrom {start : Nat} {rest : Bytes} {cs : List Char}
    (h : Utf8.decodeFrom none start (encodeUnit u ++ rest) = .ok cs) : IsPlain u := by
  have hzero : u.toNat ≠ 0 := by
    intro hzero
    rw [encodeUnit, if_pos hzero, List.cons_append, decodeFrom_zero] at h
    cases h
  refine ⟨hzero, ?_⟩
  rcases Nat.lt_or_ge u.toNat 0xD800 with hbelow | hlow
  · exact .inl hbelow
  · rcases Nat.lt_or_ge 0xDFFF u.toNat with habove | hhigh
    · exact .inr habove
    · rw [encodeUnit, if_neg hzero, if_neg (by omega), if_neg (by omega), List.cons_append, List.cons_append,
        decodeFrom_half hlow hhigh] at h
      cases h

theorem encode_of_isPlain (h : ∀ u ∈ units, IsPlain u) :
    encode units = Utf8.encodeChars (units.map fun u => Char.ofNat u.toNat) := by
  induction units with
  | nil => rfl
  | cons u units ih =>
      obtain ⟨hu, hunits⟩ := List.forall_mem_cons.mp h
      rw [encode, List.flatMap_cons, encodeUnit_of_isPlain hu, ← encode, ih hunits]
      rfl

/-- The texts that are written as UTF-8 writes them. -/
theorem encode_eq_encodeChars_iff :
    (∃ cs, encode units = Utf8.encodeChars cs) ↔ ∀ u ∈ units, IsPlain u := by
  constructor
  · rintro ⟨cs, hcs⟩
    have h := Utf8.decodeFrom_encodeChars cs 0
    rw [← hcs] at h
    clear hcs
    generalize 0 = start at h
    induction units generalizing start cs with
    | nil => exact nofun
    | cons u units ih =>
        have hcons : encode (u :: units) = encodeUnit u ++ encode units := rfl
        rw [hcons] at h
        have hu := isPlain_of_decodeFrom h
        rw [encodeUnit_of_isPlain hu] at h
        obtain ⟨next, hnext⟩ := (Utf8.completes_encodeChar _).decodeFrom start (encode units)
        rw [hnext] at h
        obtain ⟨tail, htail, -⟩ := Utf8.eq_cons_of_map_eq_ok h
        exact List.forall_mem_cons.mpr ⟨hu, ih tail next htail⟩
  · intro h
    exact ⟨_, encode_of_isPlain h⟩

end ClassScope.ModifiedUtf8
