/-!
Byte sequences: cutting off a front part, and whole numbers of a fixed width in either byte order.
-/
namespace ClassScope

abbrev Bytes := List UInt8

namespace Bytes

/-- The first `n` bytes and what follows them; none when there are fewer. -/
def take? : Nat → Bytes → Option (Bytes × Bytes)
  | 0, bs => some ([], bs)
  | _ + 1, [] => none
  | n + 1, b :: bs =>
      match take? n bs with
      | some (front, rest) => some (b :: front, rest)
      | none => none

theorem take?_append (front rest : Bytes) :
    take? front.length (front ++ rest) = some (front, rest) := by
  induction front with
  | nil => rfl
  | cons b bs ih => simp [take?, ih]

theorem eq_append_of_take? {n : Nat} {bs front rest : Bytes}
    (h : take? n bs = some (front, rest)) : bs = front ++ rest ∧ front.length = n := by
  induction n generalizing bs front with
  | zero => simp_all [take?]
  | succ n ih =>
    cases bs with
    | nil => simp [take?] at h
    | cons b bs =>
      simp only [take?] at h
      split at h
      · rename_i f r hr
        obtain ⟨rfl, rfl⟩ := Prod.mk.inj (Option.some.inj h)
        obtain ⟨rfl, hl⟩ := ih hr
        exact ⟨rfl, by simp [hl]⟩
      · simp at h

/-! ## Whole numbers -/

/-- The number whose lowest byte comes first. -/
def littleEndian : Bytes → Nat
  | [] => 0
  | b :: bs => b.toNat + 256 * littleEndian bs

/-- The number whose highest byte comes first. -/
def bigEndian (bs : Bytes) : Nat :=
  littleEndian bs.reverse

/-- How many numbers there are of `width` bytes. -/
def capacity : Nat → Nat
  | 0 => 1
  | width + 1 => 256 * capacity width

/-- The lowest `width` bytes of a number, lowest first. -/
def ofNat : Nat → Nat → Bytes
  | 0, _ => []
  | width + 1, n => n.toUInt8 :: ofNat width (n / 256)

/-- A number of `width` bytes, lowest first, and what follows it. -/
def number? (width : Nat) (bs : Bytes) : Option (Nat × Bytes) :=
  (take? width bs).map fun (front, rest) => (littleEndian front, rest)

@[simp] theorem length_ofNat (width n : Nat) : (ofNat width n).length = width := by
  induction width generalizing n with
  | zero => rfl
  | succ width ih => simp [ofNat, ih]

theorem littleEndian_ofNat {width n : Nat} (h : n < capacity width) :
    littleEndian (ofNat width n) = n := by
  induction width generalizing n with
  | zero => simp_all [ofNat, littleEndian, capacity]
  | succ width ih =>
    have small : n / 256 < capacity width := by
      rw [capacity] at h
      exact Nat.div_lt_of_lt_mul h
    have low : n.toUInt8.toNat = n % 256 := by simp
    rw [ofNat, littleEndian, ih small, low]
    omega

theorem littleEndian_lt (bs : Bytes) : littleEndian bs < capacity bs.length := by
  induction bs with
  | nil => exact Nat.one_pos
  | cons b bs ih =>
      have hb : b.toNat < 256 := b.toNat_lt
      rw [littleEndian, List.length_cons, capacity]
      omega

theorem ofNat_littleEndian (bs : Bytes) : ofNat bs.length (littleEndian bs) = bs := by
  induction bs with
  | nil => rfl
  | cons b bs ih =>
      have hb : b.toNat < 256 := b.toNat_lt
      have hlow : (b.toNat + 256 * littleEndian bs).toUInt8 = b := by
        apply UInt8.toNat_inj.mp
        rw [Nat.toUInt8_eq, UInt8.toNat_ofNat']
        omega
      have hhigh : (b.toNat + 256 * littleEndian bs) / 256 = littleEndian bs := by omega
      rw [littleEndian, List.length_cons, ofNat, hlow, hhigh, ih]

/-! ## Hexadecimal digits -/

private def digit (n : Nat) : Char :=
  "0123456789abcdef".toList.getD n '0'

/-- Two lower-case hexadecimal digits for each byte. -/
def hex (bs : Bytes) : String :=
  String.ofList (bs.flatMap fun b => [digit (b.toNat / 16), digit (b.toNat % 16)])

end Bytes

end ClassScope
