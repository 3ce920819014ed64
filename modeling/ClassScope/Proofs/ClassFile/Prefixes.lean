import ClassScope.Proofs.ClassFile.Reading

/-!
# Class files cut off

The answer for a class file is settled by the bytes that were read for it: more bytes change nothing, and with
any of them missing at the end the file ends too early.
-/

namespace ClassScope.ClassFile

variable {α : Type}

/-- An answer is settled by a beginning of the bytes, and every shorter beginning ends too early. -/
def Settled (x : Bytes → Except Error α) : Prop :=
  ∀ bs, x bs ≠ .error .unexpectedEnd → ∃ p, p <+: bs ∧ (∀ r, x (p ++ r) = x bs) ∧
    ∀ q, q <+: p → q ≠ p → x q = .error .unexpectedEnd

/-! ## Steps of a reading -/

/-- What looks at no more bytes is settled by none. -/
theorem Settled.const (y : Except Error α) : Settled fun _ => y := by
  intro bs _
  refine ⟨[], List.nil_prefix, fun _ => rfl, fun q hq hne => ?_⟩
  exact absurd (List.prefix_nil.mp hq) hne

theorem take_eq_error {n : Nat} {bs : Bytes} (h : bs.length < n) : take n bs = .error .unexpectedEnd := by
  cases ht : take n bs with
  | error e =>
      unfold take at ht
      split at ht
      · cases ht
      · exact ht.symm
  | ok r =>
      obtain ⟨rfl, hlength⟩ := eq_append_of_take ht
      rw [List.length_append] at h
      omega

/-- A beginning that stops within the first part is too short for it; one that stops after it cuts what is read
of the rest. -/
theorem Settled.take {n : Nat} {f : Bytes × Bytes → Except Error α}
    (h : ∀ front, Settled fun rest => f (front, rest)) : Settled fun bs => ClassFile.take n bs >>= f := by
  intro bs hbs
  dsimp only at hbs ⊢
  rcases Nat.lt_or_ge bs.length n with hshort | hlong
  · rw [take_eq_error hshort] at hbs
    exact absurd rfl hbs
  · obtain ⟨front, rest, rfl, rfl⟩ : ∃ front rest, bs = front ++ rest ∧ front.length = n :=
      ⟨bs.take n, bs.drop n, (List.take_append_drop n bs).symm, List.length_take_of_le hlong⟩
    have run (rest : Bytes) : ClassFile.take front.length (front ++ rest) >>= f = f (front, rest) := by
      rw [take_of_length rfl, ok_bind]
    rw [run] at hbs ⊢
    obtain ⟨p, hp, hmore, hless⟩ := h front rest hbs
    refine ⟨front ++ p, (List.prefix_append_right_inj front).mpr hp, fun r => ?_, fun q hq hne => ?_⟩
    · rw [List.append_assoc, run]
      exact hmore r
    · rcases Nat.lt_or_ge q.length front.length with hshort | hlong
      · rw [take_eq_error hshort]
        rfl
      · obtain ⟨q, rfl⟩ := List.prefix_of_prefix_length_le (List.prefix_append front p) hq hlong
        rw [run]
        refine hless q ((List.prefix_append_right_inj front).mp hq) fun he => hne ?_
        rw [he]

theorem Settled.number {f : Nat × Bytes → Except Error α} (h : ∀ n, Settled fun rest => f (n, rest)) :
    Settled fun bs => ClassFile.number bs >>= f := by
  have run (bs : Bytes) : ClassFile.number bs >>= f =
      ClassFile.take 2 bs >>= fun r => f (Bytes.bigEndian r.1, r.2) := by
    rw [ClassFile.number]
    cases ClassFile.take 2 bs <;> rfl
  simp only [run]
  exact .take fun front => h (Bytes.bigEndian front)

theorem Settled.constant {f : Slot × Bool × Bytes → Except Error α}
    (h : ∀ slot wide, Settled fun rest => f (slot, wide, rest)) :
    Settled fun bs => ClassFile.constant bs >>= f := by
  simp only [ClassFile.constant, bind_assoc]
  refine .take fun tag => ?_
  by_cases htext : Bytes.littleEndian tag = 1
  · simp only [if_pos htext, bind_assoc]
    refine .number fun length => .take fun payload => ?_
    cases hpayload : Utf8.decodeChars payload with
    | ok cs =>
        simp only [hpayload]
        exact h (.text cs) false
    | error cause =>
        simp only [hpayload]
        exact .const _
  · by_cases hclass : Bytes.littleEndian tag = 7
    · simp only [if_neg htext, if_pos hclass, bind_assoc]
      exact .number fun slot => h (.classAt slot) false
    · simp only [if_neg htext, if_neg hclass]
      cases plainSize? (Bytes.littleEndian tag) with
      | some size =>
          simp only [bind_assoc]
          exact .take fun content => h .other (isWide (Bytes.littleEndian tag))
      | none => exact .const _

theorem Settled.constants {n : Nat} {f : List Slot × Bytes → Except Error α}
    (h : ∀ slots, Settled fun rest => f (slots, rest)) : Settled fun bs => ClassFile.constants n bs >>= f := by
  induction n using Nat.strongRecOn generalizing f with
  | _ n ih =>
      rcases Nat.eq_zero_or_pos n with rfl | hn
      · simp only [ClassFile.constants, ok_bind]
        exact h []
      · simp only [constants_pos hn, bind_assoc]
        refine .constant fun slot wide => ?_
        have hless : n - (if wide then 2 else 1) < n := by split <;> omega
        simp only [pure_bind]
        refine ih _ hless fun slots => ?_
        exact h (if wide then slot :: .other :: slots else slot :: slots)

/-! ## Names -/

theorem settled_readName : Settled readName := by
  unfold readName
  refine .take fun front => ?_
  by_cases hfront : front ≠ magic
  · simp only [if_pos hfront]
    exact .const _
  · simp only [if_neg hfront]
    refine .take fun minor => .take fun major => .number fun count => ?_
    dsimp only
    refine .constants fun slots => ?_
    dsimp only
    refine .take fun access => ?_
    refine .number fun thisClass => ?_
    exact .const (className (.other :: slots) thisClass >>= fun cs => pure (String.ofList (ClassName.dotted cs)))

/-- Unless the bytes end too early, their answer is that of one of their beginnings, whatever follows it, and
everything shorter ends too early. -/
theorem readName_settled_by_prefix {bs : Bytes} (h : readName bs ≠ .error .unexpectedEnd) :
    ∃ p, p <+: bs ∧ (∀ r, readName (p ++ r) = readName bs) ∧
      ∀ q, q <+: p → q ≠ p → readName q = .error .unexpectedEnd :=
  settled_readName bs h

/-- A text that is not UTF-8 is refused as soon as its last byte is there. -/
theorem settled_of_malformed_text :
    let bs := magic ++ [0, 0, 0, 52, 0, 3, 1, 0, 2, 0xC0, 0x80, 7, 0, 1]
    readName bs = .error (.malformedText ⟨0, some 1⟩) ∧ ∃ p, p <+: bs ∧ (∀ r, readName (p ++ r) = readName bs) ∧
      ∀ q, q <+: p → q ≠ p → readName q = .error .unexpectedEnd := by
  have h : readName (magic ++ [0, 0, 0, 52, 0, 3, 1, 0, 2, 0xC0, 0x80, 7, 0, 1]) =
      .error (.malformedText ⟨0, some 1⟩) :=
    rfl
  exact ⟨h, readName_settled_by_prefix (by rw [h]; nofun)⟩

end ClassScope.ClassFile
