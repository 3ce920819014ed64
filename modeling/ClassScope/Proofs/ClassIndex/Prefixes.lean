import ClassScope.Proofs.ClassIndex.RoundTrip

/-!
# Records cut off

What a decoder reads does not change when more bytes follow, and neither does an error that is not the end of the
bytes. So a strict prefix of a record is found to be cut off: the whole record would leave bytes over, or would not
be read.
-/

namespace ClassScope.ClassIndex

/-- What more bytes do not change: a reading that succeeds leaves them over, and one that fails before the end fails
the same way. -/
structure Extends {α : Type} (x : Decoder α) : Prop where
  ok : ∀ {bs a rest}, x bs = .ok (a, rest) → ∀ more, x (bs ++ more) = .ok (a, rest ++ more)
  error : ∀ {bs e}, x bs = .error e → e ≠ .cutOff → ∀ more, x (bs ++ more) = .error e

variable {α β : Type} {x : Decoder α} {f : α → Decoder β} {room : Nat}

theorem Extends.pure (a : α) : Extends (Pure.pure a) where
  ok h more := by
    cases h
    rfl
  error h := by cases h

theorem Extends.throw (e : DecodeError) : Extends (throw e : Decoder α) where
  ok h := by cases h
  error h _ more := by
    cases h
    rfl

theorem Extends.bind (hx : Extends x) (hf : ∀ a, Extends (f a)) : Extends (x >>= f) := by
  have run (bs : Bytes) : (x >>= f) bs = (x bs).bind fun y => f y.1 y.2 := rfl
  constructor
  · intro bs b rest h more
    rw [run] at h ⊢
    cases hr : x bs with
    | error e =>
        rw [hr] at h
        cases h
    | ok y =>
        rw [hr] at h
        rw [hx.ok hr more]
        exact (hf y.1).ok h more
  · intro bs e h he more
    rw [run] at h ⊢
    cases hr : x bs with
    | error e' =>
        rw [hr] at h
        cases h
        rw [hx.error hr he more]
        rfl
    | ok y =>
        rw [hr] at h
        rw [hx.ok hr more]
        exact (hf y.1).error h he more

theorem Extends.map (hx : Extends x) (g : α → β) : Extends (g <$> x) :=
  hx.bind fun a => .pure (g a)

end ClassScope.ClassIndex
