import ClassScope.Proofs.ClassIndex.Layout

/-!
# Lengths that are too great

The length of a text is taken as the bytes tell it, and a buffer of that length is asked for before the text is
read. So a reader gives up just where it comes to a length that is greater than its room, however few bytes follow.
-/

namespace ClassScope.ClassIndex

variable {α β : Type} {x : Decoder α} {f : α → Decoder β} {bs : Bytes} {room n : Nat}

/-! ## Decoders that ask for no buffer -/

theorem bind_eq_memory_iff : (x >>= f) bs = .error (.memory n) ↔
    x bs = .error (.memory n) ∨ ∃ a rest, x bs = .ok (a, rest) ∧ f a rest = .error (.memory n) := by
  have run : (x >>= f) bs = (x bs).bind fun y => f y.1 y.2 := rfl
  rw [run]
  cases x bs with
  | error e => simp [Except.bind]
  | ok y =>
      constructor
      · intro h
        exact .inr ⟨y.1, y.2, rfl, h⟩
      · rintro (h | ⟨a, rest, h, run⟩)
        · cases h
        · cases h
          exact run

def Frugal (x : Decoder α) : Prop :=
  ∀ bs n, x bs ≠ .error (.memory n)

theorem Frugal.bind_eq_memory_iff (hx : Frugal x) : (x >>= f) bs = .error (.memory n) ↔
    ∃ a rest, x bs = .ok (a, rest) ∧ f a rest = .error (.memory n) := by
  rw [ClassIndex.bind_eq_memory_iff, or_iff_right (hx bs n)]

theorem Frugal.bind (hx : Frugal x) (hf : ∀ a, Frugal (f a)) : Frugal (x >>= f) := by
  intro bs n h
  obtain ⟨a, rest, -, ha⟩ := hx.bind_eq_memory_iff.mp h
  exact hf a rest n ha

theorem Frugal.pure (a : α) : Frugal (Pure.pure a) := by
  intro bs n h
  cases h

theorem Frugal.throw {e : DecodeError} (he : ∀ n, e ≠ .memory n) : Frugal (throw e : Decoder α) := by
  intro bs n h
  cases h
  exact he n rfl

theorem frugal_take (n : Nat) : Frugal (take n) := by
  intro bs m h
  unfold take at h
  split at h
  · cases h
  · cases h

theorem frugal_number (width : Nat) : Frugal (number width) :=
  (frugal_take width).bind fun bytes => .pure (Bytes.littleEndian bytes)

theorem frugal_time : Frugal decodeTime := by
  refine (frugal_number 1).bind fun mark => ?_
  split
  · exact .pure none
  · exact (frugal_number 8).bind fun ms => .pure (some ms)
  · exact .throw fun n h => by cases h

theorem frugal_stamp : Frugal decodeStamp := by
  refine (frugal_number 4).bind fun mark => ?_
  split
  · exact .pure _
  · exact (frugal_number 8).bind fun length => frugal_time.bind fun modified => .pure _
  · refine (frugal_number 8).bind fun classFiles => (frugal_number 8).bind fun bytes => ?_
    exact frugal_time.bind fun newest => .pure _
  · exact .throw fun n h => by cases h

/-! ## Texts -/

/-- The bytes start with the length of a text. -/
def LengthFirst (n : Nat) (bs : Bytes) : Prop :=
  n < Bytes.capacity 8 ∧ ∃ rest, bs = Bytes.ofNat 8 n ++ rest

theorem decodeText_eq_memory_iff :
    decodeText room bs = .error (.memory n) ↔ LengthFirst n bs ∧ room < n := by
  constructor
  · intro run
    obtain ⟨length, rest, hlength, run₁⟩ := (frugal_number 8).bind_eq_memory_iff.mp run
    obtain ⟨rfl, fits⟩ := unwrites_number 8 _ _ _ hlength
    unfold fill at run₁
    split at run₁
    · obtain ⟨text, left, -, run₂⟩ := (frugal_take length).bind_eq_memory_iff.mp run₁
      cases hd : Utf8.decode text with
      | ok s => rw [hd] at run₂; cases run₂
      | error e => rw [hd] at run₂; cases run₂
    · rename_i much
      cases run₁
      exact ⟨⟨fits, rest, rfl⟩, Nat.lt_of_not_le much⟩
  · rintro ⟨⟨fits, rest, rfl⟩, much⟩
    rw [decodeText, (decodes_number fits).bind_apply, fill, if_neg (Nat.not_le_of_lt much)]
    rfl

/-- Behind some of a number of texts, the bytes go on with the length of the next one. -/
def Before (room n count : Nat) (bs : Bytes) : Prop :=
  ∃ (names : List String) (rest : Bytes), names.length < count ∧ (∀ name ∈ names, TextFits room name) ∧
    LengthFirst n rest ∧ bs = names.flatMap encodeText ++ rest

theorem before_zero : ¬ Before room n 0 bs := by
  rintro ⟨names, rest, short, -⟩
  exact Nat.not_lt_zero _ short

/-- The length is that of the first text, or comes behind it. -/
theorem before_succ {count : Nat} : Before room n (count + 1) bs ↔
    LengthFirst n bs ∨ ∃ name rest, TextFits room name ∧ bs = encodeText name ++ rest ∧ Before room n count rest := by
  constructor
  · rintro ⟨names, rest, short, fit, first, rfl⟩
    cases names with
    | nil => exact .inl first
    | cons name names =>
        refine .inr ⟨name, names.flatMap encodeText ++ rest, fit name List.mem_cons_self, ?_, names, rest, ?_, ?_,
          first, rfl⟩
        · rw [List.flatMap_cons, List.append_assoc]
        · exact Nat.lt_of_succ_lt_succ short
        · exact fun other h => fit other (List.mem_cons_of_mem name h)
  · rintro (first | ⟨name, _, fits, rfl, names, rest, short, fit, first, rfl⟩)
    · exact ⟨[], bs, Nat.succ_pos count, fun _ h => absurd h List.not_mem_nil, first, rfl⟩
    · refine ⟨name :: names, rest, Nat.succ_lt_succ short, fun other h => ?_, first, ?_⟩
      · rcases List.mem_cons.mp h with rfl | h
        · exact fits
        · exact fit other h
      · rw [List.flatMap_cons, List.append_assoc]

theorem decodeTexts_eq_memory_iff (count : Nat) :
    decodeTexts room count bs = .error (.memory n) ↔ Before room n count bs ∧ room < n := by
  induction count generalizing bs with
  | zero =>
      refine ⟨fun run => ?_, fun h => absurd h.1 before_zero⟩
      cases run
  | succ count ih =>
      rw [decodeTexts, bind_eq_memory_iff, decodeText_eq_memory_iff, before_succ, or_and_right]
      refine or_congr_right ?_
      constructor
      · rintro ⟨name, rest, hname, run⟩
        obtain ⟨rfl, fits⟩ := unwrites_text _ _ _ hname
        rcases bind_eq_memory_iff.mp run with htexts | ⟨names, left, -, hpure⟩
        · obtain ⟨before, much⟩ := ih.mp htexts
          exact ⟨⟨name, rest, fits, rfl, before⟩, much⟩
        · cases hpure
      · rintro ⟨⟨name, rest, fits, rfl, before⟩, much⟩
        exact ⟨name, rest, decodes_text fits rest, bind_eq_memory_iff.mpr (.inl (ih.mpr ⟨before, much⟩))⟩

/-! ## Records -/

/-- A reader of a record comes to the length of a text: to that of the path, behind two versions, or to that of a
class name, behind the head of the record and the names before it. -/
inductive Announces (room n : Nat) : Bytes → Prop where
  | path {version print : Nat} {rest : Bytes} (hversion : version < Bytes.capacity 4)
      (hprint : print < Bytes.capacity 4) (length : LengthFirst n rest) :
      Announces room n (Bytes.ofNat 4 version ++ (Bytes.ofNat 4 print ++ rest))
  | name {r : Record} {count : Nat} {rest : Bytes} (head : r.HeadFits room) (hcount : count < Bytes.capacity 8)
      (length : Before room n count rest) : Announces room n (r.head ++ (Bytes.ofNat 8 count ++ rest))

theorem decodeFingerprint_eq_memory_iff : decodeFingerprint room bs = .error (.memory n) ↔
    ∃ version rest, version < Bytes.capacity 4 ∧ bs = Bytes.ofNat 4 version ++ rest ∧ LengthFirst n rest ∧
      room < n := by
  constructor
  · intro run
    obtain ⟨version, rest, hversion, run₁⟩ := (frugal_number 4).bind_eq_memory_iff.mp run
    obtain ⟨rfl, fits⟩ := unwrites_number 4 _ _ _ hversion
    rcases bind_eq_memory_iff.mp run₁ with hpath | ⟨path, left, -, run₂⟩
    · exact ⟨version, rest, fits, rfl, decodeText_eq_memory_iff.mp hpath⟩
    · exact absurd run₂ ((frugal_stamp.bind fun stamp => .pure (Fingerprint.mk version path stamp)) left n)
  · rintro ⟨version, rest, fits, rfl, length⟩
    rw [decodeFingerprint, (decodes_number fits).bind_apply]
    exact bind_eq_memory_iff.mpr (.inl (decodeText_eq_memory_iff.mpr length))

theorem decodeClasses_eq_memory_iff : decodeClasses room bs = .error (.memory n) ↔
    ∃ count rest, count < Bytes.capacity 8 ∧ bs = Bytes.ofNat 8 count ++ rest ∧ Before room n count rest ∧
      room < n := by
  constructor
  · intro run
    obtain ⟨count, rest, hcount, run₁⟩ := (frugal_number 8).bind_eq_memory_iff.mp run
    obtain ⟨rfl, fits⟩ := unwrites_number 8 _ _ _ hcount
    rcases bind_eq_memory_iff.mp run₁ with htexts | ⟨names, left, -, hpure⟩
    · exact ⟨count, rest, fits, rfl, (decodeTexts_eq_memory_iff count).mp htexts⟩
    · cases hpure
  · rintro ⟨count, rest, fits, rfl, before⟩
    rw [decodeClasses, (decodes_number fits).bind_apply]
    exact bind_eq_memory_iff.mpr (.inl ((decodeTexts_eq_memory_iff count).mpr before))

/-- The reader gives up just where it comes to a length that is greater than its room. -/
theorem decodeRecord_eq_memory_iff :
    decodeRecord room bs = .error (.memory n) ↔ Announces room n bs ∧ room < n := by
  constructor
  · intro run
    obtain ⟨version, left₁, hversion, run₁⟩ := (frugal_number 4).bind_eq_memory_iff.mp run
    obtain ⟨rfl, fitsVersion⟩ := unwrites_number 4 _ _ _ hversion
    rcases bind_eq_memory_iff.mp run₁ with hprint | ⟨fingerprint, left₂, hfingerprint, run₂⟩
    · obtain ⟨print, rest, fitsPrint, rfl, length, much⟩ := decodeFingerprint_eq_memory_iff.mp hprint
      exact ⟨.path fitsVersion fitsPrint length, much⟩
    · obtain ⟨scanMs, left₃, hscan, run₃⟩ := (frugal_number 8).bind_eq_memory_iff.mp run₂
      obtain ⟨classCount, left₄, hclassCount, run₄⟩ := (frugal_number 4).bind_eq_memory_iff.mp run₃
      obtain ⟨recordedAt, left₅, hrecorded, run₅⟩ := (frugal_number 8).bind_eq_memory_iff.mp run₄
      obtain ⟨rfl, fitsFingerprint⟩ := unwrites_fingerprint _ _ _ hfingerprint
      obtain ⟨rfl, fitsScan⟩ := unwrites_number 8 _ _ _ hscan
      obtain ⟨rfl, fitsCount⟩ := unwrites_number 4 _ _ _ hclassCount
      obtain ⟨rfl, fitsRecorded⟩ := unwrites_number 8 _ _ _ hrecorded
      rcases bind_eq_memory_iff.mp run₅ with hclasses | ⟨classes, left₆, -, hpure⟩
      · obtain ⟨count, rest, fits, rfl, before, much⟩ := decodeClasses_eq_memory_iff.mp hclasses
        have head : Record.HeadFits room ⟨version, fingerprint, scanMs, classCount, recordedAt, ∅⟩ :=
          ⟨fitsVersion, fitsFingerprint, fitsScan, fitsCount, fitsRecorded⟩
        have announced := Announces.name head fits before
        simp only [Record.head, List.append_assoc] at announced
        exact ⟨announced, much⟩
      · cases hpure
  · rintro ⟨announced, much⟩
    cases announced with
    | path hversion hprint length =>
        rw [decodeRecord, (decodes_number hversion).bind_apply]
        exact bind_eq_memory_iff.mpr (.inl (decodeFingerprint_eq_memory_iff.mpr ⟨_, _, hprint, rfl, length, much⟩))
    | name head hcount before =>
        rw [decodeRecord_head head]
        exact bind_eq_memory_iff.mpr (.inl (decodeClasses_eq_memory_iff.mpr ⟨_, _, hcount, rfl, before, much⟩))

theorem recordFor_eq_memory_iff {g : Fingerprint} :
    recordFor room g bs = .error (.encoding (.memory n)) ↔ Announces room n bs ∧ room < n := by
  rw [← decodeRecord_eq_memory_iff, recordFor, Record.decode]
  cases decodeRecord room bs with
  | error e => simp [Except.map]
  | ok y =>
      refine ⟨fun h => ?_, fun h => by cases h⟩
      dsimp only [Except.map] at h
      split at h
      · cases h
      · split at h
        · cases h
        · cases h

end ClassScope.ClassIndex
