import ClassScope.Proofs.ClassFile.Reading
import ClassScope.Proofs.Text.Strict

/-!
# The names of class files

Bytes have a name exactly when they are laid out as a class file, all texts among its constants are UTF-8, and
the slot of its own class holds a class constant whose slot in turn holds a text: that text is the name.
-/

namespace ClassScope.ClassFile

/-- A text has to be UTF-8; no other content is looked at. -/
def Constant.Readable : Constant → Prop
  | .text payload => ∃ cs, payload = Utf8.encodeChars cs
  | _ => True

/-- The constant begins at the slot: those before it take the slots up to there. -/
def StandsAt (pool : List Constant) (slot : Nat) (c : Constant) : Prop :=
  ∃ before after, pool = before ++ c :: after ∧ nextSlot before = slot

/-- The class constant at the slot of the file's own class names a slot, and the text there has that content. -/
def File.Names (f : File) (textSlot : Nat) (payload : Bytes) : Prop :=
  StandsAt f.pool f.thisClass (.classAt textSlot) ∧ StandsAt f.pool textSlot (.text payload)

/-! ## The slots of one constant -/

theorem Constant.slot?_text_eq_ok_iff {payload : Bytes} {slot : Slot} :
    (text payload).slot? = .ok slot ↔ ∃ cs, payload = Utf8.encodeChars cs ∧ slot = .text cs := by
  simp only [← Utf8.decodeChars_eq_ok_iff, slot?]
  cases Utf8.decodeChars payload with
  | error e => exact ⟨nofun, nofun⟩
  | ok cs =>
      constructor
      · intro h
        exact ⟨cs, rfl, (Except.ok.inj h).symm⟩
      · rintro ⟨_, hcs, rfl⟩
        obtain rfl := Except.ok.inj hcs
        rfl

theorem Constant.slot?_eq_classAt_iff {c : Constant} {textSlot : Nat} :
    c.slot? = .ok (.classAt textSlot) ↔ c = .classAt textSlot := by
  cases c with
  | text payload => simp [slot?_text_eq_ok_iff]
  | classAt slot => simp [slot?]
  | plain kind content => simp [slot?]

theorem Constant.slot?_eq_text_iff {c : Constant} {cs : List Char} :
    c.slot? = .ok (.text cs) ↔ c = .text (Utf8.encodeChars cs) := by
  cases c with
  | text payload => simp [slot?_text_eq_ok_iff]
  | classAt slot => simp [slot?]
  | plain kind content => simp [slot?]

theorem Constant.exists_slot?_iff {c : Constant} : (∃ slot, c.slot? = .ok slot) ↔ c.Readable := by
  cases c with
  | text payload =>
      constructor
      · rintro ⟨slot, hslot⟩
        obtain ⟨cs, hcs, -⟩ := slot?_text_eq_ok_iff.mp hslot
        exact ⟨cs, hcs⟩
      · rintro ⟨cs, hcs⟩
        exact ⟨_, slot?_text_eq_ok_iff.mpr ⟨cs, hcs, rfl⟩⟩
  | classAt slot => exact ⟨fun _ => trivial, fun _ => ⟨_, rfl⟩⟩
  | plain kind content => exact ⟨fun _ => trivial, fun _ => ⟨_, rfl⟩⟩

theorem Constant.getElem?_slots {c : Constant} {s slot : Slot} (hne : slot ≠ .other) {rest : List Slot}
    {i : Nat} : (c.slots s ++ rest)[i]? = some slot ↔
      i = 0 ∧ s = slot ∨ c.width ≤ i ∧ rest[i - c.width]? = some slot := by
  unfold slots width
  cases c.isWide with
  | false => cases i <;> simp
  | true =>
      match i with
      | 0 => simp
      | 1 => simp [hne.symm]
      | i + 2 => simp

/-! ## The slots of a pool -/

variable {pool : List Constant} {slots : List Slot}

theorem slots?_cons_eq_ok_iff {c : Constant} : slots? (c :: pool) = .ok slots ↔
    ∃ slot rest, c.slot? = .ok slot ∧ slots? pool = .ok rest ∧ slots = c.slots slot ++ rest := by
  constructor
  · intro h
    obtain ⟨slot, hslot, h⟩ := exists_of_bind h
    obtain ⟨rest, hrest, h⟩ := exists_of_bind h
    exact ⟨slot, rest, hslot, hrest, (Except.ok.inj h).symm⟩
  · rintro ⟨slot, rest, hslot, hrest, rfl⟩
    rw [slots?, hslot, ok_bind, hrest, ok_bind]
    rfl

theorem exists_slots?_iff : (∃ slots, slots? pool = .ok slots) ↔ ∀ c ∈ pool, c.Readable := by
  induction pool with
  | nil => exact ⟨fun _ => nofun, fun _ => ⟨[], rfl⟩⟩
  | cons c pool ih =>
      rw [List.forall_mem_cons, ← Constant.exists_slot?_iff, ← ih]
      constructor
      · rintro ⟨_, h⟩
        obtain ⟨slot, rest, hslot, hrest, -⟩ := slots?_cons_eq_ok_iff.mp h
        exact ⟨⟨slot, hslot⟩, rest, hrest⟩
      · rintro ⟨⟨slot, hslot⟩, rest, hrest⟩
        exact ⟨_, slots?_cons_eq_ok_iff.mpr ⟨slot, rest, hslot, hrest, rfl⟩⟩

/-- A slot that holds a class or a text is where a constant begins. -/
theorem getElem?_slots? {slot : Slot} (hne : slot ≠ .other) {i : Nat} (h : slots? pool = .ok slots) :
    slots[i]? = some slot ↔
      ∃ before c after, pool = before ++ c :: after ∧ width before = i ∧ c.slot? = .ok slot := by
  induction pool generalizing i slots with
  | nil =>
      cases h
      simp
  | cons c pool ih =>
      obtain ⟨s, rest, hs, hrest, rfl⟩ := slots?_cons_eq_ok_iff.mp h
      rw [Constant.getElem?_slots hne, ih hrest]
      constructor
      · rintro (⟨rfl, rfl⟩ | ⟨hle, before, d, after, rfl, hw, hd⟩)
        · exact ⟨[], c, pool, rfl, rfl, hs⟩
        · refine ⟨c :: before, d, after, rfl, ?_, hd⟩
          rw [width_cons, hw, Nat.add_sub_cancel' hle]
      · rintro ⟨before, d, after, hpool, hw, hd⟩
        cases before with
        | nil =>
            obtain ⟨rfl, -⟩ := List.cons.inj hpool
            rw [hs] at hd
            exact .inl ⟨hw.symm, Except.ok.inj hd⟩
        | cons b before =>
            obtain ⟨rfl, rfl⟩ := List.cons.inj hpool
            rw [width_cons] at hw
            exact .inr ⟨by omega, before, d, after, rfl, by omega, hd⟩

theorem getElem?_iff_standsAt {slot : Slot} (hne : slot ≠ .other) {i : Nat} (h : slots? pool = .ok slots) :
    (Slot.other :: slots)[i]? = some slot ↔ ∃ c, StandsAt pool i c ∧ c.slot? = .ok slot := by
  cases i with
  | zero =>
      constructor
      · intro hother
        exact absurd (Option.some.inj hother).symm hne
      · rintro ⟨c, ⟨before, after, -, hnext⟩, -⟩
        rw [nextSlot] at hnext
        omega
  | succ i =>
      rw [List.getElem?_cons_succ, getElem?_slots? hne h]
      constructor
      · rintro ⟨before, c, after, hpool, rfl, hc⟩
        exact ⟨c, ⟨before, after, hpool, Nat.add_comm 1 _⟩, hc⟩
      · rintro ⟨c, ⟨before, after, hpool, hnext⟩, hc⟩
        rw [nextSlot] at hnext
        exact ⟨before, c, after, hpool, by omega, hc⟩

theorem className_eq_ok_iff {slot : Nat} {cs : List Char} : className slots slot = .ok cs ↔
    ∃ textSlot, slots[slot]? = some (.classAt textSlot) ∧ slots[textSlot]? = some (.text cs) := by
  unfold className
  split
  · rename_i textSlot hclass
    split
    · rename_i ds htext
      simp [hclass, htext]
    · rename_i hno
      simp only [hclass, reduceCtorEq, Option.some.injEq, Slot.classAt.injEq, false_iff]
      rintro ⟨_, rfl, htext⟩
      exact hno cs htext
  · rename_i hno
    simp only [reduceCtorEq, false_iff]
    rintro ⟨textSlot, hclass, -⟩
    exact hno textSlot hclass

theorem className_slots?_eq_ok_iff (f : File) {cs : List Char} (h : slots? f.pool = .ok slots) :
    className (.other :: slots) f.thisClass = .ok cs ↔ ∃ textSlot, f.Names textSlot (Utf8.encodeChars cs) := by
  simp only [className_eq_ok_iff, getElem?_iff_standsAt (Slot.noConfusion : Slot.classAt _ ≠ .other) h,
    getElem?_iff_standsAt (Slot.noConfusion : Slot.text _ ≠ .other) h, Constant.slot?_eq_classAt_iff,
    Constant.slot?_eq_text_iff, exists_eq_right, File.Names]

/-! ## Names -/

theorem readName_encode_eq_ok_iff (f : File) {name : String} : readName f.encode = .ok name ↔
    (∀ c ∈ f.pool, c.Readable) ∧
      ∃ textSlot cs, f.Names textSlot (Utf8.encodeChars cs) ∧ name = String.ofList (ClassName.dotted cs) := by
  rw [readName_encode, ← exists_slots?_iff]
  constructor
  · intro h
    obtain ⟨slots, hslots, h⟩ := exists_of_bind h
    obtain ⟨cs, hcs, h⟩ := exists_of_bind h
    obtain ⟨textSlot, hnames⟩ := (className_slots?_eq_ok_iff f hslots).mp hcs
    exact ⟨⟨slots, hslots⟩, textSlot, cs, hnames, (Except.ok.inj h).symm⟩
  · rintro ⟨⟨slots, hslots⟩, textSlot, cs, hnames, rfl⟩
    rw [hslots, ok_bind, (className_slots?_eq_ok_iff f hslots).mpr ⟨textSlot, hnames⟩]
    rfl

/-- Bytes have a name exactly when they are a class file of readable texts that names a text as its own class;
in the name dots stand for the slashes of that text. -/
theorem readName_eq_ok_iff {bs : Bytes} {name : String} : readName bs = .ok name ↔
    ∃ f : File, f.encode = bs ∧ (∀ c ∈ f.pool, c.Readable) ∧
      ∃ textSlot cs, f.Names textSlot (Utf8.encodeChars cs) ∧ name = String.ofList (ClassName.dotted cs) := by
  constructor
  · intro h
    obtain ⟨f, rfl⟩ := exists_of_readName h
    exact ⟨f, rfl, (readName_encode_eq_ok_iff f).mp h⟩
  · rintro ⟨f, rfl, h⟩
    exact (readName_encode_eq_ok_iff f).mpr h

end ClassScope.ClassFile
