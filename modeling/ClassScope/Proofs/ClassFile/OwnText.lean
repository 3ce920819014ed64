import ClassScope.Proofs.ClassFile.Names
import ClassScope.Proofs.Text.Modified
import Mathlib.Data.List.Forall2

/-!
# What a class name depends on

As long as the other texts of a class file are UTF-8, its name depends on its own text alone. A text that a
class file writes in another way than UTF-8 does, wherever it stands, takes the name away.
-/

namespace ClassScope.ClassFile

/-- A text is written as class files write it. -/
def Constant.IsModified : Constant → Prop
  | .text payload => ∃ units, payload = ModifiedUtf8.encode units
  | _ => True

/-- Constants that differ at most in what a text holds. -/
inductive Constant.SameButText : Constant → Constant → Prop where
  | refl (c : Constant) : SameButText c c
  | text (payload other : Bytes) : SameButText (.text payload) (.text other)

namespace File

/-- No text outside of the slot has a unit 0 or half of a character past U+FFFF. -/
def OthersPlain (f : File) (own : Nat) : Prop :=
  ∀ slot units, StandsAt f.pool slot (.text (ModifiedUtf8.encode units)) → slot ≠ own →
    ∀ u ∈ units, ModifiedUtf8.IsPlain u

/-- Files that differ at most in what texts outside of the slot hold. -/
structure SameBut (own : Nat) (f g : File) : Prop where
  version : g.version = f.version
  count : g.count = f.count
  pool : List.Forall₂ Constant.SameButText f.pool g.pool
  own : ∀ payload, StandsAt f.pool own (.text payload) → StandsAt g.pool own (.text payload)
  access : g.access = f.access
  thisClass : g.thisClass = f.thisClass
  rest : g.rest = f.rest

end File

/-! ## Where constants stand -/

variable {pool : List Constant} {c d : Constant} {slot own : Nat}

theorem standsAt_cons : StandsAt (c :: pool) slot d ↔
    slot = 1 ∧ d = c ∨ ∃ s, StandsAt pool s d ∧ slot = c.width + s := by
  constructor
  · rintro ⟨before, after, hpool, rfl⟩
    cases before with
    | nil => exact .inl ⟨rfl, (List.cons.inj hpool).1.symm⟩
    | cons b before =>
        obtain ⟨rfl, rfl⟩ := List.cons.inj hpool
        refine .inr ⟨nextSlot before, ⟨before, after, rfl, rfl⟩, ?_⟩
        rw [nextSlot, nextSlot, width_cons]
        omega
  · rintro (⟨rfl, rfl⟩ | ⟨s, ⟨before, after, rfl, rfl⟩, rfl⟩)
    · exact ⟨[], pool, rfl, rfl⟩
    · refine ⟨c :: before, after, rfl, ?_⟩
      rw [nextSlot, nextSlot, width_cons]
      omega

theorem StandsAt.pos (h : StandsAt pool slot c) : 0 < slot := by
  obtain ⟨before, after, -, rfl⟩ := h
  rw [nextSlot]
  omega

theorem Constant.width_pos (c : Constant) : 0 < c.width := by
  unfold width
  split <;> decide

theorem StandsAt.unique (hc : StandsAt pool slot c) (hd : StandsAt pool slot d) : c = d := by
  induction pool generalizing slot with
  | nil =>
      obtain ⟨before, after, hpool, -⟩ := hc
      simp at hpool
  | cons b pool ih =>
      have hb := b.width_pos
      rcases standsAt_cons.mp hc with ⟨rfl, rfl⟩ | ⟨s, hs, rfl⟩
      · rcases standsAt_cons.mp hd with ⟨-, rfl⟩ | ⟨t, ht, hslot⟩
        · rfl
        · have hpos := ht.pos
          omega
      · have hpos := hs.pos
        rcases standsAt_cons.mp hd with ⟨hone, -⟩ | ⟨t, ht, hslot⟩
        · omega
        · obtain rfl : t = s := by omega
          exact ih hs ht

theorem StandsAt.mem (h : StandsAt pool slot c) : c ∈ pool := by
  obtain ⟨before, after, rfl, -⟩ := h
  exact List.mem_append_right before List.mem_cons_self

theorem exists_standsAt (h : c ∈ pool) : ∃ slot, StandsAt pool slot c := by
  obtain ⟨before, after, hpool⟩ := List.append_of_mem h
  exact ⟨_, before, after, hpool, rfl⟩

theorem Constant.SameButText.width_eq (h : SameButText c d) : d.width = c.width := by
  cases h <;> rfl

theorem StandsAt.sameButText {pool' : List Constant} (hpool : List.Forall₂ Constant.SameButText pool pool')
    (h : StandsAt pool slot c) : ∃ d, StandsAt pool' slot d ∧ c.SameButText d := by
  induction hpool generalizing slot with
  | nil =>
      obtain ⟨before, after, hpool, -⟩ := h
      simp at hpool
  | @cons a b pool pool' hab _ ih =>
      rcases standsAt_cons.mp h with ⟨rfl, rfl⟩ | ⟨s, hs, rfl⟩
      · exact ⟨b, standsAt_cons.mpr (.inl ⟨rfl, rfl⟩), hab⟩
      · obtain ⟨d, hd, hcd⟩ := ih hs
        exact ⟨d, standsAt_cons.mpr (.inr ⟨s, hd, by rw [hab.width_eq]⟩), hcd⟩

theorem File.SameBut.names {f g : File} {payload : Bytes} (h : f.SameBut own g)
    (hf : f.Names own payload) : g.Names own payload := by
  refine ⟨?_, h.own payload hf.2⟩
  obtain ⟨d, hd, hsame⟩ := hf.1.sameButText h.pool
  cases hsame
  rw [h.thisClass]
  exact hd

/-! ## Texts that cannot be decoded -/

theorem slots?_of_error {before after : List Constant} {e : Error} (h : ∀ d ∈ before, d.Readable)
    (hc : c.slot? = .error e) : slots? (before ++ c :: after) = .error e := by
  induction before with
  | nil =>
      rw [List.nil_append, slots?, hc]
      rfl
  | cons b before ih =>
      obtain ⟨hb, hbefore⟩ := List.forall_mem_cons.mp h
      obtain ⟨slot, hslot⟩ := Constant.exists_slot?_iff.mpr hb
      rw [List.cons_append, slots?, hslot, ok_bind, ih hbefore]
      rfl

theorem nextSlot_lt {before middle : List Constant} : nextSlot before < nextSlot (before ++ c :: middle) := by
  have hc := c.width_pos
  simp only [nextSlot, width, List.map_append, List.map_cons, List.sum_append, List.sum_cons]
  omega

/-- With all other texts readable, the name is its own text, or there is none because that text is malformed. -/
theorem readName_of_names {f : File} {payload : Bytes} (hf : f.Names own payload)
    (hothers : ∀ slot c, StandsAt f.pool slot c → slot ≠ own → c.Readable) :
    readName f.encode =
      ((Utf8.decodeChars payload).map fun cs => String.ofList (ClassName.dotted cs)).mapError .malformedText := by
  cases hpayload : Utf8.decodeChars payload with
  | ok cs =>
      obtain rfl := Utf8.decodeChars_eq_ok_iff.mp hpayload
      refine (readName_encode_eq_ok_iff f).mpr ⟨fun c hc => ?_, own, cs, hf, rfl⟩
      obtain ⟨slot, hslot⟩ := exists_standsAt hc
      by_cases hown : slot = own
      · subst hown
        obtain rfl := hslot.unique hf.2
        exact ⟨cs, rfl⟩
      · exact hothers slot c hslot hown
  | error cause =>
      obtain ⟨before, after, hpool, hown⟩ := hf.2
      have hbefore : ∀ d ∈ before, d.Readable := by
        intro d hd
        obtain ⟨front, middle, rfl⟩ := List.append_of_mem hd
        refine hothers (nextSlot front) d ⟨front, middle ++ .text payload :: after, ?_, rfl⟩ ?_
        · rw [hpool, List.append_assoc, List.cons_append]
        · rw [← hown]
          exact Nat.ne_of_lt nextSlot_lt
      have hslot : (Constant.text payload).slot? = .error (.malformedText cause) := by
        rw [Constant.slot?, hpayload]
        rfl
      rw [readName_encode, hpool, slots?_of_error hbefore hslot]
      rfl

/-! ## Texts of class files -/

theorem File.OthersPlain.readable {f : File} (hf : ∀ c ∈ f.pool, c.IsModified) (h : f.OthersPlain own) :
    ∀ slot c, StandsAt f.pool slot c → slot ≠ own → c.Readable := by
  intro slot c hslot hne
  cases c with
  | text payload =>
      obtain ⟨units, rfl⟩ := hf _ hslot.mem
      exact ModifiedUtf8.encode_eq_encodeChars_iff.mpr (h slot units hslot hne)
  | classAt textSlot => trivial
  | plain kind content => trivial

theorem File.othersPlain_of_readable {f : File} (h : ∀ c ∈ f.pool, c.Readable) : f.OthersPlain own := by
  intro slot units hslot _
  exact ModifiedUtf8.encode_eq_encodeChars_iff.mp (h _ hslot.mem)

/-- Between files that differ in texts other than the class's own, the answer is the same as long as none of
those texts has a unit 0 or half of a character past U+FFFF. A class whose own text is UTF-8 has its name
exactly when no other text has such a unit. -/
theorem name_of_own_text {f g : File} {own : Nat} {payload : Bytes} (hf : f.Names own payload)
    (h : f.SameBut own g) (hfm : ∀ c ∈ f.pool, c.IsModified) (hgm : ∀ c ∈ g.pool, c.IsModified) :
    (f.OthersPlain own → g.OthersPlain own → readName f.encode = readName g.encode) ∧
    ∀ cs, payload = Utf8.encodeChars cs →
      (readName f.encode = .ok (String.ofList (ClassName.dotted cs)) ↔ f.OthersPlain own) := by
  constructor
  · intro hfp hgp
    rw [readName_of_names hf (hfp.readable hfm), readName_of_names (h.names hf) (hgp.readable hgm)]
  · rintro cs rfl
    constructor
    · intro hname
      exact File.othersPlain_of_readable ((readName_encode_eq_ok_iff f).mp hname).1
    · intro hfp
      rw [readName_of_names hf (hfp.readable hfm), Utf8.decodeChars_eq_ok_iff.mpr rfl]
      rfl

/-- The class file of a class `A` that holds one more text. -/
def withText (payload : Bytes) (h : payload.length < Bytes.capacity 2) : File :=
  have hfits : ∀ c ∈ [Constant.text [0x41], .classAt 1, .text payload], c.Fits := by
    simpa [Constant.Fits, Bytes.capacity] using h
  have hfills : Fills (4 - 1) [Constant.text [0x41], .classAt 1, .text payload] := by
    simp [fills_cons, fills_nil, Constant.width, Constant.isWide]
  .ofFills (show [0, 0, 0, 52].length = 4 from rfl) (show [0, 0x21].length = 2 from rfl) (by decide)
    (show 2 < Bytes.capacity 2 by decide) hfits hfills [0, 0]

theorem withText_names {payload : Bytes} (h : payload.length < Bytes.capacity 2) :
    (withText payload h).Names 1 (Utf8.encodeChars ['A']) :=
  ⟨⟨[.text [0x41]], [.text payload], rfl, rfl⟩, [], [.classAt 1, .text payload], rfl, rfl⟩

theorem withText_sameBut {payload other : Bytes} (h : payload.length < Bytes.capacity 2)
    (ho : other.length < Bytes.capacity 2) : (withText payload h).SameBut 1 (withText other ho) where
  version := rfl
  count := rfl
  pool := .cons (.refl _) (.cons (.refl _) (.cons (.text _ _) .nil))
  own := by
    intro text htext
    obtain rfl := Constant.text.inj (htext.unique (withText_names h).2)
    exact (withText_names ho).2
  access := rfl
  thisClass := rfl
  rest := rfl

theorem withText_isModified {units : List UInt16} (h : (ModifiedUtf8.encode units).length < Bytes.capacity 2) :
    ∀ c ∈ (withText (ModifiedUtf8.encode units) h).pool, c.IsModified := by
  show ∀ c ∈ [Constant.text [0x41], .classAt 1, .text (ModifiedUtf8.encode units)], c.IsModified
  simp only [List.forall_mem_cons]
  exact ⟨⟨[0x41], rfl⟩, trivial, ⟨units, rfl⟩, nofun⟩

/-- A text with the unit 0 takes away the name that the same file with the text `x` has. -/
theorem name_lost_by_zero :
    readName (withText (ModifiedUtf8.encode [0x78]) (by decide)).encode = .ok "A" ∧
      readName (withText (ModifiedUtf8.encode [0]) (by decide)).encode ≠ .ok "A" := by
  have hzero : (ModifiedUtf8.encode [0]).length < Bytes.capacity 2 := by decide
  have hx : (ModifiedUtf8.encode [0x78]).length < Bytes.capacity 2 := by decide
  refine ⟨rfl, fun hname => ?_⟩
  have plain := ((name_of_own_text (withText_names hzero) (withText_sameBut hzero hx)
    (withText_isModified hzero) (withText_isModified hx)).2 ['A'] rfl).mp hname
  have hslot : StandsAt (withText (ModifiedUtf8.encode [0]) hzero).pool 3 (.text (ModifiedUtf8.encode [0])) :=
    ⟨[.text [0x41], .classAt 1], [], rfl, rfl⟩
  exact absurd (plain 3 [0] hslot (by decide) 0 List.mem_cons_self) (by decide)

end ClassScope.ClassFile
