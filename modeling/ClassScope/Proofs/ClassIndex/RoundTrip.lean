import ClassScope.ClassIndex.Basic
import ClassScope.Proofs.Text.RoundTrip

/-!
# Records read back

A record whose numbers and lengths fit their fields is read from its bytes as it was written, whatever
follows them, by a reader with room for its texts.
-/

namespace ClassScope

/-! ## What fits -/

namespace ClassIndex

/-- A text whose length fits its field, and the room that its reader has. -/
def TextFits (room : Nat) (s : String) : Prop :=
  (Utf8.encode s).length < Bytes.capacity 8 ∧ (Utf8.encode s).length ≤ room

instance (room : Nat) (s : String) : Decidable (TextFits room s) :=
  inferInstanceAs (Decidable (_ ∧ _))

def TimeFits (time : Option Nat) : Prop :=
  ∀ ms ∈ time, ms < Bytes.capacity 8

end ClassIndex

open ClassIndex

def Stamp.Fits : Stamp → Prop
  | .absent => True
  | .archive length modified => length < Bytes.capacity 8 ∧ TimeFits modified
  | .classTree classFiles bytes newest =>
      classFiles < Bytes.capacity 8 ∧ bytes < Bytes.capacity 8 ∧ TimeFits newest

structure Fingerprint.Fits (room : Nat) (f : Fingerprint) : Prop where
  version : f.version < Bytes.capacity 4
  path : TextFits room f.path
  stamp : f.stamp.Fits

structure ClassNameSet.Fits (room : Nat) (s : ClassNameSet) : Prop where
  size : s.size < Bytes.capacity 8
  names : ∀ name ∈ s, TextFits room name

variable {room : Nat}

theorem ClassNameSet.fits_singleton {name : String} (h : TextFits room name) : (ofList [name]).Fits room where
  size := by
    show 1 < Bytes.capacity 8
    decide
  names n hn := by
    rw [List.mem_singleton.mp (mem_ofList.mp hn)]
    exact h

namespace ClassIndex

/-- What stands before the class names of a record fits. -/
structure Record.HeadFits (room : Nat) (r : Record) : Prop where
  version : r.version < Bytes.capacity 4
  fingerprint : r.fingerprint.Fits room
  scanMs : r.scanMs < Bytes.capacity 8
  classCount : r.classCount < Bytes.capacity 4
  recordedAt : r.recordedAt < Bytes.capacity 8

structure Record.Fits (room : Nat) (r : Record) : Prop extends r.HeadFits room where
  classes : r.classes.Fits room

/-! ## Decoders -/

/-- The decoder takes exactly these bytes from the front, and gives this value for them. -/
def Decodes {α : Type} (x : Decoder α) (bs : Bytes) (a : α) : Prop :=
  ∀ rest, x (bs ++ rest) = .ok (a, rest)

variable {α β : Type} {x : Decoder α} {f : α → Decoder β} {bs cs : Bytes} {a : α} {b : β}

theorem Decodes.pure (a : α) : Decodes (Pure.pure a) [] a :=
  fun _ => rfl

theorem Decodes.bind_apply (hx : Decodes x bs a) (f : α → Decoder β) (rest : Bytes) :
    (x >>= f) (bs ++ rest) = f a rest := by
  have h : (x >>= f) (bs ++ rest) = (x (bs ++ rest)).bind fun y => f y.1 y.2 := rfl
  rw [h, hx]
  rfl

theorem Decodes.bind (hx : Decodes x bs a) (hf : Decodes (f a) cs b) : Decodes (x >>= f) (bs ++ cs) b := by
  intro rest
  rw [List.append_assoc, hx.bind_apply]
  exact hf rest

theorem Decodes.bind_nil (hx : Decodes x bs a) (hf : Decodes (f a) [] b) : Decodes (x >>= f) bs b := by
  have h := hx.bind hf
  rw [List.append_nil] at h
  exact h

/-- The last step of a decoder makes its value of what the steps before it gave. -/
theorem Decodes.map (hx : Decodes x bs a) (g : α → β) : Decodes (x >>= fun y => Pure.pure (g y)) bs (g a) :=
  hx.bind_nil (Decodes.pure (g a))

theorem decodes_take (bs : Bytes) : Decodes (take bs.length) bs bs := by
  intro rest
  rw [take, Bytes.take?_append]

theorem decodes_number {w n : Nat} (h : n < Bytes.capacity w) : Decodes (number w) (Bytes.ofNat w n) n := by
  have ht := decodes_take (Bytes.ofNat w n)
  rw [Bytes.length_ofNat] at ht
  have hn := ht.map Bytes.littleEndian
  rw [Bytes.littleEndian_ofNat h] at hn
  exact hn

theorem decodes_fill (h : bs.length ≤ room) : Decodes (fill room bs.length) bs bs := by
  rw [fill, if_pos h]
  exact decodes_take bs

/-! ## Parts of a record -/

theorem decodes_text {s : String} (h : TextFits room s) : Decodes (decodeText room) (encodeText s) s := by
  refine (decodes_number h.1).bind ((decodes_fill h.2).bind_nil ?_)
  rw [Utf8.decode_encode]
  exact Decodes.pure s

theorem decodes_time {time : Option Nat} (h : TimeFits time) : Decodes decodeTime (encodeTime time) time := by
  cases time with
  | none => exact (decodes_number (w := 1) (n := 0) (by decide)).bind (Decodes.pure none)
  | some ms =>
      exact (decodes_number (w := 1) (n := 1) (by decide)).bind ((decodes_number (h ms rfl)).map some)

theorem decodes_stamp {stamp : Stamp} (h : stamp.Fits) : Decodes decodeStamp (encodeStamp stamp) stamp := by
  cases stamp with
  | absent => exact (decodes_number (w := 4) (n := 0) (by decide)).bind (Decodes.pure _)
  | archive length modified =>
      rw [encodeStamp, List.append_assoc]
      refine (decodes_number (w := 4) (n := 1) (by decide)).bind ?_
      exact (decodes_number h.1).bind ((decodes_time h.2).map (Stamp.archive length))
  | classTree classFiles bytes newest =>
      rw [encodeStamp, List.append_assoc, List.append_assoc]
      refine (decodes_number (w := 4) (n := 2) (by decide)).bind ?_
      refine (decodes_number h.1).bind ((decodes_number h.2.1).bind ?_)
      exact (decodes_time h.2.2).map (Stamp.classTree classFiles bytes)

theorem decodes_fingerprint {f : Fingerprint} (h : f.Fits room) :
    Decodes (decodeFingerprint room) (encodeFingerprint f) f := by
  rw [encodeFingerprint, List.append_assoc]
  refine (decodes_number h.version).bind ((decodes_text h.path).bind ?_)
  exact (decodes_stamp h.stamp).map (Fingerprint.mk f.version f.path)

theorem decodes_texts {names : List String} (h : ∀ name ∈ names, TextFits room name) :
    Decodes (decodeTexts room names.length) (names.flatMap encodeText) names := by
  induction names with
  | nil => exact Decodes.pure []
  | cons name names ih =>
      rw [List.flatMap_cons]
      refine (decodes_text (h name List.mem_cons_self)).bind ?_
      exact (ih fun n hn => h n (List.mem_cons_of_mem name hn)).map (name :: ·)

theorem decodes_classes {names : List String} (count : names.length < Bytes.capacity 8)
    (fit : ∀ name ∈ names, TextFits room name) :
    Decodes (decodeClasses room) (Bytes.ofNat 8 names.length ++ names.flatMap encodeText) (.ofList names) :=
  (decodes_number count).bind ((decodes_texts fit).map ClassNameSet.ofList)

end ClassIndex

@[simp] theorem ClassNameSet.ofList_names (s : ClassNameSet) : ofList s.names = s :=
  eq_of_mem_iff fun _ => mem_ofList

namespace ClassIndex

/-! ## Records -/

/-- The bytes before the class names of a record. -/
def Record.head (r : Record) : Bytes :=
  Bytes.ofNat 4 r.version ++ encodeFingerprint r.fingerprint ++ Bytes.ofNat 8 r.scanMs ++
    Bytes.ofNat 4 r.classCount ++ Bytes.ofNat 8 r.recordedAt

/-- The bytes of a record whose class names stand in this order. -/
def Record.layout (r : Record) (names : List String) : Bytes :=
  r.head ++ (Bytes.ofNat 8 names.length ++ names.flatMap encodeText)

/-- The names are those of the record, in any order and with any repetition, and everything fits. -/
structure Record.Lists (room : Nat) (r : Record) (names : List String) : Prop extends r.HeadFits room where
  count : names.length < Bytes.capacity 8
  fit : ∀ name ∈ names, TextFits room name
  classes : r.classes = .ofList names

variable {r : Record}

/-- Behind the head of a record, its reader goes on with the class names. -/
theorem decodeRecord_head (h : r.HeadFits room) (rest : Bytes) :
    decodeRecord room (r.head ++ rest) = (decodeClasses room >>= fun classes =>
      Pure.pure (Record.mk r.version r.fingerprint r.scanMs r.classCount r.recordedAt classes)) rest := by
  rw [Record.head, decodeRecord]
  simp only [List.append_assoc]
  rw [(decodes_number h.version).bind_apply, (decodes_fingerprint h.fingerprint).bind_apply,
    (decodes_number h.scanMs).bind_apply, (decodes_number h.classCount).bind_apply,
    (decodes_number h.recordedAt).bind_apply]

theorem decodes_layout {names : List String} (h : r.Lists room names) :
    Decodes (decodeRecord room) (r.layout names) r := by
  intro rest
  have hclasses := (decodes_classes h.count h.fit).map
    (Record.mk r.version r.fingerprint r.scanMs r.classCount r.recordedAt)
  rw [Record.layout, List.append_assoc, decodeRecord_head h.toHeadFits, hclasses rest, ← h.classes]

theorem Record.Fits.lists (h : r.Fits room) : r.Lists room r.classes.names where
  toHeadFits := h.toHeadFits
  count := h.classes.size
  fit := h.classes.names
  classes := (ClassNameSet.ofList_names r.classes).symm

theorem decodes_record (h : r.Fits room) : Decodes (decodeRecord room) r.encode r :=
  decodes_layout h.lists

theorem Record.decode_encode (h : r.Fits room) : Record.decode room r.encode = .ok r := by
  have hd := decodes_record h []
  rw [List.append_nil] at hd
  rw [Record.decode, hd]
  rfl

/-- What a scan stores fits if the entry's fingerprint and classes do: the other numbers are cut to their
fields. -/
theorem fits_recordOf {f : Fingerprint} {classes : ClassNameSet} (hf : f.Fits room) (hc : classes.Fits room)
    (elapsedNs now : Nat) : (recordOf f classes elapsedNs now).Fits room where
  version := by
    show 1 < Bytes.capacity 4
    decide
  fingerprint := hf
  scanMs := Nat.lt_of_le_of_lt (Nat.min_le_right _ _) (by decide)
  classCount := Nat.lt_of_le_of_lt (Nat.min_le_right _ _) (by decide)
  recordedAt := Nat.lt_of_le_of_lt (Nat.min_le_right _ _) (by decide)
  classes := hc

end ClassIndex

end ClassScope
