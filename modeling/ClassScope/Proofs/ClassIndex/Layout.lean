import ClassScope.Proofs.ClassIndex.RoundTrip
import ClassScope.Proofs.Text.Strict

/-!
# What is read as a record

The bytes that are read as a record are those that start with one, laid out as it is written but for the order
and the repetition of its class names, if the reader has room for its texts.
-/

namespace ClassScope.ClassIndex

variable {α β : Type} {x : Decoder α} {f : α → Decoder β} {bs rest : Bytes} {a : α} {b : β} {room : Nat}

/-! ## Steps of a decoder -/

theorem exists_of_bind (h : (x >>= f) bs = .ok (b, rest)) :
    ∃ a left, x bs = .ok (a, left) ∧ f a left = .ok (b, rest) := by
  have run : (x >>= f) bs = (x bs).bind fun y => f y.1 y.2 := rfl
  rw [run] at h
  cases hx : x bs with
  | error e =>
      rw [hx] at h
      cases h
  | ok y =>
      rw [hx] at h
      exact ⟨y.1, y.2, rfl, h⟩

/-- What the decoder takes from the front is what is written for the value that it gives. -/
def Unwrites (x : Decoder α) (write : α → Bytes) (Fits : α → Prop) : Prop :=
  ∀ bs a rest, x bs = .ok (a, rest) → bs = write a ++ rest ∧ Fits a

theorem eq_append_of_take {n : Nat} {front : Bytes} (h : take n bs = .ok (front, rest)) :
    bs = front ++ rest ∧ front.length = n := by
  unfold take at h
  split at h
  · rename_i r hr
    cases h
    exact Bytes.eq_append_of_take? hr
  · cases h

theorem eq_append_of_fill {n : Nat} {front : Bytes} (h : fill room n bs = .ok (front, rest)) :
    bs = front ++ rest ∧ front.length = n ∧ n ≤ room := by
  unfold fill at h
  split at h
  · rename_i enough
    obtain ⟨rfl, hlength⟩ := eq_append_of_take h
    exact ⟨rfl, hlength, enough⟩
  · cases h

theorem unwrites_number (w : Nat) : Unwrites (number w) (Bytes.ofNat w) (· < Bytes.capacity w) := by
  intro bs n rest run
  have run : (take w >>= fun bs => pure (Bytes.littleEndian bs)) bs = .ok (n, rest) := run
  obtain ⟨front, left, hfront, hn⟩ := exists_of_bind run
  cases hn
  obtain ⟨rfl, rfl⟩ := eq_append_of_take hfront
  exact ⟨by rw [Bytes.ofNat_littleEndian], Bytes.littleEndian_lt front⟩

/-! ## Parts of a record -/

theorem unwrites_text : Unwrites (decodeText room) encodeText (TextFits room) := by
  intro bs s rest run
  obtain ⟨length, left₁, hlength, run₁⟩ := exists_of_bind run
  obtain ⟨text, left₂, htext, run₂⟩ := exists_of_bind run₁
  obtain ⟨rfl, fits⟩ := unwrites_number 8 _ _ _ hlength
  obtain ⟨rfl, rfl, enough⟩ := eq_append_of_fill htext
  cases hd : Utf8.decode text with
  | error e =>
      rw [hd] at run₂
      cases run₂
  | ok s' =>
      rw [hd] at run₂
      cases run₂
      obtain rfl := Utf8.eq_encode_of_decode hd
      exact ⟨(List.append_assoc _ _ _).symm, fits, enough⟩

theorem unwrites_time : Unwrites decodeTime encodeTime TimeFits := by
  intro bs time rest run
  obtain ⟨mark, left₁, hmark, run₁⟩ := exists_of_bind run
  obtain ⟨rfl, -⟩ := unwrites_number 1 _ _ _ hmark
  split at run₁
  · cases run₁
    exact ⟨rfl, fun ms hms => by cases hms⟩
  · obtain ⟨ms, left₂, hms, run₂⟩ := exists_of_bind run₁
    obtain ⟨rfl, fits⟩ := unwrites_number 8 _ _ _ hms
    cases run₂
    refine ⟨rfl, fun ms' hms' => ?_⟩
    cases hms'
    exact fits
  · cases run₁

theorem unwrites_stamp : Unwrites decodeStamp encodeStamp Stamp.Fits := by
  intro bs stamp rest run
  obtain ⟨mark, left₁, hmark, run₁⟩ := exists_of_bind run
  obtain ⟨rfl, -⟩ := unwrites_number 4 _ _ _ hmark
  split at run₁
  · cases run₁
    exact ⟨rfl, trivial⟩
  · obtain ⟨length, left₂, hlength, run₂⟩ := exists_of_bind run₁
    obtain ⟨modified, left₃, hmodified, run₃⟩ := exists_of_bind run₂
    obtain ⟨rfl, fitsLength⟩ := unwrites_number 8 _ _ _ hlength
    obtain ⟨rfl, fitsModified⟩ := unwrites_time _ _ _ hmodified
    cases run₃
    exact ⟨by simp only [encodeStamp, List.append_assoc], fitsLength, fitsModified⟩
  · obtain ⟨classFiles, left₂, hfiles, run₂⟩ := exists_of_bind run₁
    obtain ⟨bytes, left₃, hbytes, run₃⟩ := exists_of_bind run₂
    obtain ⟨newest, left₄, hnewest, run₄⟩ := exists_of_bind run₃
    obtain ⟨rfl, fitsFiles⟩ := unwrites_number 8 _ _ _ hfiles
    obtain ⟨rfl, fitsBytes⟩ := unwrites_number 8 _ _ _ hbytes
    obtain ⟨rfl, fitsNewest⟩ := unwrites_time _ _ _ hnewest
    cases run₄
    exact ⟨by simp only [encodeStamp, List.append_assoc], fitsFiles, fitsBytes, fitsNewest⟩
  · cases run₁

theorem unwrites_fingerprint :
    Unwrites (decodeFingerprint room) encodeFingerprint (Fingerprint.Fits room) := by
  intro bs f rest run
  obtain ⟨version, left₁, hversion, run₁⟩ := exists_of_bind run
  obtain ⟨path, left₂, hpath, run₂⟩ := exists_of_bind run₁
  obtain ⟨stamp, left₃, hstamp, run₃⟩ := exists_of_bind run₂
  obtain ⟨rfl, fitsVersion⟩ := unwrites_number 4 _ _ _ hversion
  obtain ⟨rfl, fitsPath⟩ := unwrites_text _ _ _ hpath
  obtain ⟨rfl, fitsStamp⟩ := unwrites_stamp _ _ _ hstamp
  cases run₃
  exact ⟨by simp only [encodeFingerprint, List.append_assoc], fitsVersion, fitsPath, fitsStamp⟩

theorem unwrites_texts (count : Nat) : Unwrites (decodeTexts room count) (·.flatMap encodeText)
    fun names => names.length = count ∧ ∀ name ∈ names, TextFits room name := by
  induction count with
  | zero =>
      intro bs names rest run
      cases run
      exact ⟨rfl, rfl, fun _ hn => absurd hn List.not_mem_nil⟩
  | succ count ih =>
      intro bs names rest run
      obtain ⟨name, left₁, hname, run₁⟩ := exists_of_bind run
      obtain ⟨others, left₂, hothers, run₂⟩ := exists_of_bind run₁
      obtain ⟨rfl, fitsName⟩ := unwrites_text _ _ _ hname
      obtain ⟨rfl, rfl, fits⟩ := ih _ _ _ hothers
      cases run₂
      refine ⟨by simp only [List.flatMap_cons, List.append_assoc], rfl, fun n hn => ?_⟩
      rcases List.mem_cons.mp hn with rfl | hn
      · exact fitsName
      · exact fits n hn

/-! ## Records -/

/-- The bytes start with the record, its class names in some order and with some repetition, and a reader has room
for them. -/
def Record.Starts (room : Nat) (r : Record) (bs : Bytes) : Prop :=
  ∃ names rest, r.Lists room names ∧ bs = r.layout names ++ rest

theorem starts_of_decodeRecord {r : Record} (run : decodeRecord room bs = .ok (r, rest)) : r.Starts room bs := by
  obtain ⟨version, left₁, hversion, run₁⟩ := exists_of_bind run
  obtain ⟨fingerprint, left₂, hfingerprint, run₂⟩ := exists_of_bind run₁
  obtain ⟨scanMs, left₃, hscan, run₃⟩ := exists_of_bind run₂
  obtain ⟨classCount, left₄, hcount, run₄⟩ := exists_of_bind run₃
  obtain ⟨recordedAt, left₅, hrecorded, run₅⟩ := exists_of_bind run₄
  obtain ⟨classes, left₆, hclasses, run₆⟩ := exists_of_bind run₅
  obtain ⟨length, left₇, hlength, run₇⟩ := exists_of_bind hclasses
  obtain ⟨names, left₈, hnames, run₈⟩ := exists_of_bind run₇
  obtain ⟨rfl, fitsVersion⟩ := unwrites_number 4 _ _ _ hversion
  obtain ⟨rfl, fitsFingerprint⟩ := unwrites_fingerprint _ _ _ hfingerprint
  obtain ⟨rfl, fitsScan⟩ := unwrites_number 8 _ _ _ hscan
  obtain ⟨rfl, fitsCount⟩ := unwrites_number 4 _ _ _ hcount
  obtain ⟨rfl, fitsRecorded⟩ := unwrites_number 8 _ _ _ hrecorded
  obtain ⟨rfl, fitsLength⟩ := unwrites_number 8 _ _ _ hlength
  obtain ⟨rfl, rfl, fitsNames⟩ := unwrites_texts _ _ _ _ hnames
  cases run₈
  cases run₆
  have head : Record.HeadFits room ⟨version, fingerprint, scanMs, classCount, recordedAt, .ofList names⟩ :=
    ⟨fitsVersion, fitsFingerprint, fitsScan, fitsCount, fitsRecorded⟩
  refine ⟨names, rest, ⟨head, fitsLength, fitsNames, rfl⟩, ?_⟩
  simp only [Record.layout, Record.head, List.append_assoc]

theorem Record.decode_eq_ok_iff {r : Record} : Record.decode room bs = .ok r ↔ r.Starts room bs := by
  rw [Record.decode]
  constructor
  · intro h
    cases hd : decodeRecord room bs with
    | error e =>
        rw [hd] at h
        cases h
    | ok y =>
        rw [hd] at h
        cases h
        exact starts_of_decodeRecord hd
  · rintro ⟨names, rest, lists, rfl⟩
    rw [decodes_layout lists rest]
    rfl

theorem recordFor_eq_ok_iff {f : Fingerprint} {r : Record} :
    recordFor room f bs = .ok r ↔ r.Starts room bs ∧ r.version = currentVersion ∧ r.fingerprint = f := by
  rw [← Record.decode_eq_ok_iff]
  unfold recordFor
  constructor
  · intro h
    split at h
    · cases h
    · rename_i hd
      split at h
      · cases h
      · rename_i hv
        split at h
        · cases h
        · rename_i hf
          cases h
          exact ⟨hd, Decidable.not_not.mp hv, Decidable.not_not.mp hf⟩
  · rintro ⟨hd, hv, hf⟩
    rw [hd]
    dsimp only
    rw [if_neg (not_not_intro hv), if_neg (not_not_intro hf)]

/-! ## Stored records -/

theorem TextFits.widen {s : String} (h : TextFits room s) : TextFits (Bytes.capacity 8) s :=
  ⟨h.1, Nat.le_of_lt h.1⟩

/-- With room for every length that the fields hold, a record is read that is read with less. -/
theorem Record.Starts.widen {r : Record} (h : r.Starts room bs) : r.Starts (Bytes.capacity 8) bs := by
  obtain ⟨names, rest, lists, hbs⟩ := h
  refine ⟨names, rest, ?_, hbs⟩
  exact { lists with
    fingerprint := { lists.fingerprint with path := lists.fingerprint.path.widen }
    fit := fun name hname => (lists.fit name hname).widen }

/-- A stored record serves its own fingerprint and no other one, whatever room its reader has. -/
theorem recordFor_encode {f g : Fingerprint} {classes : ClassNameSet} {elapsedNs now : Nat}
    (hf : f.Fits (Bytes.capacity 8)) (hc : classes.Fits (Bytes.capacity 8)) {found : Record}
    (h : recordFor room g (recordOf f classes elapsedNs now).encode = .ok found) :
    g = f ∧ found.classes = classes := by
  obtain ⟨starts, -, hfound⟩ := recordFor_eq_ok_iff.mp h
  have decoded := Record.decode_eq_ok_iff.mpr starts.widen
  rw [Record.decode_encode (fits_recordOf hf hc elapsedNs now)] at decoded
  cases decoded
  exact ⟨hfound.symm, rfl⟩

end ClassScope.ClassIndex
