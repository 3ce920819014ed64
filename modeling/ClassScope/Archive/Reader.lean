import ClassScope.Text.CodePage
import ClassScope.Text.Utf8

/-!
The names that an archive lists. An archive ends in a record that says where its directory stands; the
directory has one record for each entry. Nothing else of the archive is read. Bytes in front of an
archive shift all its offsets, so the shift is worked out first.
-/
namespace ClassScope.Archive

inductive Error where
  | tooShort
  | noEnd
  /-- The file ends inside a record. -/
  | cutOff
  | severalDisks
  | badBounds
  | noRoomForLongEnd
  | noLongEnd
  | startOutOfReach
  | badEntry
  | cipherLength
  | cipherVendor
  | cipherVersion
  | cipherStrength
  | cipherMissing
  | headerOutOfReach
  deriving Repr, DecidableEq

def Error.message : Error → String
  | tooShort => "invalid Zip archive: Invalid zip header"
  | noEnd => "invalid Zip archive: Could not find central directory end"
  | cutOff => "failed to fill whole buffer"
  | severalDisks => "unsupported Zip archive: Support for multi-disk files is not implemented"
  | badBounds => "invalid Zip archive: Invalid central directory size or offset"
  | noRoomForLongEnd => "invalid Zip archive: File cannot contain ZIP64 central directory end"
  | noLongEnd => "invalid Zip archive: Could not find ZIP64 central directory end"
  | startOutOfReach => "invalid Zip archive: Could not seek to start of central directory"
  | badEntry => "invalid Zip archive: Invalid Central Directory header"
  | cipherLength => "unsupported Zip archive: AES extra data field has an unsupported length"
  | cipherVendor => "invalid Zip archive: Invalid AES vendor"
  | cipherVersion => "invalid Zip archive: Invalid AES vendor version"
  | cipherStrength => "invalid Zip archive: Invalid AES encryption strength"
  | cipherMissing => "invalid Zip archive: AES encryption without AES extra data field"
  | headerOutOfReach => "invalid Zip archive: Archive header is too large"

/-! ## Records -/

def localSignature : Bytes := [0x50, 0x4B, 3, 4]
def entrySignature : Bytes := [0x50, 0x4B, 1, 2]
def endSignature : Bytes := [0x50, 0x4B, 5, 6]
def longEndSignature : Bytes := [0x50, 0x4B, 6, 6]
def locatorSignature : Bytes := [0x50, 0x4B, 6, 7]

/-- The greatest number of two and of four bytes; they stand for a number kept elsewhere. -/
def all16 : Nat := 0xFFFF
def all32 : Nat := 0xFFFFFFFF

abbrev Reader := StateT Bytes (Except Error)

def take (n : Nat) : Reader Bytes := fun bs =>
  match Bytes.take? n bs with
  | some r => .ok r
  | none => .error .cutOff

def number (width : Nat) : Reader Nat :=
  Bytes.littleEndian <$> take width

/-- The positions at which a signature stands, in ascending order. -/
def positions (signature : Bytes) (pos : Nat) : Bytes → List Nat
  | [] => []
  | b :: bs =>
      if signature.isPrefixOf (b :: bs) then pos :: positions signature (pos + 1) bs
      else positions signature (pos + 1) bs

/-! ## The end of the archive -/

structure End where
  disk : Nat
  directoryDisk : Nat
  entriesHere : Nat
  entries : Nat
  size : Nat
  offset : Nat
  comment : Nat
  deriving Repr, DecidableEq

def endSize : Nat := 22
def longEndSize : Nat := 56
def locatorSize : Nat := 20

def readEnd : Reader End := do
  let _ ← take 4
  let disk ← number 2
  let directoryDisk ← number 2
  let entriesHere ← number 2
  let entries ← number 2
  let size ← number 4
  let offset ← number 4
  let comment ← number 2
  let _ ← take comment
  return ⟨disk, directoryDisk, entriesHere, entries, size, offset, comment⟩

def End.overflows (e : End) : Bool :=
  e.disk = all16 || e.directoryDisk = all16 || e.entriesHere = all16 || e.entries = all16 ||
    e.size = all32 || e.offset = all32

/-- The position of the end record: the last one after which no more than a comment fits. -/
def endPosition (bs : Bytes) : Except Error Nat :=
  if bs.length < endSize then .error .tooShort
  else
    let last := bs.length - endSize
    let inReach (pos : Nat) : Bool := last - all16 ≤ pos && pos ≤ last
    match ((positions endSignature 0 bs).filter inReach).getLast? with
    | some pos => .ok pos
    | none => .error .noEnd

/-- Where a directory starts, how many records it has, and by how much all offsets are too small. -/
structure Extent where
  start : Nat
  count : Nat
  shift : Nat
  deriving Repr, DecidableEq

/-- The extent when the end record holds it itself. -/
def End.extent (e : End) (pos : Nat) : Except Error Extent :=
  if pos < e.size + e.offset then .error .badBounds
  else .ok ⟨pos - e.size, e.entriesHere, pos - e.size - e.offset⟩

/-- What points to the long end record: the disk it is on and its offset. -/
structure Locator where
  disk : Nat
  offset : Nat
  deriving Repr, DecidableEq

/-- The locator stands right before the end record, if anywhere. -/
def locator? (bs : Bytes) (e : End) : Except Error (Option Locator) :=
  let back := locatorSize + endSize + e.comment
  if bs.length < back then .ok none
  else
    let rest := bs.drop (bs.length - back)
    if ¬ locatorSignature.isPrefixOf rest then .ok none
    else
      let read : Reader Locator := do
        let _ ← take 4
        let disk ← number 4
        let offset ← number 8
        let _ ← number 4
        return ⟨disk, offset⟩
      (read rest).map fun (l, _) => some l

/-- The disk numbers, the count and the offset of a long end record. -/
structure LongEnd where
  disk : Nat
  directoryDisk : Nat
  entries : Nat
  offset : Nat
  deriving Repr, DecidableEq

def readLongEnd : Reader LongEnd := do
  let _ ← take 4
  let _ ← take 8
  let _ ← take 4
  let disk ← number 4
  let directoryDisk ← number 4
  let _ ← number 8
  let entries ← number 8
  let _ ← number 8
  let offset ← number 8
  return ⟨disk, directoryDisk, entries, offset⟩

/-- The extent when a long end record holds it, which is searched from where it should stand. -/
def Locator.extent (l : Locator) (bs : Bytes) (pos : Nat) : Except Error Extent := do
  if pos < longEndSize + 4 then throw .noRoomForLongEnd
  let last := pos - (longEndSize + 4)
  let inReach (p : Nat) : Bool := l.offset ≤ p && p ≤ last
  match (positions longEndSignature 0 bs).find? inReach with
  | none => throw .noLongEnd
  | some found =>
      let (e, _) ← readLongEnd (bs.drop found)
      if e.disk ≠ e.directoryDisk then throw .severalDisks
      let shift := found - l.offset
      if e.offset + shift ≥ Bytes.capacity 8 then throw .badBounds
      return ⟨e.offset + shift, e.entries, shift⟩

def extent (bs : Bytes) : Except Error Extent := do
  let pos ← endPosition bs
  let (e, _) ← readEnd (bs.drop pos)
  if ¬ e.overflows ∧ e.disk ≠ e.directoryDisk then throw .severalDisks
  match ← locator? bs e with
  | none => e.extent pos
  | some l =>
      if ¬ e.overflows ∧ e.disk ≠ l.disk then throw .severalDisks
      l.extent bs pos

/-! ## The directory -/

/-- What extra fields may change in an entry. -/
structure Details where
  method : Nat
  size : Nat
  compressed : Nat
  header : Nat
  cipher : Bool := false
  deriving Repr, DecidableEq

def cipherMethod : Nat := 99

/-- Reads a number of eight bytes in the place of one that did not fit. Also says how many bytes that
took; none when the extra fields end first. -/
def longer (value : Nat) (bs : Bytes) : Option (Nat × Nat × Bytes) :=
  if value = all32 then (Bytes.number? 8 bs).map fun (n, rest) => (n, 8, rest)
  else some (value, 0, bs)

/-- What the extra field with long sizes changes, how much of it was read, and the rest. Where the bytes
end, the numbers already read count. -/
def readLong (d : Details) (bs : Bytes) : Details × Option (Nat × Bytes) :=
  match longer d.size bs with
  | none => (d, none)
  | some (size, n₁, bs) =>
      let d := { d with size }
      match longer d.compressed bs with
      | none => (d, none)
      | some (compressed, n₂, bs) =>
          let d := { d with compressed }
          match longer d.header bs with
          | none => (d, none)
          | some (header, n₃, bs) => ({ d with header }, some (n₁ + n₂ + n₃, bs))

/-- What the extra field of enciphered entries changes, and the rest; no rest where the bytes end. -/
def readCipher (d : Details) (length : Nat) (bs : Bytes) : Except Error (Details × Option Bytes) :=
  if length ≠ 7 then .error .cipherLength
  else
    match Bytes.take? 7 bs with
    | none => .ok (d, none)
    | some (field, rest) =>
        let version := Bytes.littleEndian (field.take 2)
        let vendor := Bytes.littleEndian ((field.drop 2).take 2)
        let strength := Bytes.littleEndian ((field.drop 4).take 1)
        if vendor ≠ 0x4541 then .error .cipherVendor
        else if version ≠ 1 ∧ version ≠ 2 then .error .cipherVersion
        else if strength < 1 ∨ 3 < strength then .error .cipherStrength
        else .ok ({ d with method := Bytes.littleEndian (field.drop 5), cipher := true }, some rest)

/-- Goes through extra fields, of which the number bounds how many there are. The walk ends where a field
is cut off. After the field of an enciphered entry it goes on one field length later. -/
def readExtra : Nat → Details → Bytes → Except Error Details
  | 0, d, _ => .ok d
  | bound + 1, d, bs =>
      match Bytes.number? 2 bs with
      | none => .ok d
      | some (kind, bs) =>
          match Bytes.number? 2 bs with
          | none => .ok d
          | some (length, bs) =>
              if kind = 1 then
                match readLong d bs with
                | (d, none) => .ok d
                | (d, some (n, bs)) => readExtra bound d (bs.drop (length - n))
              else if kind = 0x9901 then
                match readCipher d length bs with
                | .error e => .error e
                | .ok (d, none) => .ok d
                | .ok (d, some bs) => readExtra bound d (bs.drop length)
              else readExtra bound d (bs.drop length)

/-- Bit 11 of the flags says that a name is UTF-8. -/
def decodeName (flags : Nat) (bs : Bytes) : String :=
  if flags.testBit 11 then Utf8.lossy bs else CodePage.decode bs

def readEntry (shift : Nat) : Reader String := do
  let signature ← take 4
  if signature ≠ entrySignature then throw .badEntry
  let _ ← take 4
  let flags ← number 2
  let method ← number 2
  let _ ← take 8
  let compressed ← number 4
  let size ← number 4
  let nameLength ← number 2
  let extraLength ← number 2
  let commentLength ← number 2
  let _ ← take 8
  let header ← number 4
  let name ← take nameLength
  let extra ← take extraLength
  let _ ← take commentLength
  let d ← readExtra extra.length { method, size, compressed, header } extra
  if d.method = cipherMethod ∧ ¬ d.cipher then throw .cipherMissing
  if d.header + shift ≥ Bytes.capacity 8 then throw .headerOutOfReach
  return decodeName flags name

def readEntries (shift : Nat) : Nat → Reader (List String)
  | 0 => return []
  | count + 1 => do
      let name ← readEntry shift
      let names ← readEntries shift count
      return name :: names

/-- The names that an archive lists, in the order of its directory. -/
def names (bs : Bytes) : Except Error (List String) := do
  let e ← extent bs
  if e.start ≥ Bytes.capacity 8 / 2 then throw .startOutOfReach
  let (names, _) ← readEntries e.shift e.count (bs.drop e.start)
  return names

end ClassScope.Archive
