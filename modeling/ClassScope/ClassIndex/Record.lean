import ClassScope.ClassNameSet
import ClassScope.Digest
import ClassScope.Fingerprint

/-!
The record that an index file holds: the fingerprint of an entry and the class names found in it. Numbers
have a fixed width with the lowest byte first, a text is its length and its UTF-8 bytes, and a choice
starts with its number.
-/
namespace ClassScope.ClassIndex

structure Record where
  version : Nat
  fingerprint : Fingerprint
  scanMs : Nat
  classCount : Nat
  recordedAt : Nat
  classes : ClassNameSet
  deriving DecidableEq

inductive DecodeError where
  | cutOff
  /-- A buffer of that length is not given. With this the program ends, and no caller sees the error. -/
  | memory (length : Nat)
  | isDirectory
  | text (cause : Utf8.Error)
  /-- Neither the mark of a missing value nor that of a present one. -/
  | optionMark (found : Nat)
  | stampMark (found : Nat)
  deriving Repr, DecidableEq

def DecodeError.message : DecodeError → String
  | cutOff => "io error: failed to fill whole buffer"
  | memory length => s!"memory allocation of {length} bytes failed"
  | isDirectory => "io error: " ++ FileError.isDirectory.message
  | text cause => "string is not valid utf8: " ++ cause.message
  | optionMark found => s!"tag for enum is not valid, found {found}"
  | stampMark found => s!"invalid value: integer `{found}`, expected variant index 0 <= i < 3"

/-! ## Writing -/

def encodeText (s : String) : Bytes :=
  let text := Utf8.encode s
  Bytes.ofNat 8 text.length ++ text

def encodeTime : Option Nat → Bytes
  | none => [0]
  | some ms => 1 :: Bytes.ofNat 8 ms

def encodeStamp : Stamp → Bytes
  | .absent => Bytes.ofNat 4 0
  | .archive length modified => Bytes.ofNat 4 1 ++ Bytes.ofNat 8 length ++ encodeTime modified
  | .classTree classFiles bytes newest =>
      Bytes.ofNat 4 2 ++ Bytes.ofNat 8 classFiles ++ Bytes.ofNat 8 bytes ++ encodeTime newest

def encodeFingerprint (f : Fingerprint) : Bytes :=
  Bytes.ofNat 4 f.version ++ encodeText f.path ++ encodeStamp f.stamp

def encodeClasses (s : ClassNameSet) : Bytes :=
  Bytes.ofNat 8 s.size ++ s.names.flatMap encodeText

def Record.encode (r : Record) : Bytes :=
  Bytes.ofNat 4 r.version ++ encodeFingerprint r.fingerprint ++ Bytes.ofNat 8 r.scanMs ++
    Bytes.ofNat 4 r.classCount ++ Bytes.ofNat 8 r.recordedAt ++ encodeClasses r.classes

/-! ## Reading

The number of each decoder that reads a text is the length of the longest buffer that it is given.
-/

abbrev Decoder := StateT Bytes (Except DecodeError)

def take (n : Nat) : Decoder Bytes := fun bs =>
  match Bytes.take? n bs with
  | some r => .ok r
  | none => .error .cutOff

def number (width : Nat) : Decoder Nat :=
  Bytes.littleEndian <$> take width

/-- Reads into a buffer of that length, which is asked for before any byte is read. -/
def fill (room n : Nat) : Decoder Bytes :=
  if n ≤ room then take n else throw (.memory n)

def decodeText (room : Nat) : Decoder String := do
  let length ← number 8
  let bytes ← fill room length
  match Utf8.decode bytes with
  | .ok s => return s
  | .error e => throw (.text e)

def decodeTime : Decoder (Option Nat) := do
  match ← number 1 with
  | 0 => return none
  | 1 => return some (← number 8)
  | n => throw (.optionMark n)

def decodeStamp : Decoder Stamp := do
  match ← number 4 with
  | 0 => return .absent
  | 1 => return .archive (← number 8) (← decodeTime)
  | 2 => return .classTree (← number 8) (← number 8) (← decodeTime)
  | n => throw (.stampMark n)

def decodeFingerprint (room : Nat) : Decoder Fingerprint := do
  return ⟨← number 4, ← decodeText room, ← decodeStamp⟩

def decodeTexts (room : Nat) : Nat → Decoder (List String)
  | 0 => return []
  | n + 1 => do
      let s ← decodeText room
      let rest ← decodeTexts room n
      return s :: rest

/-- The number of the texts, unlike their lengths, asks for no memory. -/
def decodeClasses (room : Nat) : Decoder ClassNameSet := do
  let count ← number 8
  return ClassNameSet.ofList (← decodeTexts room count)

def decodeRecord (room : Nat) : Decoder Record := do
  return ⟨← number 4, ← decodeFingerprint room, ← number 8, ← number 4, ← number 8, ← decodeClasses room⟩

/-- The record at the front of some bytes; what follows it does not matter. -/
def Record.decode (room : Nat) (bs : Bytes) : Except DecodeError Record :=
  (decodeRecord room bs).map (·.1)

end ClassScope.ClassIndex

namespace ClassScope

/-- The digest by which the index file of an entry is named. -/
def Fingerprint.key (f : Fingerprint) : String :=
  Bytes.hex (Digest.hash (ClassIndex.encodeFingerprint f))

end ClassScope
