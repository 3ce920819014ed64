import ClassScope.Bytes

/-!
UTF-8 read one byte at a time. A strict reading reports where the text stops being well-formed and how
long the longest beginning of a character there is; a lenient reading puts one replacement character
in the place of each such part.
-/
namespace ClassScope.Utf8

/-- Where a byte sequence stops being UTF-8. -/
structure Error where
  /-- How many bytes before it form whole characters. -/
  validUpTo : Nat
  /-- Length of the part that begins no character; none when the bytes end inside one. -/
  malformed : Option Nat
  deriving Repr, DecidableEq

def Error.message (e : Error) : String :=
  match e.malformed with
  | some n => s!"invalid utf-8 sequence of {n} bytes from index {e.validUpTo}"
  | none => s!"incomplete utf-8 byte sequence from index {e.validUpTo}"

/-! ## Writing -/

def encodeChar (c : Char) : Bytes :=
  let n := c.toNat
  if n < 0x80 then [n.toUInt8]
  else if n < 0x800 then [(0xC0 + n / 64).toUInt8, (0x80 + n % 64).toUInt8]
  else if n < 0x10000 then
    [(0xE0 + n / 4096).toUInt8, (0x80 + n / 64 % 64).toUInt8, (0x80 + n % 64).toUInt8]
  else
    [(0xF0 + n / 262144).toUInt8, (0x80 + n / 4096 % 64).toUInt8, (0x80 + n / 64 % 64).toUInt8,
      (0x80 + n % 64).toUInt8]

def encodeChars (cs : List Char) : Bytes :=
  cs.flatMap encodeChar

def encode (s : String) : Bytes :=
  encodeChars s.toList

/-! ## Reading -/

/-- A character begun but not finished. -/
structure Partial where
  /-- Bytes still missing after the next one. -/
  more : Nat
  /-- Bounds of the next byte. -/
  low : UInt8
  high : UInt8
  value : Nat
  seen : Nat
  deriving Repr, DecidableEq

/-- What a byte at the beginning of a character does. -/
inductive Opening where
  | char (c : Char)
  | lead (p : Partial)
  | bad
  deriving Repr, DecidableEq

/-- The bounds of the second byte shut out overlong forms, surrogates and values past U+10FFFF. -/
def opening (b : UInt8) : Opening :=
  if b < 0x80 then .char (Char.ofNat b.toNat)
  else if b < 0xC2 then .bad
  else if b < 0xE0 then .lead ⟨0, 0x80, 0xBF, b.toNat - 0xC0, 1⟩
  else if b = 0xE0 then .lead ⟨1, 0xA0, 0xBF, 0, 1⟩
  else if b = 0xED then .lead ⟨1, 0x80, 0x9F, 13, 1⟩
  else if b < 0xF0 then .lead ⟨1, 0x80, 0xBF, b.toNat - 0xE0, 1⟩
  else if b = 0xF0 then .lead ⟨2, 0x90, 0xBF, 0, 1⟩
  else if b < 0xF4 then .lead ⟨2, 0x80, 0xBF, b.toNat - 0xF0, 1⟩
  else if b = 0xF4 then .lead ⟨2, 0x80, 0x8F, 4, 1⟩
  else .bad

/-- What a byte inside a character does. -/
def Partial.next (p : Partial) (b : UInt8) : Opening :=
  if p.low ≤ b ∧ b ≤ p.high then
    let value := p.value * 64 + (b.toNat - 0x80)
    match p.more with
    | 0 => .char (Char.ofNat value)
    | more + 1 => .lead ⟨more, 0x80, 0xBF, value, p.seen + 1⟩
  else .bad

/-- Strict reading from inside `state`; `start` is the index of the character being read. -/
def decodeFrom (state : Option Partial) (start : Nat) : Bytes → Except Error (List Char)
  | [] => if state.isNone then .ok [] else .error ⟨start, none⟩
  | b :: bs =>
      let seen := (state.map Partial.seen).getD 0
      match (match state with | none => opening b | some p => p.next b) with
      | .char c => (decodeFrom none (start + seen + 1) bs).map (c :: ·)
      | .lead p => decodeFrom (some p) start bs
      | .bad => .error ⟨start, some (max seen 1)⟩

def decodeChars (bs : Bytes) : Except Error (List Char) :=
  decodeFrom none 0 bs

def decode (bs : Bytes) : Except Error String :=
  (decodeChars bs).map String.ofList

/-- The sign that stands for bytes which are no character. -/
def replacement : Char := '\uFFFD'

/-- Lenient reading from inside `state`: a byte that cannot go on begins anew. -/
def lossyFrom (state : Option Partial) : Bytes → List Char
  | [] => if state.isNone then [] else [replacement]
  | b :: bs =>
      match state.elim .bad (·.next b) with
      | .char c => c :: lossyFrom none bs
      | .lead p => lossyFrom (some p) bs
      | .bad =>
          let broken := if state.isNone then [] else [replacement]
          match opening b with
          | .char c => broken ++ c :: lossyFrom none bs
          | .lead p => broken ++ lossyFrom (some p) bs
          | .bad => broken ++ replacement :: lossyFrom none bs

def lossy (bs : Bytes) : String :=
  String.ofList (lossyFrom none bs)

end ClassScope.Utf8
