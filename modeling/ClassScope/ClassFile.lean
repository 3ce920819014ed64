import ClassScope.Bytes
import ClassScope.ClassName
import ClassScope.Text.Utf8

/-!
The name of the class that a class file defines. Only the header, the constant pool and the two numbers
after it are read: the class names its own constant by slot, and that constant names its text by slot.
-/
namespace ClassScope.ClassFile

inductive Error where
  | unexpectedEnd
  | invalidMagic
  | unsupportedConstant (tag : Nat)
  | invalidSlot (slot : Nat)
  | malformedText (cause : Utf8.Error)
  deriving Repr, DecidableEq

def Error.message : Error → String
  | unexpectedEnd => "unexpected end of class file"
  | invalidMagic => "invalid class file magic header"
  | unsupportedConstant tag => s!"unsupported constant pool tag {tag}"
  | invalidSlot slot => s!"invalid constant pool index {slot}"
  | malformedText cause => "invalid UTF-8 string in constant pool: " ++ cause.message

/-- What a slot of the constant pool holds, as far as the class name depends on it. -/
inductive Slot where
  | text (cs : List Char)
  | classAt (textSlot : Nat)
  | other
  deriving Repr, DecidableEq

/-! ## Reading -/

def take (n : Nat) (bs : Bytes) : Except Error (Bytes × Bytes) :=
  match Bytes.take? n bs with
  | some r => .ok r
  | none => .error .unexpectedEnd

def number (bs : Bytes) : Except Error (Nat × Bytes) :=
  (take 2 bs).map fun (front, rest) => (Bytes.bigEndian front, rest)

/-- How many bytes follow the tag of a constant whose content does not matter here. -/
def plainSize? : Nat → Option Nat
  | 3 | 4 | 9 | 10 | 11 | 12 | 17 | 18 => some 4
  | 5 | 6 => some 8
  | 8 | 16 | 19 | 20 => some 2
  | 15 => some 3
  | _ => none

/-- Constants of eight bytes take two slots, all others one. -/
def isWide (tag : Nat) : Bool :=
  tag = 5 || tag = 6

/-- One constant, whether it takes two slots, and what follows it. -/
def constant (bs : Bytes) : Except Error (Slot × Bool × Bytes) := do
  let (front, bs) ← take 1 bs
  let tag := Bytes.littleEndian front
  if tag = 1 then
    let (length, bs) ← number bs
    let (payload, bs) ← take length bs
    match Utf8.decodeChars payload with
    | .ok cs => return (.text cs, false, bs)
    | .error cause => throw (.malformedText cause)
  else if tag = 7 then
    let (slot, bs) ← number bs
    return (.classAt slot, false, bs)
  else
    match plainSize? tag with
    | some size =>
        let (_, bs) ← take size bs
        return (.other, isWide tag, bs)
    | none => throw (.unsupportedConstant tag)

/-- Constants until `n` slots are filled; the last one may fill one slot too many. -/
def constants : Nat → Bytes → Except Error (List Slot × Bytes)
  | 0, bs => .ok ([], bs)
  | 1, bs => do
      let (slot, wide, bs) ← constant bs
      return (if wide then [slot, .other] else [slot], bs)
  | n + 2, bs => do
      let (slot, wide, bs) ← constant bs
      if wide then
        let (slots, bs) ← constants n bs
        return (slot :: .other :: slots, bs)
      else
        let (slots, bs) ← constants (n + 1) bs
        return (slot :: slots, bs)

/-- The text that the class constant in a slot points to. -/
def className (pool : List Slot) (slot : Nat) : Except Error (List Char) :=
  match pool[slot]? with
  | some (.classAt textSlot) =>
      match pool[textSlot]? with
      | some (.text cs) => .ok cs
      | _ => .error (.invalidSlot textSlot)
  | _ => .error (.invalidSlot slot)

def magic : Bytes := [0xCA, 0xFE, 0xBA, 0xBE]

/-- The fully-qualified name of the class that the bytes define. Slot 0 is never filled. -/
def readName (bs : Bytes) : Except Error String := do
  let (front, bs) ← take 4 bs
  if front ≠ magic then throw .invalidMagic
  let (_, bs) ← take 2 bs
  let (_, bs) ← take 2 bs
  let (count, bs) ← number bs
  let (slots, bs) ← constants (count - 1) bs
  let (_, bs) ← take 2 bs
  let (thisClass, _) ← number bs
  let cs ← className (.other :: slots) thisClass
  return String.ofList (ClassName.dotted cs)

/-! ## Writing -/

def encodeNumber (n : Nat) : Bytes :=
  (Bytes.ofNat 2 n).reverse

/-- The smallest class file that defines the named class: one text and one class constant. -/
def encode (name : String) : Bytes :=
  let text := Utf8.encode name
  magic ++ [0, 0, 0, 0x34] ++ encodeNumber 3 ++ [1] ++ encodeNumber text.length ++ text ++
    [7] ++ encodeNumber 1 ++ [0, 0x21] ++ encodeNumber 2 ++ [0, 0]

end ClassScope.ClassFile
