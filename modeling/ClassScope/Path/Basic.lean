import ClassScope.Text.Utf8

/-!
Paths as they are written. A path is a row of bytes with slashes; what it names is its components, so
repeated slashes, a slash at the end and inner single dots make no difference.
-/
namespace ClassScope

structure Path where
  bytes : Bytes
  deriving Repr, DecidableEq, Inhabited

namespace Path

def slash : UInt8 := 0x2F
def dot : UInt8 := 0x2E

/-- A part of a path. A single dot counts only where a relative path starts with it. -/
inductive Component where
  | root
  | here
  | up
  | name (bytes : Bytes)
  deriving Repr, DecidableEq

def ofString (s : String) : Path :=
  ⟨Utf8.encode s⟩

/-- The path for a message: bytes that are no UTF-8 show as replacement characters. -/
def display (p : Path) : String :=
  Utf8.lossy p.bytes

def isAbsolute (p : Path) : Bool :=
  p.bytes.head? = some slash

def isEmpty (p : Path) : Bool :=
  p.bytes.isEmpty

/-! ## Components -/

/-- The parts between slashes, empty ones included; there is at least one. -/
def split : Bytes → List Bytes
  | [] => [[]]
  | b :: bs =>
      if b = slash then [] :: split bs
      else
        match split bs with
        | part :: parts => (b :: part) :: parts
        | [] => [[b]]

/-- What a part stands for after the first one. -/
def component? (part : Bytes) : Option Component :=
  if part = [] ∨ part = [dot] then none
  else if part = [dot, dot] then some .up
  else some (.name part)

def components (p : Path) : List Component :=
  match split p.bytes with
  | [] => []
  | first :: rest =>
      let start :=
        if p.isAbsolute then [.root]
        else if first = [dot] then [.here]
        else (component? first).toList
      start ++ rest.filterMap component?

/-- The rank of a component: roots, single dots, double dots, then names by their bytes. -/
def Component.code : Component → List Nat
  | .root => [0]
  | .here => [1]
  | .up => [2]
  | .name bytes => 3 :: bytes.map UInt8.toNat

/-- Paths are ordered by this, component by component. -/
def code (p : Path) : List (List Nat) :=
  p.components.map Component.code

/-- Two spellings of one path. -/
def Same (p q : Path) : Prop :=
  p.components = q.components

instance (p q : Path) : Decidable (Same p q) :=
  inferInstanceAs (Decidable (_ = _))

theorem Component.code_injective {a b : Component} (h : a.code = b.code) : a = b := by
  have names {x y : Bytes} (h : x.map UInt8.toNat = y.map UInt8.toNat) : x = y :=
    (List.map_inj_right fun _ _ => UInt8.toNat_inj.mp).mp h
  cases a <;> cases b <;> simp_all [code]
  exact names h

theorem same_iff_code {p q : Path} : Same p q ↔ p.code = q.code :=
  ⟨congrArg (List.map Component.code),
    fun h => (List.map_inj_right fun _ _ => Component.code_injective).mp h⟩

/-! ## Putting together and taking apart -/

/-- The path `q` seen from `p`. -/
def join (p q : Path) : Path :=
  if q.isAbsolute ∨ p.isEmpty then q
  else if p.bytes.getLast? = some slash then ⟨p.bytes ++ q.bytes⟩
  else ⟨p.bytes ++ slash :: q.bytes⟩

/-- The path that leads from `p` down through the names. -/
def descend (p : Path) (names : List Bytes) : Path :=
  names.foldl (fun q name => q.join ⟨name⟩) p

/-- Drops parts at the end that name nothing. -/
def trimEnd (parts : List Bytes) : List Bytes :=
  (parts.reverse.dropWhile fun part => (component? part).isNone).reverse

def glue (parts : List Bytes) : Bytes :=
  [slash].intercalate parts

/-- The path without its last component; none for the root and the empty path. -/
def parent? (p : Path) : Option Path :=
  match split p.bytes with
  | [] => none
  | first :: rest =>
      match trimEnd rest with
      | [] => if first = [] then none else some ⟨[]⟩
      | last :: before =>
          let before := trimEnd (last :: before).dropLast
          if first = [] ∧ before = [] then some ⟨[slash]⟩ else some ⟨glue (first :: before)⟩

def fileName? (p : Path) : Option Bytes :=
  match p.components.getLast? with
  | some (.name bytes) => some bytes
  | _ => none

/-- What follows the last dot of a name; none when there is no dot but at the start. -/
def extensionOf? (name : Bytes) : Option Bytes :=
  let after := (name.reverse.takeWhile (· ≠ dot)).reverse
  if name.length ≤ after.length + 1 then none else some after

def extension? (p : Path) : Option Bytes :=
  p.fileName?.bind extensionOf?

end Path

end ClassScope
