import ClassScope.ClassFile
import Mathlib.Algebra.GroupWithZero.Nat

/-!
# The layout of class files

A class file by its parts: the constants of its pool, numbered from slot 1, and what stands around them.
-/

namespace ClassScope.ClassFile

/-! ## Constants -/

/-- The constants that hold neither a text nor a class. -/
inductive Kind where
  | integer
  | float
  | long
  | double
  | string
  | field
  | method
  | interfaceMethod
  | nameAndType
  | methodHandle
  | methodType
  | dynamic
  | invokeDynamic
  | moduleName
  | packageName
  deriving Repr, DecidableEq

namespace Kind

def tag : Kind → UInt8
  | integer => 3
  | float => 4
  | long => 5
  | double => 6
  | string => 8
  | field => 9
  | method => 10
  | interfaceMethod => 11
  | nameAndType => 12
  | methodHandle => 15
  | methodType => 16
  | dynamic => 17
  | invokeDynamic => 18
  | moduleName => 19
  | packageName => 20

/-- How many bytes follow the tag: a slot takes two, a number four or eight. -/
def size : Kind → Nat
  | long | double => 8
  | integer | float | field | method | interfaceMethod | nameAndType | dynamic | invokeDynamic => 4
  | methodHandle => 3
  | string | methodType | moduleName | packageName => 2

def isWide (k : Kind) : Bool :=
  k = long || k = double

end Kind

/-- A constant as it stands in a class file. -/
inductive Constant where
  | text (payload : Bytes)
  | classAt (textSlot : Nat)
  | plain (kind : Kind) (content : Bytes)
  deriving Repr, DecidableEq

namespace Constant

def encode : Constant → Bytes
  | text payload => 1 :: (encodeNumber payload.length ++ payload)
  | classAt textSlot => 7 :: encodeNumber textSlot
  | plain kind content => kind.tag :: content

/-- Lengths and slots fit into two bytes, and all other content has the size of its kind. -/
def Fits : Constant → Prop
  | text payload => payload.length < Bytes.capacity 2
  | classAt textSlot => textSlot < Bytes.capacity 2
  | plain kind content => content.length = kind.size

def isWide : Constant → Bool
  | plain kind _ => kind.isWide
  | _ => false

/-- How many slots the constant takes. -/
def width (c : Constant) : Nat :=
  if c.isWide then 2 else 1

end Constant

/-! ## Runs of constants -/

/-- How many slots the constants take together. -/
def width (pool : List Constant) : Nat :=
  (pool.map Constant.width).sum

/-- The shortest run of constants that takes so many slots; the last one may take one slot too many. -/
def Fills (n : Nat) (pool : List Constant) : Prop :=
  n ≤ width pool ∧ ∀ before c after, pool = before ++ c :: after → width before < n

theorem width_cons (c : Constant) (pool : List Constant) : width (c :: pool) = c.width + width pool := by
  rw [width, List.map_cons, List.sum_cons, width]

theorem fills_nil {n : Nat} : Fills n [] ↔ n = 0 := by
  constructor
  · intro h
    exact Nat.le_zero.mp h.1
  · rintro rfl
    exact ⟨Nat.le_refl 0, fun before c after h => by simp at h⟩

theorem fills_cons {n : Nat} {c : Constant} {pool : List Constant} :
    Fills n (c :: pool) ↔ 0 < n ∧ Fills (n - c.width) pool := by
  have hw := width_cons c pool
  constructor
  · rintro ⟨hn, hshort⟩
    refine ⟨hshort [] c pool rfl, by omega, fun before d after h => ?_⟩
    have hb := hshort (c :: before) d after (by rw [h, List.cons_append])
    rw [width_cons] at hb
    omega
  · rintro ⟨hn, hle, hshort⟩
    refine ⟨by omega, fun before d after h => ?_⟩
    cases before with
    | nil => exact hn
    | cons b before =>
        obtain ⟨rfl, hpool⟩ := List.cons.inj h
        have hb := hshort before d after hpool
        rw [width_cons]
        omega

def encodeAll (pool : List Constant) : Bytes :=
  pool.flatMap Constant.encode

/-! ## Files -/

/-- The slot after those that a run of constants takes. -/
def nextSlot (pool : List Constant) : Nat :=
  1 + width pool

/-- A class file as its parts. The pool is the shortest that reaches its count. -/
structure File where
  version : Bytes
  count : Nat
  pool : List Constant
  access : Bytes
  thisClass : Nat
  rest : Bytes
  length_version : version.length = 4
  length_access : access.length = 2
  count_lt : count < Bytes.capacity 2
  thisClass_lt : thisClass < Bytes.capacity 2
  fits : ∀ c ∈ pool, c.Fits
  filled : count ≤ nextSlot pool
  shortest : ∀ before c after, pool = before ++ c :: after → nextSlot before < count

namespace File

def encode (f : File) : Bytes :=
  magic ++ f.version ++ encodeNumber f.count ++ encodeAll f.pool ++ f.access ++ encodeNumber f.thisClass ++
    f.rest

theorem fills (f : File) : Fills (f.count - 1) f.pool := by
  have hfilled := f.filled
  rw [nextSlot] at hfilled
  refine ⟨by omega, fun before c after h => ?_⟩
  have hshort := f.shortest before c after h
  rw [nextSlot] at hshort
  omega

/-- A file whose pool is read by the number of slots that are left to fill. -/
def ofFills {version access : Bytes} {count thisClass : Nat} {pool : List Constant}
    (hversion : version.length = 4) (haccess : access.length = 2) (hcount : count < Bytes.capacity 2)
    (hclass : thisClass < Bytes.capacity 2) (hfits : ∀ c ∈ pool, c.Fits) (h : Fills (count - 1) pool)
    (rest : Bytes) : File where
  version := version
  count := count
  pool := pool
  access := access
  thisClass := thisClass
  rest := rest
  length_version := hversion
  length_access := haccess
  count_lt := hcount
  thisClass_lt := hclass
  fits := hfits
  filled := Nat.sub_le_iff_le_add'.mp h.1
  shortest := fun before c after hpool => Nat.add_lt_of_lt_sub' (h.2 before c after hpool)

end File

end ClassScope.ClassFile
