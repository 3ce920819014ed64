/-!
Class names: which class an archive entry or a file below a class directory defines, and the simple and
package parts of a fully-qualified name.
-/
namespace ClassScope.ClassName

/-- What follows the last separator, or everything when there is none. -/
def lastPart (sep : Char) (cs : List Char) : List Char :=
  (cs.reverse.takeWhile (· != sep)).reverse

/-- What precedes the last separator, or nothing when there is none. -/
def initialPart (sep : Char) (cs : List Char) : List Char :=
  ((cs.reverse.dropWhile (· != sep)).drop 1).reverse

/-- The text before `ending`, when the text ends in it. -/
def dropEnding? (ending cs : List Char) : Option (List Char) :=
  if ending.isSuffixOf cs then some (cs.take (cs.length - ending.length)) else none

/-- Slashes become dots. -/
def dotted (cs : List Char) : List Char :=
  cs.map fun c => if c = '/' then '.' else c

/-- A simple name that a top-level class can have: nested and anonymous classes carry a dollar sign, and
`module-info` and `package-info` are descriptors. -/
def IsTopLevel (simple : List Char) : Prop :=
  '$' ∉ simple ∧ simple ≠ "module-info".toList ∧ simple ≠ "package-info".toList

instance (simple : List Char) : Decidable (IsTopLevel simple) :=
  inferInstanceAs (Decidable (_ ∧ _ ∧ _))

/-- The top-level class that a slash-separated relative path defines. Nothing below `META-INF/` counts. -/
def ofEntryChars? (entry : List Char) : Option (List Char) :=
  if "META-INF/".toList.isPrefixOf entry then none
  else
    match dropEnding? ".class".toList entry with
    | none => none
    | some stem =>
        let simple := lastPart '/' stem
        if simple ≠ [] ∧ IsTopLevel simple then some (dotted stem) else none

def ofEntry? (entry : String) : Option String :=
  (ofEntryChars? entry.toList).map String.ofList

/-- The part of a qualified name after its last dot. -/
def simple (name : String) : String :=
  String.ofList (lastPart '.' name.toList)

/-- The part of a qualified name before its last dot. -/
def package (name : String) : String :=
  String.ofList (initialPart '.' name.toList)

structure Parts where
  simple : String
  qualified : String
  package : String
  deriving Repr, DecidableEq

def parts (name : String) : Parts :=
  ⟨simple name, name, package name⟩

/-- By simple name, then qualified name, then package. -/
def Parts.le (a b : Parts) : Bool :=
  if a.simple ≠ b.simple then a.simple < b.simple
  else if a.qualified ≠ b.qualified then a.qualified < b.qualified
  else a.package ≤ b.package

end ClassScope.ClassName
