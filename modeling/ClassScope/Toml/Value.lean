import ClassScope.Number.Double

/-!
Values of a TOML document. A table remembers how it came to be, because that decides what later lines
may still add to it.
-/
namespace ClassScope.Toml

/-- How a table came to be. -/
inductive Origin where
  /-- It stands in braces and is complete. -/
  | inline
  /-- It has a header of its own. -/
  | header
  /-- It is only named as a part of longer headers. -/
  | implied
  /-- A dotted key made it. -/
  | dotted
  deriving Repr, DecidableEq

inductive Value where
  | text (s : String)
  | integer (n : Int)
  | real (x : Double)
  | boolean (b : Bool)
  /-- A date, a time or both. -/
  | moment
  | array (items : List Value)
  | table (origin : Origin) (entries : List (String × Value))
  | tables (items : List (List (String × Value)))
  deriving Repr, Inhabited

/-- The entries of a table, in the order in which they were made. -/
abbrev Entries := List (String × Value)

/-- A key of one or more parts: the tables it leads through and its name in the last of them. -/
structure Key where
  parents : List String
  name : String
  deriving Repr, DecidableEq

namespace Entries

def find? (name : String) (es : Entries) : Option Value :=
  List.lookup name es

def has (name : String) (es : Entries) : Bool :=
  es.any (·.1 = name)

/-- Puts a value in the place of the one with that name. -/
def replace (name : String) (v : Value) (es : Entries) : Entries :=
  es.map fun e => if e.1 = name then (name, v) else e

def erase (name : String) (es : Entries) : Entries :=
  es.filter (·.1 ≠ name)

/-- Adds a value under a dotted key. A table on the way is made when it is missing, and must be open
when it is there: a table in braces or with a header is complete, and a table that only longer headers
name takes no key directly. -/
def assign (name : String) (v : Value) : List String → Entries → Option Entries
  | [], es => if has name es then none else some (es ++ [(name, v)])
  | parent :: path, es =>
      match find? parent es with
      | none => (assign name v path []).map fun sub => es ++ [(parent, .table .dotted sub)]
      | some (.table origin sub) =>
          if origin = .dotted ∨ (origin = .implied ∧ path ≠ []) then
            (assign name v path sub).map fun sub => replace parent (.table origin sub) es
          else none
      | some (.tables items) =>
          match path, items.getLast? with
          | _ :: _, some sub =>
              (assign name v path sub).map fun sub =>
                replace parent (.tables (items.dropLast ++ [sub])) es
          | _, _ => none
      | some _ => none

/-- Runs `f` on the table that a header's leading parts name. Missing tables on the way are made, and
of repeated tables the last one is meant. -/
def within {α : Type} (f : Entries → Option (α × Entries)) :
    List String → Entries → Option (α × Entries)
  | [], es => f es
  | parent :: path, es =>
      match find? parent es with
      | none => (within f path []).map fun (a, sub) => (a, es ++ [(parent, .table .implied sub)])
      | some (.table .inline _) => none
      | some (.table origin sub) =>
          (within f path sub).map fun (a, sub) => (a, replace parent (.table origin sub) es)
      | some (.tables items) =>
          match items.getLast? with
          | some sub =>
              (within f path sub).map fun (a, sub) =>
                (a, replace parent (.tables (items.dropLast ++ [sub])) es)
          | none => none
      | some _ => none

end Entries

end ClassScope.Toml
