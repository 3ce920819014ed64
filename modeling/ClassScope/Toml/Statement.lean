import ClassScope.Toml.Number

/-!
The lines of a TOML document: assignments and headers. Arrays and tables in braces nest less deeply than
`nesting`, and a key has fewer parts than that.
-/
namespace ClassScope.Toml

/-- Neither nesting nor the parts of a key reach this number. -/
def nesting : Nat := 80

inductive Statement where
  | assign (key : Key) (value : Value)
  | header (key : Key)
  | item (key : Key)
  deriving Repr

namespace Statement

/-! ## Blanks, comments and line ends -/

def skipBlanks (cs : List Char) : List Char :=
  cs.dropWhile isBlank

/-- Skips blanks, line ends and comments. -/
def skipGap (comment : Bool) : List Char → List Char
  | [] => []
  | '\r' :: '\n' :: cs => skipGap false cs
  | c :: cs =>
      if c = '\n' then skipGap false cs
      else if isBlank c ∨ (comment ∧ isPlain c) then skipGap comment cs
      else if c = '#' then skipGap true cs
      else c :: cs

/-- What follows the line, when nothing but blanks and a comment are left on it. -/
def lineEnd? (comment : Bool) : List Char → Option (List Char)
  | [] => some []
  | '\r' :: '\n' :: cs => some cs
  | c :: cs =>
      if c = '\n' then some cs
      else if isBlank c ∨ (comment ∧ isPlain c) then lineEnd? comment cs
      else if c = '#' then lineEnd? true cs
      else none

/-! ## Keys -/

def isBare (c : Char) : Bool :=
  c.isAlphanum || c = '_' || c = '-'

/-- One part of a key, with the blanks around it. -/
def keyPart? (cs : List Char) : Option (String × List Char) := do
  let cs := skipBlanks cs
  let (name, rest) ← match cs with
    | '"' :: _ | '\'' :: _ => Text.readLine? cs
    | cs =>
        let name := cs.takeWhile isBare
        if name.isEmpty then none else some (name, cs.dropWhile isBare)
  some (String.ofList name, skipBlanks rest)

/-- A key of at most as many parts as the first argument says. -/
def key? : Nat → List Char → Option (Key × List Char)
  | 0, _ => none
  | parts + 1, cs => do
      let (name, rest) ← keyPart? cs
      match rest with
      | '.' :: rest =>
          let (key, rest) ← key? parts rest
          some (⟨name :: key.parents, key.name⟩, rest)
      | rest => some (⟨[], name⟩, rest)

/-! ## Values -/

/-- The items of an array after its bracket; the number bounds how many there are. -/
def items? (item : List Char → Option (Value × List Char)) :
    Nat → List Char → Option (List Value × List Char)
  | 0, _ => none
  | bound + 1, cs =>
      match skipGap false cs with
      | ']' :: rest => some ([], rest)
      | cs => do
          let (v, rest) ← item cs
          match skipGap false rest with
          | ']' :: rest => some ([v], rest)
          | ',' :: rest =>
              let (vs, rest) ← items? item bound rest
              some (v :: vs, rest)
          | _ => none

/-- A key, an equals sign and a value, with blanks between them. -/
def pair? (item : List Char → Option (Value × List Char)) (cs : List Char) :
    Option ((Key × Value) × List Char) := do
  let (key, rest) ← key? (nesting - 1) cs
  let rest ← Number.expect? '=' rest
  let (v, rest) ← item (skipBlanks rest)
  some ((key, v), rest)

/-- The pairs of a table in braces after its brace, of which there is at least one. -/
def pairs? (item : List Char → Option (Value × List Char)) :
    Nat → List Char → Option (List (Key × Value) × List Char)
  | 0, _ => none
  | bound + 1, cs => do
      let (pair, rest) ← pair? item cs
      match skipBlanks rest with
      | '}' :: rest => some ([pair], rest)
      | ',' :: rest =>
          let (more, rest) ← pairs? item bound rest
          some (pair :: more, rest)
      | _ => none

/-- The table that the pairs in braces make. -/
def inlineTable? (pairs : List (Key × Value)) : Option Value :=
  let step (es : Entries) (pair : Key × Value) : Option Entries :=
    Entries.assign pair.1.name pair.2 pair.1.parents es
  (pairs.foldlM step []).map (Value.table .inline)

/-- A value that opens at most as many brackets and braces inside each other as the first argument
says. -/
def value? : Nat → List Char → Option (Value × List Char)
  | depth, cs =>
      match cs with
      | '"' :: _ | '\'' :: _ => (Text.read? cs).map fun (s, rest) => (.text (String.ofList s), rest)
      | '[' :: cs =>
          match depth with
          | 0 => none
          | depth + 1 => (items? (value? depth) (cs.length + 1) cs).map fun (vs, rest) => (.array vs, rest)
      | '{' :: cs =>
          match depth with
          | 0 => none
          | depth + 1 =>
              match skipBlanks cs with
              | '}' :: rest => some (.table .inline [], rest)
              | cs => do
                  let (pairs, rest) ← pairs? (value? depth) (cs.length + 1) cs
                  (inlineTable? pairs).map (·, rest)
      | 't' :: 'r' :: 'u' :: 'e' :: rest => some (.boolean true, rest)
      | 'f' :: 'a' :: 'l' :: 's' :: 'e' :: rest => some (.boolean false, rest)
      | cs => Number.read? cs

/-! ## Lines -/

/-- An assignment or a header, and what follows its line. -/
def statement? (cs : List Char) : Option (Statement × List Char) := do
  let (s, rest) ← match skipBlanks cs with
    | '[' :: '[' :: cs => do
        let (key, rest) ← key? (nesting - 1) cs
        let rest ← Number.expect? ']' rest
        let rest ← Number.expect? ']' rest
        some (Statement.item key, rest)
    | '[' :: cs => do
        let (key, rest) ← key? (nesting - 1) cs
        let rest ← Number.expect? ']' rest
        some (Statement.header key, rest)
    | cs => do
        let ((key, v), rest) ← pair? (value? (nesting - 1)) cs
        some (Statement.assign key v, rest)
  let rest ← lineEnd? false rest
  some (s, rest)

/-- All lines; the number bounds how many there are. -/
def lines? : Nat → List Char → Option (List Statement)
  | _, [] => some []
  | 0, _ => none
  | bound + 1, cs =>
      match lineEnd? false cs with
      | some rest => lines? bound rest
      | none => do
          let (s, rest) ← statement? cs
          let more ← lines? bound rest
          some (s :: more)

/-- The statements of a document, which may start with a byte order mark. -/
def read? (text : String) : Option (List Statement) :=
  let cs := match text.toList with
    | '\uFEFF' :: cs => cs
    | cs => cs
  lines? cs.length cs

end Statement

end ClassScope.Toml
