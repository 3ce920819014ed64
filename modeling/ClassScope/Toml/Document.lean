import ClassScope.Toml.Statement

/-!
The table that the lines of a TOML document make. A header opens a section, and its assignments go into
the section's table, which is put in its place when the section ends.
-/
namespace ClassScope.Toml

inductive Section where
  | top
  | header (key : Key)
  | item (key : Key)
  deriving Repr, DecidableEq

/-- A document read up to some line: what its finished sections made, and the open section. -/
structure Draft where
  finished : Entries := []
  current : Section := .top
  entries : Entries := []

namespace Draft

def assign (key : Key) (v : Value) (d : Draft) : Option Draft :=
  (Entries.assign key.name v key.parents d.entries).map fun entries => { d with entries }

/-- Puts the open section's table in its place. -/
def finish (d : Draft) : Option Entries :=
  match d.current with
  | .top => some d.entries
  | .header key =>
      let place (es : Entries) : Option (Unit × Entries) :=
        if Entries.has key.name es then none
        else some ((), es ++ [(key.name, .table .header d.entries)])
      (Entries.within place key.parents d.finished).map (·.2)
  | .item key =>
      let place (es : Entries) : Option (Unit × Entries) :=
        match Entries.find? key.name es with
        | some (.tables items) =>
            some ((), Entries.replace key.name (.tables (items ++ [d.entries])) es)
        | _ => none
      (Entries.within place key.parents d.finished).map (·.2)

/-- Opens a table. One that longer headers have named before is taken out with all it holds. -/
def openHeader (key : Key) (d : Draft) : Option Draft := do
  let finished ← d.finish
  let takeOut (es : Entries) : Option (Entries × Entries) :=
    match Entries.find? key.name es with
    | none => some ([], es)
    | some (.table .implied sub) => some (sub, Entries.erase key.name es)
    | some _ => none
  let (entries, finished) ← Entries.within takeOut key.parents finished
  some ⟨finished, .header key, entries⟩

def openItem (key : Key) (d : Draft) : Option Draft := do
  let finished ← d.finish
  let reserve (es : Entries) : Option (Unit × Entries) :=
    match Entries.find? key.name es with
    | none => some ((), es ++ [(key.name, .tables [])])
    | some (.tables _) => some ((), es)
    | some _ => none
  let (_, finished) ← Entries.within reserve key.parents finished
  some ⟨finished, .item key, []⟩

def add (d : Draft) : Statement → Option Draft
  | .assign key v => d.assign key v
  | .header key => d.openHeader key
  | .item key => d.openItem key

end Draft

/-- The table that statements make; none when they define something twice or extend what is complete. -/
def Entries.ofStatements? (statements : List Statement) : Option Entries := do
  let d ← statements.foldlM Draft.add {}
  d.finish

/-- The table that a text describes; none when the text is no TOML document. -/
def Entries.read? (text : String) : Option Entries := do
  let statements ← Statement.read? text
  Entries.ofStatements? statements

end ClassScope.Toml
