import ClassScope.Path.Basic
import ClassScope.Text.Quoted
import ClassScope.Toml.Value

/-!
Reading values as what is expected at their place. A value that does not fit is reported with what was
found and what was expected there.
-/
namespace ClassScope.Toml

/-- A value as a message names it. -/
inductive Found where
  | boolean (b : Bool)
  | integer (n : Int)
  | real (x : Double)
  | text (s : String)
  | sequence
  | map
  deriving Repr, DecidableEq

inductive Expected where
  /-- A natural number of that many bits. -/
  | natural (bits : Nat)
  | boolean
  | text
  | path
  | sequence
  | record (name : String)
  deriving Repr, DecidableEq

inductive Misfit where
  | type (found : Found) (expected : Expected)
  | range (n : Int) (expected : Expected)
  | unknownChoice (name first second : String)
  /-- A choice is neither a text nor a table. -/
  | noChoice
  /-- A choice is a table that does not have one entry. -/
  | choiceCount (isEmpty : Bool)
  /-- The entry of a choice holds something. -/
  | choiceContent (content : Value)
  deriving Repr

def Found.message : Found → String
  | boolean b => if b then "boolean `true`" else "boolean `false`"
  | integer n => s!"integer `{n}`"
  | real x => "floating point `" ++ x.toText ++ "`"
  | text s => "string " ++ Quoted.encode s
  | sequence => "sequence"
  | map => "map"

def Expected.message : Expected → String
  | natural bits => s!"u{bits}"
  | boolean => "a boolean"
  | text => "a string"
  | path => "path string"
  | sequence => "a sequence"
  | record name => "struct " ++ name

/-- The message for the entry of a choice that holds something. -/
def Misfit.contentMessage : Value → String
  | .tables _ => "expected empty array"
  | .array _ | .table _ _ => "expected empty table"
  | .text _ => "expected table, found string"
  | .integer _ => "expected table, found integer"
  | .real _ => "expected table, found float"
  | .boolean _ => "expected table, found boolean"
  | .moment => "expected table, found datetime"

def Misfit.message : Misfit → String
  | type found expected => "invalid type: " ++ found.message ++ ", expected " ++ expected.message
  | range n expected => s!"invalid value: integer `{n}`, expected " ++ expected.message
  | unknownChoice name first second =>
      "unknown variant `" ++ name ++ "`, expected `" ++ first ++ "` or `" ++ second ++ "`"
  | noChoice => "wanted string or table"
  | choiceCount isEmpty =>
      if isEmpty then "wanted exactly 1 element, found 0 elements"
      else "wanted exactly 1 element, more than 1 element"
  | choiceContent content => contentMessage content

namespace Value

/-- A moment passes for a table. -/
def found : Value → Found
  | .text s => .text s
  | .integer n => .integer n
  | .real x => .real x
  | .boolean b => .boolean b
  | .array _ | .tables _ => .sequence
  | .table _ _ | .moment => .map

/-- The items of an array or of tables with a repeated header. -/
def items? : Value → Option (List Value)
  | .array vs => some vs
  | .tables items => some (items.map (Value.table .header))
  | _ => none

def asBoolean : Value → Except Misfit Bool
  | .boolean b => .ok b
  | v => .error (.type v.found .boolean)

def asNatural (bits : Nat) : Value → Except Misfit Nat
  | .integer n =>
      if 0 ≤ n ∧ n.toNat < 1 <<< bits then .ok n.toNat else .error (.range n (.natural bits))
  | v => .error (.type v.found (.natural bits))

def asText : Value → Except Misfit String
  | .text s => .ok s
  | v => .error (.type v.found .text)

def asPath : Value → Except Misfit Path
  | .text s => .ok (Path.ofString s)
  | v => .error (.type v.found .path)

def asList {α : Type} (item : Value → Except Misfit α) (v : Value) : Except Misfit (List α) :=
  match v.items? with
  | some vs => vs.mapM item
  | none => .error (.type v.found .sequence)

/-- One of two names, given as a text or as the only entry of a table, which must hold nothing. -/
def asChoice {α : Type} (first second : String × α) (v : Value) : Except Misfit α :=
  let pick (name : String) : Except Misfit α :=
    if name = first.1 then .ok first.2
    else if name = second.1 then .ok second.2
    else .error (.unknownChoice name first.1 second.1)
  match v with
  | .text s => pick s
  | .table _ [] => .error (.choiceCount true)
  | .table _ [(name, content)] => do
      let choice ← pick name
      match content with
      | .array [] | .tables [] | .table _ [] => return choice
      | content => throw (.choiceContent content)
  | .table _ _ => .error (.choiceCount false)
  | _ => .error .noChoice

/-- What one field of a record does with its value. -/
abbrev Field (σ : Type) := String × (Value → σ → Except Misfit σ)

/-- A record, given as a table with any of the fields in any order, or as an array of them in their
order. Names that are no fields and items past the last field are passed over. -/
def asRecord {σ : Type} (name : String) (fields : List (Field σ)) (start : σ) (v : Value) :
    Except Misfit σ :=
  match v, v.items? with
  | .table _ entries, _ =>
      entries.foldlM (fun s (key, v) =>
        match fields.lookup key with
        | some set => set v s
        | none => .ok s) start
  | .moment, _ => .ok start
  | _, some vs => (fields.zip vs).foldlM (fun s (field, v) => field.2 v s) start
  | _, none => .error (.type v.found (.record name))

end Value

end ClassScope.Toml
