import ClassScope.Path.Basic
import ClassScope.Toml.Text
import ClassScope.Toml.Number

/-!
Writing a TOML document: assignments on lines of their own, lists of several items with one item a line.
-/
namespace ClassScope.Toml.Render

inductive Error where
  | pathNotText
  | tooLarge
  deriving Repr, DecidableEq

def text (s : String) : String :=
  String.ofList (Text.write s.toList)

def list (items : List String) : String :=
  match items with
  | [] => "[]"
  | [item] => "[" ++ item ++ "]"
  | items => "[\n" ++ String.join (items.map fun item => "    " ++ item ++ ",\n") ++ "]"

def boolean (b : Bool) : String :=
  if b then "true" else "false"

/-- Integers end at 64 bits with a sign. -/
def natural (n : Nat) : Except Error String :=
  if Number.inRange n then .ok (toString n) else .error .tooLarge

def path (p : Path) : Except Error String :=
  match Utf8.decode p.bytes with
  | .ok s => .ok (text s)
  | .error _ => .error .pathNotText

def paths (ps : List Path) : Except Error String :=
  (ps.mapM path).map list

def assign (key value : String) : String :=
  key ++ " = " ++ value ++ "\n"

def header (key : String) : String :=
  "\n[" ++ key ++ "]\n"

end ClassScope.Toml.Render
