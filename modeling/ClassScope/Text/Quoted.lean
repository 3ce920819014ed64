import ClassScope.Text.Unprintable

/-!
Texts in double quotes, as messages show them: whatever does not show by itself is escaped.
-/
namespace ClassScope.Quoted

def encodeChar (c : Char) : String :=
  if c = '"' then "\\\""
  else if c = '\\' then "\\\\"
  else if c = '\n' then "\\n"
  else if c = '\r' then "\\r"
  else if c = '\t' then "\\t"
  else if c = '\x00' then "\\0"
  else if c < ' ' ∨ c = '\x7f' ∨ ('\x7f' < c ∧ Unprintable.contains c) then
    "\\u\x7b" ++ String.ofList (Nat.toDigits 16 c.toNat) ++ "\x7d"
  else c.toString

def encode (s : String) : String :=
  "\"" ++ String.join (s.toList.map encodeChar) ++ "\""

end ClassScope.Quoted
