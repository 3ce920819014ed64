/-!
Texts of a TOML document. A form says which quote encloses a text, whether backslashes escape in it, and
whether it may run over several lines; the four forms share one reader and one writer.
-/
namespace ClassScope.Toml

def isBlank (c : Char) : Bool :=
  c = ' ' || c = '\t'

/-- Characters that texts and comments hold as they are: no control character but the tab. -/
def isPlain (c : Char) : Bool :=
  c = '\t' || (' ' ≤ c && c ≠ '\x7f')

def hexDigit? (c : Char) : Option Nat :=
  if '0' ≤ c ∧ c ≤ '9' then some (c.toNat - '0'.toNat)
  else if 'a' ≤ c ∧ c ≤ 'f' then some (c.toNat - 'a'.toNat + 10)
  else if 'A' ≤ c ∧ c ≤ 'F' then some (c.toNat - 'A'.toNat + 10)
  else none

namespace Text

structure Form where
  quote : Char
  escapes : Bool
  multiline : Bool
  deriving Repr, DecidableEq

def basic : Form := ⟨'"', true, false⟩
def literal : Form := ⟨'\'', false, false⟩
def basicBlock : Form := ⟨'"', true, true⟩
def literalBlock : Form := ⟨'\'', false, true⟩

/-! ## Reading -/

/-- Where a reader stands inside a text. -/
inductive State where
  | plain
  | escape
  /-- Inside a character's number, with that many digits to come. -/
  | code (left value : Nat)
  /-- After a backslash that ends its line, up to the next character that is no blank. -/
  | gap (newline : Bool)
  /-- After a carriage return, which only a line feed may follow. -/
  | return (inGap : Bool)
  /-- After that many quotes in a row. -/
  | quotes (n : Nat)
  deriving Repr, DecidableEq

/-- What one character does: it adds characters and moves on, or it ends the text. When it belongs to
what follows the text it is not used up. -/
inductive Move where
  | on (out : List Char) (state : State)
  | close (out : List Char) (used : Bool)
  | fail
  deriving Repr, DecidableEq

def simpleEscape? : Char → Option Char
  | 'b' => some '\x08'
  | 't' => some '\t'
  | 'n' => some '\n'
  | 'f' => some '\x0c'
  | 'r' => some '\r'
  | '"' => some '"'
  | '\\' => some '\\'
  | _ => none

def plainMove (form : Form) (c : Char) : Move :=
  if c = form.quote then if form.multiline then .on [] (.quotes 1) else .close [] true
  else if c = '\\' ∧ form.escapes then .on [] .escape
  else if isPlain c then .on [c] .plain
  else if c = '\n' ∧ form.multiline then .on [c] .plain
  else if c = '\r' ∧ form.multiline then .on [] (.return false)
  else .fail

def gapMove (form : Form) (newline : Bool) (c : Char) : Move :=
  if isBlank c then .on [] (.gap newline)
  else if c = '\n' then .on [] (.gap true)
  else if c = '\r' then .on [] (.return true)
  else if newline then plainMove form c
  else .fail

def escapeMove (form : Form) (c : Char) : Move :=
  match simpleEscape? c with
  | some e => .on [e] .plain
  | none =>
      if c = 'u' then .on [] (.code 4 0)
      else if c = 'U' then .on [] (.code 8 0)
      else if form.multiline then gapMove form false c
      else .fail

def codeMove (left value : Nat) (c : Char) : Move :=
  match hexDigit? c with
  | some d =>
      let value := value * 16 + d
      if left > 1 then .on [] (.code (left - 1) value)
      else if value.isValidChar then .on [Char.ofNat value] .plain
      else .fail
  | none => .fail

/-- Three quotes end the text; up to two more right before them belong to it. -/
def quotesMove (form : Form) (n : Nat) (c : Char) : Move :=
  if c = form.quote then
    if n < 4 then .on [] (.quotes (n + 1)) else .close (List.replicate 2 c) true
  else if n < 3 then
    let quotes := List.replicate n form.quote
    match plainMove form c with
    | .on out state => .on (quotes ++ out) state
    | .close out used => .close (quotes ++ out) used
    | .fail => .fail
  else .close (List.replicate (n - 3) form.quote) false

def move (form : Form) : State → Char → Move
  | .plain, c => plainMove form c
  | .escape, c => escapeMove form c
  | .code left value, c => codeMove left value c
  | .gap newline, c => gapMove form newline c
  | .return inGap, c =>
      if c = '\n' then if inGap then .on [] (.gap true) else .on [c] .plain else .fail
  | .quotes n, c => quotesMove form n c

/-- The rest of a text from inside it, and what follows it. -/
def readFrom (form : Form) : State → List Char → Option (List Char × List Char)
  | .quotes n, [] => if n < 3 then none else some (List.replicate (n - 3) form.quote, [])
  | _, [] => none
  | state, c :: cs =>
      match move form state c with
      | .on out state => (readFrom form state cs).map fun (text, rest) => (out ++ text, rest)
      | .close out used => some (out, if used then cs else c :: cs)
      | .fail => none

/-- A line end right after the opening quotes is no part of the text. -/
def dropLineEnd : List Char → List Char
  | '\n' :: cs => cs
  | '\r' :: '\n' :: cs => cs
  | cs => cs

def readLine? : List Char → Option (List Char × List Char)
  | '"' :: cs => readFrom basic .plain cs
  | '\'' :: cs => readFrom literal .plain cs
  | _ => none

def read? : List Char → Option (List Char × List Char)
  | '"' :: '"' :: '"' :: cs => readFrom basicBlock .plain (dropLineEnd cs)
  | '\'' :: '\'' :: '\'' :: cs => readFrom literalBlock .plain (dropLineEnd cs)
  | cs => readLine? cs

/-! ## Writing -/

def hexDigits (width n : Nat) : List Char :=
  let digits := (Nat.toDigits 16 n).map Char.toUpper
  List.replicate (width - digits.length) '0' ++ digits

/-- The way a text with escapes writes a character that it cannot hold, or a tab. -/
def escaped? (form : Form) (c : Char) : Option (List Char) :=
  if c = '\x08' then some ['\\', 'b']
  else if c = '\t' then some ['\\', 't']
  else if c = '\n' then if form.multiline then none else some ['\\', 'n']
  else if c = '\x0c' then some ['\\', 'f']
  else if c = '\r' then some ['\\', 'r']
  else if c = '\\' then some ['\\', '\\']
  else if isPlain c then none
  else some ('\\' :: 'u' :: hexDigits 4 c.toNat)

/-- How many quotes in a row a text may hold without escaping one. -/
def Form.quoteRun (form : Form) : Nat :=
  if form.multiline then 2 else 0

/-- The characters between the quotes; `run` quotes have just been written. -/
def writeFrom (form : Form) (run : Nat) : List Char → List Char
  | [] => []
  | c :: cs =>
      if ¬ form.escapes then c :: writeFrom form 0 cs
      else if c = form.quote then
        if run < form.quoteRun then c :: writeFrom form (run + 1) cs
        else '\\' :: c :: writeFrom form 0 cs
      else
        match escaped? form c with
        | some e => e ++ writeFrom form 0 cs
        | none => c :: writeFrom form 0 cs

/-- The greatest number of times that `q` stands in a row. -/
def longestRun (q : Char) (run best : Nat) : List Char → Nat
  | [] => best
  | c :: cs =>
      let run := if c = q then run + 1 else 0
      longestRun q run (max best run) cs

/-- The form that shows a text with the least escaping. Tabs alone ask for none. -/
def formOf (cs : List Char) : Form :=
  let control := cs.any fun c => ¬ isPlain c ∧ c ≠ '\n'
  let backslash := cs.contains '\\'
  let newline := cs.contains '\n'
  let double := longestRun '"' 0 0 cs
  let single := longestRun '\'' 0 0 cs
  if ¬ control ∧ ¬ backslash ∧ double = 0 ∧ ¬ newline then basic
  else if ¬ control ∧ single = 0 ∧ ¬ newline then literal
  else if ¬ control ∧ ¬ backslash ∧ double ≤ 2 then basicBlock
  else if ¬ control ∧ single ≤ 2 then literalBlock
  else if newline then basicBlock
  else basic

/-- A text with its quotes. A text of several lines starts on a line of its own. -/
def write (cs : List Char) : List Char :=
  let form := formOf cs
  let quotes := List.replicate (if form.multiline then 3 else 1) form.quote
  let start := if form.multiline ∧ cs.contains '\n' then ['\n'] else []
  quotes ++ start ++ writeFrom form 0 cs ++ quotes

end Text

end ClassScope.Toml
