import ClassScope.Toml.Value
import ClassScope.Toml.Text

/-!
Numbers and moments of a TOML document. Each reader takes what it needs from the front and gives back the
rest; none means that the text does not start so.
-/
namespace ClassScope.Toml.Number

/-- Digits, with single underscores between them. `needed` says that a digit has to come next. -/
def digitsFrom (ok : Char → Bool) (needed : Bool) : List Char → Option (List Char × List Char)
  | [] => if needed then none else some ([], [])
  | c :: cs =>
      if ok c then (digitsFrom ok false cs).map fun (ds, rest) => (c :: ds, rest)
      else if needed then none
      else if c = '_' then digitsFrom ok true cs
      else some ([], c :: cs)

def digits? (ok : Char → Bool) (cs : List Char) : Option (List Char × List Char) :=
  digitsFrom ok true cs

/-- The number that digits write in a base. -/
def value (base : Nat) (ds : List Char) : Nat :=
  ds.foldl (fun n c => n * base + (hexDigit? c).getD 0) 0

def sign : List Char → Bool × List Char
  | '-' :: cs => (true, cs)
  | '+' :: cs => (false, cs)
  | cs => (false, cs)

/-- Decimal digits without a leading zero, unless zero is all. -/
def decimal? : List Char → Option (List Char × List Char)
  | '0' :: cs => some (['0'], cs)
  | cs => digits? Char.isDigit cs

/-! ## Integers -/

/-- Integers have 64 bits, one of them for the sign. -/
def inRange (n : Int) : Bool :=
  -0x8000000000000000 ≤ n ∧ n ≤ 0x7FFFFFFFFFFFFFFF

def integer? (cs : List Char) : Option (Value × List Char) := do
  let (n, rest) ← match cs with
    | '0' :: 'x' :: cs => do
        let (ds, rest) ← digits? (fun c => (hexDigit? c).isSome) cs
        some ((value 16 ds : Int), rest)
    | '0' :: 'o' :: cs => do
        let (ds, rest) ← digits? (fun c => '0' ≤ c && c ≤ '7') cs
        some ((value 8 ds : Int), rest)
    | '0' :: 'b' :: cs => do
        let (ds, rest) ← digits? (fun c => c = '0' || c = '1') cs
        some ((value 2 ds : Int), rest)
    | cs => do
        let (negative, cs) := sign cs
        let (ds, rest) ← decimal? cs
        let n : Int := value 10 ds
        some (if negative then -n else n, rest)
  if inRange n then some (.integer n, rest) else none

/-! ## Reals -/

/-- An exponent with its letter, and what follows it. -/
def exponent? : List Char → Option (Int × List Char)
  | c :: cs =>
      if c = 'e' ∨ c = 'E' then do
        let (negative, cs) := sign cs
        let (ds, rest) ← digits? Char.isDigit cs
        let n : Int := value 10 ds
        some (if negative then -n else n, rest)
      else none
  | [] => none

/-- The digits after a point and an exponent, of which one is there. -/
def tail? (cs : List Char) : Option (List Char × Int × List Char) :=
  match cs with
  | '.' :: cs => do
      let (ds, rest) ← digits? Char.isDigit cs
      match rest with
      | c :: _ =>
          if c = 'e' ∨ c = 'E' then
            let (n, rest) ← exponent? rest
            some (ds, n, rest)
          else some (ds, 0, rest)
      | [] => some (ds, 0, rest)
  | cs => do
      let (n, rest) ← exponent? cs
      some ([], n, rest)

/-- A real written in digits must not be too large, but it may be too far below zero. -/
def real? (cs : List Char) : Option (Value × List Char) := do
  let (negative, cs) := sign cs
  match cs with
  | 'i' :: 'n' :: 'f' :: rest => some (.real (.infinite negative), rest)
  | 'n' :: 'a' :: 'n' :: rest => some (.real .nan, rest)
  | cs =>
      let (whole, cs) ← decimal? cs
      let (places, n, rest) ← tail? cs
      let x := Double.ofDecimal negative (value 10 (whole ++ places)) (n - places.length)
      if x = .infinite false then none else some (.real x, rest)

/-! ## Moments -/

/-- A number of exactly `count` digits within bounds, and what follows it. -/
def fixed? (count low high : Nat) (cs : List Char) : Option (Nat × List Char) :=
  let ds := cs.take count
  let n := value 10 ds
  if ds.length = count ∧ ds.all Char.isDigit ∧ low ≤ n ∧ n ≤ high then some (n, cs.drop count)
  else none

def expect? (c : Char) : List Char → Option (List Char)
  | d :: cs => if c = d then some cs else none
  | [] => none

def daysIn (year month : Nat) : Nat :=
  if month = 2 then
    if year % 4 = 0 ∧ (year % 100 ≠ 0 ∨ year % 400 = 0) then 29 else 28
  else if month = 4 ∨ month = 6 ∨ month = 9 ∨ month = 11 then 30
  else 31

def date? (cs : List Char) : Option (List Char) := do
  let (year, cs) ← fixed? 4 0 9999 cs
  let cs ← expect? '-' cs
  let (month, cs) ← fixed? 2 1 12 cs
  let cs ← expect? '-' cs
  let (_, cs) ← fixed? 2 1 (daysIn year month) cs
  some cs

def time? (cs : List Char) : Option (List Char) := do
  let (_, cs) ← fixed? 2 0 23 cs
  let cs ← expect? ':' cs
  let (_, cs) ← fixed? 2 0 59 cs
  let cs ← expect? ':' cs
  let (_, cs) ← fixed? 2 0 60 cs
  match cs with
  | '.' :: cs => if (cs.takeWhile Char.isDigit).isEmpty then none else some (cs.dropWhile Char.isDigit)
  | cs => some cs

/-- The distance from universal time, which may be left out. -/
def offset? : List Char → Option (List Char)
  | [] => some []
  | c :: cs =>
      if c = 'Z' ∨ c = 'z' then some cs
      else if c = '+' ∨ c = '-' then do
        let (_, cs) ← fixed? 2 0 23 cs
        let cs ← expect? ':' cs
        let (_, cs) ← fixed? 2 0 59 cs
        some cs
      else some (c :: cs)

/-- A date, a time of day, or a date with a time. A blank after a date that no time follows is not part
of it. -/
def moment? (cs : List Char) : Option (Value × List Char) :=
  match date? cs with
  | some (c :: rest) =>
      if c = 'T' ∨ c = 't' ∨ c = ' ' then
        match time? rest with
        | some rest => (offset? rest).map (.moment, ·)
        | none => some (.moment, c :: rest)
      else some (.moment, c :: rest)
  | some [] => some (.moment, [])
  | none => (time? cs).map (.moment, ·)

def read? (cs : List Char) : Option (Value × List Char) :=
  (moment? cs).orElse fun _ => (real? cs).orElse fun _ => integer? cs

end ClassScope.Toml.Number
