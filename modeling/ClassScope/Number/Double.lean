/-!
Binary floating point in 64 bits: the value nearest to a decimal number, and the shortest decimal number
that reads back as a value. Everything is exact arithmetic on natural numbers.
-/
namespace ClassScope

/-- A value in 64 bits. A finite one is `significand * 2 ^ exponent`, with less than 53 bits and an
exponent from -1074 to 971. -/
inductive Double where
  | nan
  | infinite (negative : Bool)
  | finite (negative : Bool) (significand : Nat) (exponent : Int)
  deriving Repr, DecidableEq

namespace Double

/-! ## Reading -/

/-- The whole number nearest to a quotient; halves go to the even neighbour. -/
def roundToEven (num den : Nat) : Nat :=
  let q := num / den
  let twice := 2 * (num % den)
  if twice < den then q
  else if twice = den then q + q % 2
  else q + 1

/-- A quotient divided by `2 ^ e`, as a quotient. -/
def scaled (num den : Nat) (e : Int) : Nat × Nat :=
  (num <<< (-e).toNat, den <<< e.toNat)

/-- The exponent at which a quotient has at most 53 bits and no bit is given away. -/
def exponentOf (num den : Nat) : Int :=
  let estimate : Int := Nat.log2 num - Nat.log2 den
  let fits (e : Int) : Bool := let (n, d) := scaled num den e; n / d < 1 <<< 53
  max (-1074) (([estimate - 53, estimate - 52].find? fits).getD (estimate - 51))

/-- The value nearest to a positive quotient. -/
def ofQuotient (negative : Bool) (num den : Nat) : Double :=
  let e := exponentOf num den
  let (n, d) := scaled num den e
  let m := roundToEven n d
  let (m, e) := if m = 1 <<< 53 then (1 <<< 52, e + 1) else (m, e)
  if e > 971 then infinite negative else finite negative m e

/-- The value nearest to `digits * 10 ^ exponent`. Powers far outside the range are not written out. -/
def ofDecimal (negative : Bool) (digits : Nat) (exponent : Int) : Double :=
  let size : Int := (Nat.toDigits 10 digits).length
  if digits = 0 ∨ size + exponent < -400 then finite negative 0 (-1074)
  else if size + exponent > 400 then infinite negative
  else ofQuotient negative (digits * Nat.pow 10 exponent.toNat) (Nat.pow 10 (-exponent).toNat)

/-! ## Writing -/

/-- Four times the lower end, the value and the upper end of the numbers that round to
`m * 2 ^ e`, in units of `2 ^ e`. -/
def interval (m : Nat) (e : Int) : Nat × Nat × Nat :=
  let below := if m = 1 <<< 52 ∧ e > -1074 then 1 else 2
  (4 * m - below, 4 * m, 4 * m + 2)

/-- The number of decimal places before the point, at least for positive quotients: the least `p`
with `num / den < 10 ^ p`. -/
def magnitude (num den : Nat) : Int :=
  let estimate : Int := (Nat.toDigits 10 num).length - (Nat.toDigits 10 den).length
  let below (p : Int) : Bool := num * Nat.pow 10 (-p).toNat < den * Nat.pow 10 p.toNat
  if below estimate then estimate else estimate + 1

/-- The decimal numbers with `count` digits next to a value that round to it, the nearer one first.
A result `(d, p)` stands for `d * 10 ^ p`. -/
def neighbours (m : Nat) (e : Int) (count : Nat) : List (Nat × Int) :=
  let (low, mid, high) := interval m e
  let (num, den) := (mid <<< e.toNat, 4 <<< (-e).toNat)
  let p := magnitude num den - count
  let (n, d) := (num * Nat.pow 10 (-p).toNat, den * Nat.pow 10 p.toNat)
  let inside (c : Nat) : Bool :=
    let (c, l, h) := (c * d * mid, low * n, high * n)
    if m % 2 = 0 then l ≤ c && c ≤ h else l < c && c < h
  let floor := n / d
  let ordered := if 2 * (n % d) < d then [floor, floor + 1] else [floor + 1, floor]
  (ordered.filter inside).map (·, p)

/-- The shortest decimal number that reads back as `m * 2 ^ e`; 17 digits always do. -/
def shortest (m : Nat) (e : Int) : Nat × Int :=
  ((List.range 17).findSome? fun i => (neighbours m e (i + 1)).head?).getD (0, 0)

/-- Digits without exponent, with at least one place after the point. -/
def positional (digits : List Char) (exponent : Int) : String :=
  let point : Int := digits.length + exponent
  if exponent ≥ 0 then String.ofList (digits ++ List.replicate exponent.toNat '0') ++ ".0"
  else if point > 0 then
    String.ofList (digits.take point.toNat) ++ "." ++ String.ofList (digits.drop point.toNat)
  else "0." ++ String.ofList (List.replicate (-point).toNat '0' ++ digits)

/-- The shortest text that reads back, without exponent. -/
def toText : Double → String
  | nan => "NaN"
  | infinite negative => if negative then "-inf" else "inf"
  | finite negative m e =>
      let sign := if negative then "-" else ""
      if m = 0 then sign ++ "0.0"
      else
        let (digits, exponent) := shortest m e
        sign ++ positional (Nat.toDigits 10 digits) exponent

end Double

end ClassScope
