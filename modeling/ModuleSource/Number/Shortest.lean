import ModuleSource.Number.Binary64

/-!
The decimal text of floating point values. A value is written with the fewest digits that read back
to it; of two such numerals the nearer one is taken, and of two equally near the greater. The text
is positional, whatever the size of the value.
-/

namespace ModuleSource.Number

namespace Binary64

/-- A decimal magnitude `digits * 10 ^ exponent`. -/
structure Digits where
  digits : Nat
  exponent : Int
deriving DecidableEq

/-- `digits * 10 ^ place` as a quotient. -/
def onGrid (digits : Nat) (place : Int) : Nat × Nat :=
  match place with
  | .ofNat k => (digits * Nat.pow 10 k, 1)
  | .negSucc k => (digits, Nat.pow 10 (k + 1))

/-- `a * 2 ^ exponent` as a quotient. -/
def onBinary (a : Nat) (exponent : Int) : Nat × Nat :=
  match exponent with
  | .ofNat k => (a * Nat.pow 2 k, 1)
  | .negSucc k => (a, Nat.pow 2 (k + 1))

def lessEq (x y : Nat × Nat) : Bool := x.1 * y.2 ≤ y.1 * x.2

def less (x y : Nat × Nat) : Bool := x.1 * y.2 < y.1 * x.2

/-- The numbers that read to `mantissa * 2 ^ exponent`, which are those between the midpoints to its
two neighbours. The midpoints read to it just when the mantissa is even. Below the least full
mantissa the values stand twice as close, unless the exponent is the least. -/
def readsTo (mantissa : Nat) (exponent : Int) (x : Nat × Nat) : Bool :=
  let below := if mantissa = Nat.pow 2 (precision - 1) ∧ minExponent < exponent then 1 else 2
  let low := onBinary (4 * mantissa - below) (exponent - 2)
  let high := onBinary (4 * mantissa + 2) (exponent - 2)
  if mantissa % 2 = 0 then lessEq low x && lessEq x high else less low x && less x high

/-- The power of ten just above a positive quotient. -/
def magnitude (x : Nat × Nat) : Int :=
  if x.2 ≤ x.1 then Int.ofNat (Nat.toDigits 10 (x.1 / x.2)).length
  else
    let above := (x.2 + x.1 - 1) / x.1 - 1
    if above = 0 then 1 else 1 - Int.ofNat (Nat.toDigits 10 above).length

/-- Of the two multiples of `10 ^ place` around a value, the one that reads back to it: the nearer
if both do, the greater if they are equally near. -/
def neighbour? (mantissa : Nat) (exponent place : Int) : Option Digits :=
  let (n, d) := onBinary mantissa exponent
  let (gn, gd) := onGrid 1 place
  let floor := n * gd / (d * gn)
  let remainder := n * gd % (d * gn)
  let down := readsTo mantissa exponent (onGrid floor place)
  let up := readsTo mantissa exponent (onGrid (floor + 1) place)
  if down && (!up || 2 * remainder < d * gn) then some ⟨floor, place⟩
  else if up then some ⟨floor + 1, place⟩
  else none

/-- The fewest digits, up to a limit, that read back to a positive value. -/
def fewest (mantissa : Nat) (exponent top : Int) (count : Nat) : Nat → Digits
  | 0 => (neighbour? mantissa exponent (top - count)).getD ⟨0, 0⟩
  | more + 1 =>
    match neighbour? mantissa exponent (top - count) with
    | some found => found
    | none => fewest mantissa exponent top (count + 1) more

/-- Seventeen digits always suffice. -/
def shortest (mantissa : Nat) (exponent : Int) : Digits :=
  fewest mantissa exponent (magnitude (onBinary mantissa exponent)) 1 16

/-- Decimal digits with a point among them; zeros after the point's last other digit are dropped,
and the point with them if nothing remains. -/
def Digits.text (x : Digits) : String :=
  let written := Nat.toDigits 10 x.digits
  match x.exponent with
  | .ofNat k => String.ofList (written ++ List.replicate k '0')
  | .negSucc k =>
    let padded := List.replicate (k + 2 - written.length) '0' ++ written
    let whole := padded.take (padded.length - (k + 1))
    let part := ((padded.drop (padded.length - (k + 1))).reverse.dropWhile (· == '0')).reverse
    if part.isEmpty then String.ofList whole else String.ofList (whole ++ '.' :: part)

def signText (negative : Bool) : String := if negative then "-" else ""

/-- The shortest text that reads back to the value; zero keeps its sign. -/
def text : Binary64 → String
  | .nan => "NaN"
  | .infinite negative => signText negative ++ "inf"
  | .finite negative mantissa exponent =>
    if mantissa = 0 then signText negative ++ "0"
    else signText negative ++ (shortest mantissa exponent).text

/-- The text of a value in module source: whole numbers exactly and with one zero after the point,
all else by the shortest text. -/
def literal (x : Binary64) : String :=
  match x.integer? with
  | some (negative, n) => signText negative ++ toString n ++ ".0"
  | none => x.text

end Binary64

end ModuleSource.Number
