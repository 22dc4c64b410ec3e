/-!
Binary floating point of 64 bits, held exactly: a finite value is a sign and a magnitude
`mantissa * 2 ^ exponent`. Rounding a quotient to the nearest value is done in natural numbers.
-/

namespace ModuleSource.Number

/-- A finite value is in its canonical form: the mantissa is below `2 ^ 53`, and at least `2 ^ 52`
unless the exponent is the least one, `-1074`. -/
inductive Binary64 where
  | nan
  | infinite (negative : Bool)
  | finite (negative : Bool) (mantissa : Nat) (exponent : Int)
deriving DecidableEq

namespace Binary64

def precision : Nat := 53

def minExponent : Int := -1074

def maxExponent : Int := 971

/-- The quotient rounded to the nearest integer, a half going to the even neighbour. -/
def divideToEven (num den : Nat) : Nat :=
  let floor := num / den
  let twice := 2 * (num % den)
  if twice < den then floor
  else if den < twice then floor + 1
  else if floor % 2 = 0 then floor else floor + 1

/-- Numerator and denominator of `num / den / 2 ^ exponent`. -/
def scaled (num den : Nat) (exponent : Int) : Nat × Nat :=
  match exponent with
  | .ofNat k => (num, den * Nat.pow 2 k)
  | .negSucc k => (num * Nat.pow 2 (k + 1), den)

/-- The exponent at which `num / den` has a mantissa of full precision, or the least exponent. -/
def exponentFor (num den : Nat) : Int :=
  let low := max (Int.ofNat num.log2 - Int.ofNat den.log2 - precision) minExponent
  let (n, d) := scaled num den low
  if n / d < Nat.pow 2 precision then low else low + 1

/-- The value nearest to the positive quotient `num / den`; a half goes to the even mantissa, and
what rounds above the greatest finite value is infinite. -/
def ofRatio (negative : Bool) (num den : Nat) : Binary64 :=
  let exponent := exponentFor num den
  let (n, d) := scaled num den exponent
  let mantissa := divideToEven n d
  let (mantissa, exponent) :=
    if mantissa = Nat.pow 2 precision then (Nat.pow 2 (precision - 1), exponent + 1)
    else (mantissa, exponent)
  if maxExponent < exponent then .infinite negative else .finite negative mantissa exponent

/-- The value nearest to `digits * 10 ^ exponent`. Magnitudes far outside the finite range are
settled by the binary size of the digits: three bits in ten are fewer than the decimal places they
fill, and one in three is more. -/
def ofDecimal (negative : Bool) (digits : Nat) (exponent : Int) : Binary64 :=
  if digits = 0 then .finite negative 0 minExponent
  else if 310 < Int.ofNat (3 * digits.log2 / 10) + exponent then .infinite negative
  else if Int.ofNat (digits.log2 / 3 + 1) + exponent < -330 then .finite negative 0 minExponent
  else match exponent with
    | .ofNat k => ofRatio negative (digits * Nat.pow 10 k) 1
    | .negSucc k => ofRatio negative digits (Nat.pow 10 (k + 1))

/-- Sign and magnitude of a finite value without a fraction. -/
def integer? : Binary64 → Option (Bool × Nat)
  | .finite negative mantissa (.ofNat k) => some (negative, mantissa * Nat.pow 2 k)
  | .finite negative mantissa (.negSucc k) =>
    let unit := Nat.pow 2 (k + 1)
    if mantissa % unit = 0 then some (negative, mantissa / unit) else none
  | _ => none

end Binary64

end ModuleSource.Number
