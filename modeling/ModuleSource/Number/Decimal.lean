import ModuleSource.Number.Binary64
import ModuleSource.Number.Integer

/-!
Numerals of floating point: a sign, then digits with at most one point among or beside them, then
perhaps an exponent of ten. `inf`, `infinity` and `nan` in any case are numerals too.
-/

namespace ModuleSource.Number

/-- A sign at the start, and the rest. -/
def takeSign : List Char → Bool × List Char
  | '-' :: cs => (true, cs)
  | '+' :: cs => (false, cs)
  | cs => (false, cs)

def isDecimalDigit (c : Char) : Bool := (decimalDigit? c).isSome

/-- The part after the digits: nothing, or a mark, a sign and one or more digits. -/
def powerOfTen? : List Char → Option Int
  | [] => some 0
  | c :: cs =>
    if c = 'e' ∨ c = 'E' then
      match takeSign cs with
      | (negative, ds) => (decimal? ds).map fun n => if negative then -(n : Int) else n
    else none

/-- Digits with at most one point, and the exponent of their last place. -/
def places? (cs : List Char) : Option (Nat × Int) :=
  let whole := cs.takeWhile isDecimalDigit
  match cs.dropWhile isDecimalDigit with
  | '.' :: cs =>
    let part := cs.takeWhile isDecimalDigit
    do
      let digits ← decimal? (whole ++ part)
      let power ← powerOfTen? (cs.dropWhile isDecimalDigit)
      return (digits, power - part.length)
  | cs => do
    let digits ← decimal? whole
    let power ← powerOfTen? cs
    return (digits, power)

def lower (cs : List Char) : String := String.ofList (cs.map Char.toLower)

/-- A numeral of floating point, read to the nearest value. -/
def float? (cs : List Char) : Option Binary64 :=
  match takeSign cs with
  | (negative, body) =>
    if lower body = "inf" ∨ lower body = "infinity" then some (.infinite negative)
    else if lower body = "nan" then some .nan
    else (places? body).map fun (digits, power) => Binary64.ofDecimal negative digits power

end ModuleSource.Number
