/-!
Integer numerals. Signed values have 64 bits and are decimal; unsigned words are decimal, or
hexadecimal after `0x`. A plus sign may stand before the digits of any of them.
-/

namespace ModuleSource.Number

def decimalDigit? (c : Char) : Option Nat :=
  if '0' ≤ c ∧ c ≤ '9' then some (c.toNat - '0'.toNat) else none

def hexDigit? (c : Char) : Option Nat :=
  if '0' ≤ c ∧ c ≤ '9' then some (c.toNat - '0'.toNat)
  else if 'a' ≤ c ∧ c ≤ 'f' then some (c.toNat - 'a'.toNat + 10)
  else if 'A' ≤ c ∧ c ≤ 'F' then some (c.toNat - 'A'.toNat + 10)
  else none

/-- The value of one or more digits, the most significant first. -/
def digits? (base : Nat) (digit? : Char → Option Nat) (cs : List Char) : Option Nat :=
  if cs.isEmpty then none
  else cs.foldlM (fun value c => (digit? c).map (base * value + ·)) 0

def decimal? : List Char → Option Nat := digits? 10 decimalDigit?

def hexadecimal? : List Char → Option Nat := digits? 16 hexDigit?

def dropPlus : List Char → List Char
  | '+' :: cs => cs
  | cs => cs

def minInt : Int := -0x8000000000000000

def maxInt : Int := 0x7FFFFFFFFFFFFFFF

/-- The value of a signed numeral before any limit on its size. -/
def signed? : List Char → Option Int
  | '-' :: cs => (decimal? cs).map fun n => -(n : Int)
  | cs => (decimal? (dropPlus cs)).map Int.ofNat

/-- A signed numeral of 64 bits. -/
def int? (cs : List Char) : Option Int :=
  (signed? cs).filter fun v => minInt ≤ v ∧ v ≤ maxInt

/-- The value of an unsigned numeral before any limit on its size. -/
def unsigned? : List Char → Option Nat
  | '0' :: 'x' :: cs => hexadecimal? (dropPlus cs)
  | '0' :: 'X' :: cs => hexadecimal? (dropPlus cs)
  | cs => decimal? (dropPlus cs)

/-- An unsigned numeral of at most the given number of bits. -/
def word? (bits : Nat) (cs : List Char) : Option Nat :=
  (unsigned? cs).filter (· < Nat.pow 2 bits)

def word32? (cs : List Char) : Option UInt32 := (word? 32 cs).map UInt32.ofNat

def word64? (cs : List Char) : Option UInt64 := (word? 64 cs).map UInt64.ofNat

def lowerHex (n : Nat) : String := "0x" ++ String.ofList (Nat.toDigits 16 n)

def upperHex (n : Nat) : String := "0x" ++ String.ofList ((Nat.toDigits 16 n).map Char.toUpper)

end ModuleSource.Number
