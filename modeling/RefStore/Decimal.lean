/-!
# Decimal numbers

Reading signed and unsigned decimal numerals: ASCII digits with an optional sign, leading zeros
allowed.
-/

namespace RefStore.Decimal

def digits? (cs : List Char) : Option Nat :=
  if cs ≠ [] ∧ cs.all Char.isDigit then some (Nat.ofDigitChars 10 cs 0) else none

/-- A numeral with an optional `+`. -/
def unsigned? : List Char → Option Nat
  | '+' :: cs => digits? cs
  | cs => digits? cs

/-- A numeral with an optional `+` or `-`. -/
def signed? : List Char → Option Int
  | '-' :: cs => (digits? cs).map fun n => -(n : Int)
  | cs => (unsigned? cs).map Int.ofNat

def int32? (cs : List Char) : Option Int32 :=
  (signed? cs).bind fun n =>
    if -2147483648 ≤ n ∧ n ≤ 2147483647 then some (Int32.ofInt n) else none

/-- Counts that fit 64 bits. -/
def count? (cs : List Char) : Option Nat :=
  (unsigned? cs).filter (· < 18446744073709551616)

def ofInt : Int → List Char
  | .ofNat n => Nat.toDigits 10 n
  | .negSucc n => '-' :: Nat.toDigits 10 (n + 1)

end RefStore.Decimal
