/-!
# Hexadecimal numerals

Lower-case digits, padded with zeros to a fixed width.
-/

namespace RefStore.Hex

def lower (width n : Nat) : String :=
  let digits := Nat.toDigits 16 n
  String.ofList (List.replicate (width - digits.length) '0' ++ digits)

end RefStore.Hex
