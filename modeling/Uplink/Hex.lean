/-!
# Hexadecimal numerals

Event sets are logged as `0x` and lower-case digits without leading zeros, hardware addresses as
two upper-case digits for each byte.

* `Hex.mask`   the numeral of an event set;
* `Hex.octet`  the two digits of a byte.
-/

namespace Uplink.Hex

/-- The numeral of `n` after `0x`, lower case, without leading zeros; zero is `0x0`. -/
def mask (n : Nat) : String := "0x" ++ String.ofList (Nat.toDigits 16 n)

def digit (n : Nat) : Char := if n < 10 then Char.ofNat (48 + n) else Char.ofNat (55 + n)

/-- The two digits of a byte, upper case. -/
def octet (b : UInt8) : String := String.ofList [digit (b.toNat / 16), digit (b.toNat % 16)]

end Uplink.Hex
