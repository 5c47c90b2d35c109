/-!
# Archive/Checksum — the cyclic checksum of bytes

Bytes are divided, as a polynomial with bits for coefficients, by a fixed polynomial of degree 32;
the remainder is their checksum.  Least significant bits come first, and the remainder is turned
over before and after.
-/

namespace ChipEight.Checksum

/-- The divisor without its leading term. -/
def divisor : UInt32 := 0xEDB88320

/-- The remainder with one more bit divided. -/
def divideBit (remainder : UInt32) : UInt32 :=
  if remainder % 2 = 1 then remainder >>> 1 ^^^ divisor else remainder >>> 1

/-- The remainder with one more byte divided. -/
def divideByte (remainder : UInt32) (b : UInt8) : UInt32 :=
  Nat.repeat divideBit 8 (remainder ^^^ b.toUInt32)

/-- **The checksum.** -/
def ofBytes (bs : List UInt8) : UInt32 := ~~~ bs.foldl divideByte 0xFFFFFFFF

/-- The checksum of the nine digits is the usual test of it. -/
example : ofBytes [0x31, 0x32, 0x33, 0x34, 0x35, 0x36, 0x37, 0x38, 0x39] = 0xCBF43926 := by
  decide +kernel

end ChipEight.Checksum
