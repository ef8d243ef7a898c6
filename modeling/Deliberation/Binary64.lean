/-!
The parts of a floating number of 64 bits: the sign, 11 bits of the exponent, and 52 bits of the
fraction.
-/

namespace Deliberation.Binary64

/-- The weight of the lowest bit of the exponent, two to the power 52. -/
def exponentUnit : Nat := 4503599627370496

/-- The number of exponents, two to the power 11. -/
def exponentCount : Nat := 2048

/-- The weight of the sign, two to the power 63. -/
def signUnit : Nat := 9223372036854775808

def isNegative (bits : UInt64) : Bool := signUnit ≤ bits.toNat

def exponent (bits : UInt64) : Nat := bits.toNat / exponentUnit % exponentCount

def fraction (bits : UInt64) : Nat := bits.toNat % exponentUnit

end Deliberation.Binary64
