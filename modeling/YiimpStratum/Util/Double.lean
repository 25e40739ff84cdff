import Mathlib.Data.BitVec
import Mathlib.Data.Rat.Defs

/-!
# Doubles

The type `double` by its bits, where only these and the sign are looked at,
and by its values, where a computation divides.
-/

namespace YiimpStratum.Util

/-- A double in the format of 64 bits. -/
structure Double where
  bits : BitVec 64
deriving DecidableEq

namespace Double

def zero : Double where
  bits := 0

def sign (double : Double) : Bool :=
  double.bits.msb

/-- The bits without the sign. -/
def magnitude (double : Double) : Nat :=
  double.bits.toNat % 2 ^ 63

/-- The exponent is the largest and the fraction is not zero. -/
def isNan (double : Double) : Bool :=
  2047 * 2 ^ 52 < double.magnitude

/-- The comparison `double < 0.` -/
def isNegative (double : Double) : Bool :=
  double.sign && ! double.isNan && double.magnitude != 0

end Double

/-- A double that was made from a JSON number. -/
inductive Number where
  | double (value : Double)
  /-- the double of an `int` -/
  | integer (value : Int)

/-- The comparison with `0.` -/
def Number.isNegative : Number → Bool
  | double value => value.isNegative
  | integer value => value < 0

/-- The values of a double without its rounding; zero has no sign. -/
inductive DoubleValue where
  | number (value : Rat)
  | infinity (negative : Bool)
  | nan
  deriving DecidableEq

namespace DoubleValue

/-- The division by a number. -/
def div : DoubleValue → Rat → DoubleValue
  | number value, divisor =>
      if divisor ≠ 0 then number (value / divisor)
      else if value = 0 then nan
      else infinity (value < 0)
  | infinity negative, divisor => infinity (xor negative (divisor < 0))
  | nan, _ => nan

/-- The product with an `int`. -/
def mulInt (factor : Int) : DoubleValue → DoubleValue
  | number value => number (factor * value)
  | infinity negative =>
      if factor = 0 then nan else infinity (xor negative (factor < 0))
  | nan => nan

/-- The comparison `value < bound`. -/
def less : DoubleValue → Rat → Bool
  | number value, bound => value < bound
  | infinity negative, _ => negative
  | nan, _ => false

end DoubleValue

end YiimpStratum.Util
