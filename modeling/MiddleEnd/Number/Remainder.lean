/-!
The remainder of a division of doubles, exactly: both operands are brought to one exponent,
and the rest is a remainder of natural numbers.
-/

namespace MiddleEnd

/-- A finite double: sign, mantissa and the power of two that it is multiplied with. -/
structure Dyadic where
  negative : Bool
  mantissa : Nat
  exponent : Int
  deriving DecidableEq

namespace Dyadic

def minExponent : Int := -1074

/-- Reads sign, exponent and fraction of a double, which has to be finite. -/
def ofFloat (x : Float) : Dyadic :=
  let bits := x.toBits.toNat
  let exponent := (bits >>> 52) % (1 <<< 11)
  let fraction := bits % (1 <<< 52)
  let negative := bits >>> 63 = 1
  if exponent = 0 then { negative, mantissa := fraction, exponent := minExponent }
  else
    { negative
      mantissa := (1 <<< 52) + fraction
      exponent := minExponent + (exponent - 1 : Nat) }

/-- The double with this value, where there is one: the mantissa has at most 53 digits and the
exponent is neither too small nor too large. -/
def toFloat (d : Dyadic) : Float :=
  let room := (d.exponent - minExponent).toNat
  let shift := min room (52 - d.mantissa.log2)
  let mantissa := d.mantissa <<< shift
  let exponent := if mantissa < 1 <<< 52 then 0 else room - shift + 1
  let sign := if d.negative then 1 <<< 63 else 0
  Float.ofBits (UInt64.ofNat (sign + (exponent <<< 52) + mantissa % (1 <<< 52)))

def remainder (a b : Dyadic) : Dyadic :=
  let exponent := min a.exponent b.exponent
  let scale := fun (d : Dyadic) => d.mantissa <<< (d.exponent - exponent).toNat
  { negative := a.negative, mantissa := scale a % scale b, exponent }

end Dyadic

/-- What is left of `x` after taking away `y` as often as it goes in, counted toward zero. There
is none for an infinite `x` and for a zero `y`. -/
def remainder (x y : Float) : Float :=
  if x.isNaN || y.isNaN || x.isInf || y == 0 then 0 / 0
  else if y.isInf then x
  else ((Dyadic.ofFloat x).remainder (Dyadic.ofFloat y)).toFloat

end MiddleEnd
