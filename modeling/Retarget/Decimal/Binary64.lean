import Retarget.Decimal.Basic

/-!
# Floating-point numbers of 64 bits

A `Binary64` is a bit pattern: one sign bit, eleven exponent bits and fifty-two fraction bits.
Its numeric reading is `significand * 2 ^ scale`. All arithmetic here is on natural numbers, so
rounding is exact and can be reasoned about.

Main definitions:

* `Binary64.ofRatio`     the nearest number to a fraction, a tie going to the even significand
* `Decimal.toBinary64`   the nearest number to a decimal
* `Binary64.equal`       numeric equality: no NaN equals anything, and both zeros are equal
-/

namespace Retarget

/-- A bit pattern of the 64-bit binary format. Two patterns are `=` when all bits agree. -/
structure Binary64 where
  bits : UInt64
deriving DecidableEq, Repr, Inhabited

namespace Binary64

/-- The weight of the sign bit. -/
def signWeight : Nat := Nat.pow 2 63

/-- The weight of the lowest bit of the exponent field. -/
def exponentWeight : Nat := Nat.pow 2 52

/-- The sign bit. -/
def negative (x : Binary64) : Bool := x.bits.toNat / signWeight = 1

/-- All bits but the sign, as a number; larger patterns are larger magnitudes. -/
def magnitude (x : Binary64) : Nat := x.bits.toNat % signWeight

/-- The exponent field. -/
def exponentField (x : Binary64) : Nat := x.magnitude / exponentWeight

/-- The fraction field. -/
def fractionField (x : Binary64) : Nat := x.magnitude % exponentWeight

/-- The magnitude pattern of infinity, just above all finite numbers. -/
def infinityMagnitude : Nat := 2047 * exponentWeight

/-- The pattern with a given sign and magnitude pattern. -/
def ofMagnitude (negative : Bool) (magnitude : Nat) : Binary64 :=
  ⟨UInt64.ofNat ((if negative then signWeight else 0) + magnitude)⟩

/-- Whether the pattern stands for no number. -/
def isNaN (x : Binary64) : Bool := infinityMagnitude < x.magnitude

/-- Whether the pattern stands for a real number. -/
def isFinite (x : Binary64) : Bool := x.magnitude < infinityMagnitude

/-- Whether the number is a zero of either sign. -/
def isZero (x : Binary64) : Bool := x.magnitude = 0

/-- Infinity with the given sign. -/
def infinity (negative : Bool) : Binary64 := ofMagnitude negative infinityMagnitude

/-- The quiet pattern that stands for no number. -/
def nan : Binary64 := ofMagnitude false (infinityMagnitude + exponentWeight / 2)

/-- Numeric equality. -/
def equal (x y : Binary64) : Bool :=
  !x.isNaN && !y.isNaN && (x.bits = y.bits || (x.isZero && y.isZero))

/-- The whole number that a finite magnitude is a multiple of a power of two of. -/
def significand (x : Binary64) : Nat :=
  if x.exponentField = 0 then x.fractionField else exponentWeight + x.fractionField

/-- The power of two that goes with the significand. -/
def scale (x : Binary64) : Int :=
  if x.exponentField = 0 then -1074 else (x.exponentField : Int) - 1075

/-- The quotient rounded to the nearest whole number, a tie going to the even neighbour. -/
def divNearestEven (num den : Nat) : Nat :=
  let q := num / den
  let r := num % den
  if 2 * r < den then q
  else if den < 2 * r then q + 1
  else if q % 2 = 0 then q else q + 1

/-- The power of a base for a positive exponent, and 1 otherwise. -/
def powUp (base : Nat) (e : Int) : Nat := Nat.pow base e.toNat

/-- The nearest number to `num / den`, both positive. The scale is chosen so that the rounded
    significand has 53 bits, or is the least scale there is; rounding up to the next power of
    two carries into the exponent field by itself. -/
def ofRatio (negative : Bool) (num den : Nat) : Binary64 :=
  -- The scale is the guess or one less: the logarithms are rounded down.
  let guess : Int := (num.log2 : Int) - (den.log2 : Int) - 52
  let scaled (q : Int) : Nat × Nat := (num * powUp 2 (-q), den * powUp 2 q)
  let small : Bool := match scaled guess with
    | (n, d) => n < exponentWeight * d
  let q := max (if small then guess - 1 else guess) (-1074)
  let m := match scaled q with
    | (n, d) => divNearestEven n d
  -- At the least scale the leading bit may be missing, and the exponent field is zero then.
  let magnitude := (q + 1074).toNat * exponentWeight + m
  ofMagnitude negative (min magnitude infinityMagnitude)

/-- The nearest number to an integer. -/
def ofInt (n : Int) : Binary64 :=
  if n = 0 then ofMagnitude false 0 else ofRatio (n < 0) n.natAbs 1

end Binary64

/-- The nearest 64-bit number to a decimal. Decimals far outside the range are decided by their
    order of magnitude, so that no huge power of ten is formed. -/
def Decimal.toBinary64 (d : Decimal) : Binary64 :=
  if d.digits = 0 then .ofMagnitude d.negative 0
  else
    let order := (digitCount d.digits : Int) + d.exponent
    if 310 < order then .infinity d.negative
    else if order < -330 then .ofMagnitude d.negative 0
    else .ofRatio d.negative (d.digits * Binary64.powUp 10 d.exponent)
      (Binary64.powUp 10 (-d.exponent))

/-- Reads a number as a whole text: a decimal, or a name of infinity or of no number, in either
    case of letters and with an optional sign. -/
def Binary64.read? (cs : List Char) : Option Binary64 :=
  match Decimal.readSign cs with
  | (negative, rest) =>
    let word := String.ofList (rest.map Char.toLower)
    if word = "inf" || word = "infinity" then some (.infinity negative)
    else if word = "nan" then some .nan
    else (Decimal.readUnsigned? negative rest).map Decimal.toBinary64

end Retarget
