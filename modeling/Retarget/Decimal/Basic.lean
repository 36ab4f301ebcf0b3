/-!
# Decimal numerals

A decimal is a signed whole number times a power of ten. `Decimal.read?` reads the spelling
with optional sign, fraction and exponent; what the sign of a zero is worth is left to the
type that a decimal is rounded to.
-/

namespace Retarget

/-- The number `digits * 10 ^ exponent`, negated if `negative` is set. -/
structure Decimal where
  negative : Bool
  digits : Nat
  exponent : Int
deriving DecidableEq, Repr, Inhabited

namespace Decimal

/-- The value of a run of decimal digits. -/
def digitsValue (ds : List Char) : Nat :=
  ds.foldl (fun n c => 10 * n + (c.toNat - '0'.toNat)) 0

/-- Reads an optional sign: whether it is a minus, and the rest. -/
def readSign : List Char → Bool × List Char
  | '-' :: cs => (true, cs)
  | '+' :: cs => (false, cs)
  | cs => (false, cs)

/-- Reads the part after the exponent mark: an optional sign and at least one digit, to the end. -/
def readExponent? (cs : List Char) : Option Int :=
  match readSign cs with
  | (_, []) => none
  | (negative, ds) =>
    if ds.all Char.isDigit then
      some (if negative then -(digitsValue ds : Int) else (digitsValue ds : Int))
    else none

/-- Reads `digits [. digits] [e exponent]`, with at least one digit before the exponent. -/
def readUnsigned? (negative : Bool) (cs : List Char) : Option Decimal :=
  let whole := cs.takeWhile Char.isDigit
  let afterWhole := cs.dropWhile Char.isDigit
  let (fraction, rest) :=
    match afterWhole with
    | '.' :: more => (more.takeWhile Char.isDigit, more.dropWhile Char.isDigit)
    | other => ([], other)
  let digits := digitsValue (whole ++ fraction)
  let places : Int := fraction.length
  if whole.isEmpty && fraction.isEmpty then none
  else
    match rest with
    | [] => some ⟨negative, digits, -places⟩
    | c :: more =>
      if c = 'e' || c = 'E' then
        (readExponent? more).map fun e => ⟨negative, digits, e - places⟩
      else none

/-- The decimal that a whole text spells. -/
def read? (cs : List Char) : Option Decimal :=
  match readSign cs with
  | (negative, rest) => readUnsigned? negative rest

/-- The number of digits in the shortest decimal spelling of a natural number. -/
def digitCount (n : Nat) : Nat := (Nat.toDigits 10 n).length

end Decimal

end Retarget
