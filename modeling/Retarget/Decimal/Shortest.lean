import Retarget.Decimal.Binary64

/-!
# Shortest decimal text

The text of a 64-bit number has the fewest digits that still read back to the same number; of
several such decimals it takes the nearest, and of two equally near the larger magnitude. How
the digits are laid out is the choice of a `Layout`.

Main definitions:

* `Binary64.shortest`   the decimal with the fewest digits
* `Layout.render`       the text of a number
-/

namespace Retarget

namespace Binary64

/-- The order of magnitude of a positive finite number: the greatest `e` with `10 ^ e` not above
    it. The estimate from the binary order is off by at most one. -/
def decimalOrder (x : Binary64) : Int :=
  let m := x.significand
  let q := x.scale
  let estimate := ((m.log2 : Int) + q) * 30103 / 100000
  let reaches (e : Int) : Bool :=
    powUp 10 e * powUp 2 (-q) ≤ m * powUp 2 q * powUp 10 (-e)
  -- The greatest of the three that is reached; the last needs no test.
  ([estimate + 1, estimate].find? reaches).getD (estimate - 1)

/-- The decimal on the grid of multiples of `10 ^ k` that rounds to the positive finite number
    `x`, if one of the two neighbours of `x` on that grid does. Everything is measured in
    quarters of the last binary place: the interval of reals that round to `x` reaches two
    quarters up and two down, or one down where the binary places below are half as wide; its
    ends belong to it when the significand is even. -/
def onGrid? (x : Binary64) (k : Int) : Option Nat :=
  let m := x.significand
  let q := x.scale - 2
  let unit := powUp 2 q * powUp 10 (-k)
  let step := powUp 2 (-q) * powUp 10 k
  let narrow : Bool := x.fractionField = 0 && 1 < x.exponentField
  let value := 4 * m * unit
  let low := (4 * m - (if narrow then 1 else 2)) * unit
  let high := (4 * m + 2) * unit
  let even : Bool := m % 2 = 0
  let d := value / step
  let below : Bool := low < d * step || (even && low = d * step)
  let above : Bool := (d + 1) * step < high || (even && (d + 1) * step = high)
  -- With both in reach the nearer one counts, the upper one if they are equally near.
  match below, above with
  | true, true => some (if step ≤ 2 * (value - d * step) then d + 1 else d)
  | true, false => some d
  | false, true => some (d + 1)
  | false, false => none

/-- Tries the grids of `count`, `count + 1`, … significant digits, `fuel` of them in all. -/
def shortestFrom (x : Binary64) (order : Int) (count : Nat) : Nat → Nat × Int
  | 0 => (x.significand, 0)
  | fuel + 1 =>
    let k := order + 1 - count
    match x.onGrid? k with
    | some d => (d, k)
    | none => shortestFrom x order (count + 1) fuel

/-- The shortest decimal for a finite number. Seventeen digits tell all numbers apart. -/
def shortest (x : Binary64) : Decimal :=
  if x.isZero then ⟨x.negative, 0, 0⟩
  else
    match x.shortestFrom x.decimalOrder 1 17 with
    | (d, k) => ⟨x.negative, d, k⟩

end Binary64

/-- How numbers are laid out: the point is written in place when it stands at one of the
    positions `lowest` to `highest`, counted from the first significant digit; otherwise an
    exponent is written. -/
structure Layout where
  lowest : Int
  highest : Int
deriving DecidableEq, Repr

namespace Layout

/-- Digits with the point written in place, at least one digit on either side of it. -/
def positional (digits : List Char) (point : Int) : List Char :=
  if point ≤ 0 then '0' :: '.' :: (List.replicate (-point).toNat '0' ++ digits)
  else if digits.length ≤ point.toNat then
    digits ++ List.replicate (point.toNat - digits.length) '0' ++ ['.', '0']
  else digits.take point.toNat ++ '.' :: digits.drop point.toNat

/-- Digits with one of them before the point and an exponent, without needless zeros. -/
def scientific (digits : List Char) (point : Int) : List Char :=
  let exponent := (toString (point - 1)).toList
  match digits with
  | [] => []
  | [d] => d :: 'e' :: exponent
  | d :: ds => d :: '.' :: (ds ++ 'e' :: exponent)

/-- The text of a decimal without its sign. -/
def renderMagnitude (l : Layout) (d : Decimal) : List Char :=
  if d.digits = 0 then ['0', '.', '0']
  else
    let all := Nat.toDigits 10 d.digits
    let point : Int := all.length + d.exponent
    let digits := (all.reverse.dropWhile (· = '0')).reverse
    if l.lowest ≤ point && point ≤ l.highest then positional digits point
    else scientific digits point

/-- The text of a number. -/
def render (l : Layout) (x : Binary64) : String :=
  if x.isNaN then "NaN"
  else
    let sign := if x.negative then "-" else ""
    if x.isFinite then sign ++ String.ofList (l.renderMagnitude x.shortest)
    else sign ++ "inf"

end Layout

end Retarget
