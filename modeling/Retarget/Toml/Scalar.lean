import Retarget.Toml.Basic

/-!
# Numbers, dates and truth values of TOML

These values are single words. `Toml.scalar?` says which value a word stands for, if any.
-/

namespace Retarget.Toml

/-- Digits of a class, with single underscores between digits only. -/
def digitsOf? (p : Char → Bool) : List Char → Option (List Char)
  | [] => none
  | [c] => if p c then some [c] else none
  | c :: '_' :: rest => if p c then (digitsOf? p rest).map (c :: ·) else none
  | c :: rest => if p c then (digitsOf? p rest).map (c :: ·) else none

/-- Decimal digits in which no zero leads others. -/
def decimalDigits? (cs : List Char) : Option (List Char) :=
  match digitsOf? Char.isDigit cs with
  | some ('0' :: _ :: _) => none
  | ds => ds

/-- The value of digits in a base up to sixteen. -/
def valueIn (base : Nat) (ds : List Char) : Nat :=
  ds.foldl (fun n c =>
    base * n + (if c.isDigit then c.toNat - '0'.toNat else c.toLower.toNat - 'a'.toNat + 10)) 0

/-- Digits in a base other than ten. -/
def basedInteger? (base : Nat) (p : Char → Bool) (cs : List Char) : Option Int := do
  return valueIn base (← digitsOf? p cs)

/-- The integer that a word spells. -/
def integer? (cs : List Char) : Option Int := do
  let n ← match cs with
    | '0' :: 'x' :: ds =>
      basedInteger? 16 (fun c => c.isDigit || ('a' ≤ c.toLower && c.toLower ≤ 'f')) ds
    | '0' :: 'o' :: ds => basedInteger? 8 (fun c => '0' ≤ c && c ≤ '7') ds
    | '0' :: 'b' :: ds => basedInteger? 2 (fun c => c = '0' || c = '1') ds
    -- Only a decimal integer has a sign.
    | _ => do
      let (negative, rest) := Decimal.readSign cs
      let n : Int := valueIn 10 (← decimalDigits? rest)
      return if negative then -n else n
  if Int64.minValue.toInt ≤ n && n ≤ Int64.maxValue.toInt then return n else none

/-- Splits a word at the first character of a class. -/
def splitAt (p : Char → Bool) (cs : List Char) : List Char × Option (List Char) :=
  match cs.dropWhile (!p ·) with
  | [] => (cs, none)
  | _ :: rest => (cs.takeWhile (!p ·), some rest)

/-- The exponent of a number, or zero. -/
def exponent? : Option (List Char) → Option Int
  | none => some 0
  | some cs => do
    let (negative, rest) := Decimal.readSign cs
    let n : Int := valueIn 10 (← digitsOf? Char.isDigit rest)
    return if negative then -n else n

/-- The number with a fraction or an exponent that a word spells. One that is too large for a
    finite number is refused unless it is negative. -/
def real? (cs : List Char) : Option Binary64 := do
  let (negative, rest) := Decimal.readSign cs
  if rest = ['i', 'n', 'f'] then return .infinity negative
  if rest = ['n', 'a', 'n'] then return .nan
  let (mantissa, exp) := splitAt (fun c => c = 'e' || c = 'E') rest
  let (whole, fraction) := splitAt (· = '.') mantissa
  -- Without either the word is an integer or no number.
  if exp.isNone && fraction.isNone then none
  let wholeDigits ← decimalDigits? whole
  let fractionDigits ← match fraction with
    | none => some []
    | some ds => digitsOf? Char.isDigit ds
  let e ← exponent? exp
  let x := Decimal.toBinary64
    ⟨negative, valueIn 10 (wholeDigits ++ fractionDigits), e - fractionDigits.length⟩
  if x = .infinity false then none else return x

/-- A number of exactly `count` digits between two bounds. -/
def fixed? (count low high : Nat) (cs : List Char) : Option (Nat × List Char) :=
  let ds := cs.take count
  let n := valueIn 10 ds
  if ds.length = count && ds.all Char.isDigit && low ≤ n && n ≤ high then
    some (n, cs.drop count)
  else none

/-- The number of days of a month. -/
def daysIn (year month : Nat) : Nat :=
  if month = 2 then
    if year % 4 = 0 && (year % 100 ≠ 0 || year % 400 = 0) then 29 else 28
  else if month = 4 || month = 6 || month = 9 || month = 11 then 30
  else 31

/-- Reads a given character. -/
def mark? (c : Char) : List Char → Option (List Char)
  | d :: cs => if d = c then some cs else none
  | [] => none

/-- Reads a date `YYYY-MM-DD`. -/
def date? (cs : List Char) : Option (List Char) := do
  let (year, cs) ← fixed? 4 0 9999 cs
  let (month, cs) ← fixed? 2 1 12 (← mark? '-' cs)
  let (_, cs) ← fixed? 2 1 (daysIn year month) (← mark? '-' cs)
  return cs

/-- Reads a time `hh:mm:ss` with an optional fraction. -/
def time? (cs : List Char) : Option (List Char) := do
  let (_, cs) ← fixed? 2 0 23 cs
  let (_, cs) ← fixed? 2 0 59 (← mark? ':' cs)
  -- Sixty is the second that is inserted now and then.
  let (_, cs) ← fixed? 2 0 60 (← mark? ':' cs)
  match cs with
  | '.' :: d :: rest => if d.isDigit then return rest.dropWhile Char.isDigit else none
  | '.' :: [] => none
  | _ => return cs

/-- Reads an optional offset from universal time, to the end. -/
def zone? : List Char → Option Unit
  | [] => some ()
  | ['Z'] => some ()
  | ['z'] => some ()
  | c :: cs => do
    if c ≠ '+' && c ≠ '-' then none
    let (_, cs) ← fixed? 2 0 23 cs
    let (_, cs) ← fixed? 2 0 59 (← mark? ':' cs)
    if cs.isEmpty then return () else none

/-- Whether a word is a date alone, which a time may follow after a blank. -/
def isDate (cs : List Char) : Bool := date? cs = some []

/-- Whether a word is a date, a time, or both. -/
def isDatetime (cs : List Char) : Bool :=
  match date? cs with
  | some [] => true
  | some (c :: rest) =>
    (c = 'T' || c = 't' || c = ' ') && ((time? rest).bind zone?).isSome
  | none => time? cs = some []

/-- The value that a word stands for. -/
def scalar? (cs : List Char) : Option Node :=
  if cs = ['t', 'r', 'u', 'e'] then some (.bool true)
  else if cs = ['f', 'a', 'l', 's', 'e'] then some (.bool false)
  else if isDatetime cs then some .datetime
  else
    match integer? cs, real? cs with
    | some n, _ => some (.integer n)
    | none, some x => some (.real x)
    | none, none => none

end Retarget.Toml
