import Retarget.Json.Basic
import Retarget.Text.Cursor

/-!
# Reading JSON texts

A whole number without fraction and exponent is an integer if it fits 64 bits, signed or not;
every other number is rounded to the nearest floating-point number, as is a zero with a minus
sign. Main definition: `Json.parse?`.
-/

namespace Retarget

namespace Json

/-- The blanks that may stand between the parts of a document. -/
def isBlank (c : Char) : Bool :=
  c = ' ' || c = '\t' || c = '\n' || c = '\r'

/-- Skips blanks. -/
def blanks : Scanner Unit := do
  let _ ← Scanner.takeWhile isBlank

/-- The value of a hexadecimal digit. -/
def hexDigit? (c : Char) : Option Nat :=
  if c.isDigit then some (c.toNat - '0'.toNat)
  else if 'a' ≤ c && c ≤ 'f' then some (c.toNat - 'a'.toNat + 10)
  else if 'A' ≤ c && c ≤ 'F' then some (c.toNat - 'A'.toNat + 10)
  else none

/-- Reads a fixed number of hexadecimal digits. -/
def hexDigits : (count : Nat) → (sofar : Nat) → Scanner Nat
  | 0, n => pure n
  | count + 1, n => do
    match hexDigit? (← Scanner.next) with
    | some d => hexDigits count (16 * n + d)
    | none => failure

/-- Reads the code point of an escape. One outside the first plane is written as two halves. -/
def codePoint : Scanner Char := do
  let high ← hexDigits 4 0
  let n ←
    if 0xd800 ≤ high && high < 0xdc00 then do
      Scanner.literal ['\\', 'u']
      -- The second half of the pair has to follow at once.
      let low ← hexDigits 4 0
      if 0xdc00 ≤ low && low < 0xe000 then
        pure (0x10000 + (high - 0xd800) * 0x400 + (low - 0xdc00))
      else failure
    else pure high
  if n.isValidChar then return Char.ofNat n else failure

/-- Reads what follows a backslash. -/
def escaped : Scanner Char := do
  match (← Scanner.next) with
  | '"' => return '"'
  | '\\' => return '\\'
  | '/' => return '/'
  | 'b' => return Char.ofNat 8
  | 'f' => return Char.ofNat 12
  | 'n' => return '\n'
  | 'r' => return '\r'
  | 't' => return '\t'
  | 'u' => codePoint
  | _ => failure

/-- Reads one character of a string, or its end. The text so far is in reverse. -/
def stringStep (text : List Char) : Scanner (List Char ⊕ String) := do
  let c ← Scanner.next
  if c = '"' then return .inr (String.ofList text.reverse)
  else if c = '\\' then return .inl ((← escaped) :: text)
  else if c.toNat < 32 then failure
  else return .inl (c :: text)

/-- Reads a string after its opening quote. -/
def string : Scanner String := do
  Scanner.loop stringStep ((← Scanner.remaining) + 1) []

/-- Reads the digits before the point: no zero leads others. -/
def wholeDigits : Scanner (List Char) := do
  let ds ← Scanner.takeWhile1 Char.isDigit
  match ds with
  | '0' :: _ :: _ => failure
  | _ => return ds

/-- Reads an optional sign of an exponent. -/
def exponentSign : Scanner Bool := do
  if (← Scanner.accept '-') then return true
  let _ ← Scanner.accept '+'
  return false

/-- Reads an optional exponent. -/
def exponent? : Scanner (Option Int) := do
  let lower ← Scanner.accept 'e'
  let upper ← if lower then pure false else Scanner.accept 'E'
  if lower || upper then
    let negative ← exponentSign
    let n : Int := Decimal.digitsValue (← Scanner.takeWhile1 Char.isDigit)
    return some (if negative then -n else n)
  else return none

/-- The number that an integer literal stands for. -/
def integerLiteral (negative : Bool) (n : Nat) : Json :=
  if negative then
    -- No integer keeps the sign of a zero.
    if n = 0 || Nat.pow 2 63 < n then .real (Decimal.toBinary64 ⟨true, n, 0⟩) else .integer (-n)
  else
    if n < UInt64.size then .integer n else .real (Decimal.toBinary64 ⟨false, n, 0⟩)

/-- Reads a number. -/
def number : Scanner Json := do
  let negative ← Scanner.accept '-'
  let whole ← wholeDigits
  let fraction ← if (← Scanner.accept '.') then Scanner.takeWhile1 Char.isDigit else pure []
  let exp ← exponent?
  match fraction, exp with
  | [], none => return integerLiteral negative (Decimal.digitsValue whole)
  | _, _ =>
    let digits := Decimal.digitsValue (whole ++ fraction)
    return .real (Decimal.toBinary64 ⟨negative, digits, exp.getD 0 - fraction.length⟩)

mutual

/-- Reads a document; `fuel` bounds the number of parts. -/
def value : (fuel : Nat) → Scanner Json
  | 0 => failure
  | fuel + 1 => do
    blanks
    match (← Scanner.peek?) with
    | some 'n' => Scanner.literal "null".toList; return .null
    | some 't' => Scanner.literal "true".toList; return .bool true
    | some 'f' => Scanner.literal "false".toList; return .bool false
    | some '"' => Scanner.char '"'; return .str (← string)
    | some '[' =>
      Scanner.char '['
      blanks
      if (← Scanner.accept ']') then return .arr [] else return .arr (← items fuel)
    | some '\x7b' =>
      Scanner.char '\x7b'
      blanks
      if (← Scanner.accept '\x7d') then return .obj [] else return .ofFields (← fields fuel)
    | _ => number

/-- Reads the items of an array up to its end. -/
def items : (fuel : Nat) → Scanner (List Json)
  | 0 => failure
  | fuel + 1 => do
    let item ← value fuel
    blanks
    if (← Scanner.accept ',') then return item :: (← items fuel)
    Scanner.char ']'
    return [item]

/-- Reads the fields of an object up to its end. -/
def fields : (fuel : Nat) → Scanner (List (String × Json))
  | 0 => failure
  | fuel + 1 => do
    blanks
    Scanner.char '"'
    let key ← string
    blanks
    Scanner.char ':'
    let v ← value fuel
    blanks
    if (← Scanner.accept ',') then return (key, v) :: (← fields fuel)
    Scanner.char '\x7d'
    return [(key, v)]

end

/-- The document that a text spells. -/
def parse? (text : String) : Option Json :=
  -- Each character accounts for two steps of the recursion at most: an item and its value.
  Scanner.runAll (do let v ← value (2 * text.length + 2); blanks; return v) text

end Json

end Retarget
