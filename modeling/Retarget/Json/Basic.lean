import Retarget.Decimal.Shortest

/-!
# JSON documents

Integers are kept apart from other numbers, because only an integer literal can be read as one.
An object holds its fields in a list; documents that are read or written here have their keys in
increasing order, each once.

Main definitions:

* `Json.ofFields`   an object from fields in any order, the last of a key counting
* `Json.compact`    the text without blanks
* `Json.pretty`     the text over several lines
-/

namespace Retarget

/-- A JSON document. -/
inductive Json where
  | null
  | bool (b : Bool)
  /-- A number written without fraction and exponent. -/
  | integer (n : Int)
  /-- Any other number. -/
  | real (x : Binary64)
  | str (s : String)
  | arr (items : List Json)
  | obj (fields : List (String × Json))
deriving Inhabited

namespace Json

/-- The form of a number, which is `null` when it is not finite. -/
def ofBinary64 (x : Binary64) : Json :=
  if x.isFinite then .real x else .null

/-- The form of an optional part. -/
def ofOption {α : Type} (form : α → Json) : Option α → Json
  | none => .null
  | some a => form a

/-- Puts a field in its place among fields with increasing keys, replacing one of its key. -/
def insertField (key : String) (value : Json) : List (String × Json) → List (String × Json)
  | [] => [(key, value)]
  | (k, v) :: rest =>
    if key = k then (key, value) :: rest
    else if key < k then (key, value) :: (k, v) :: rest
    else (k, v) :: insertField key value rest

/-- The object with the given fields. -/
def ofFields (fields : List (String × Json)) : Json :=
  .obj (fields.foldl (fun sorted (k, v) => insertField k v sorted) [])

/-- The value of a field of an object. -/
def field? (name : String) : Json → Option Json
  | .obj fields => fields.lookup name
  | _ => none

/-! ## Text -/

/-- Numbers from `1e-5` to below `1e16` are written with the point in place. -/
def layout : Layout := ⟨-4, 16⟩

/-- The four-digit escape of a control character. -/
def controlEscape (c : Char) : List Char :=
  let digits := Nat.toDigits 16 c.toNat
  ['\\', 'u'] ++ List.replicate (4 - digits.length) '0' ++ digits

/-- How one character is written inside a string. -/
def escapeChar (c : Char) : List Char :=
  if c = '"' || c = '\\' then ['\\', c]
  else if c = '\n' then ['\\', 'n']
  else if c = '\r' then ['\\', 'r']
  else if c = '\t' then ['\\', 't']
  else if c.toNat = 8 then ['\\', 'b']
  else if c.toNat = 12 then ['\\', 'f']
  else if c.toNat < 32 then controlEscape c
  else [c]

/-- A string between its quotes. -/
def quote (s : String) : String :=
  String.ofList ('"' :: (s.toList.flatMap escapeChar ++ ['"']))

/-- Literals, strings and numbers are written the same way in every layout. -/
def scalar : Json → String
  | .null => "null"
  | .bool b => if b then "true" else "false"
  | .integer n => toString n
  | .real x => layout.render x
  | .str s => quote s
  | .arr _ => "[]"
  | .obj _ => "\x7b\x7d"

mutual

/-- The text without blanks. -/
def compact : Json → String
  | .arr items => "[" ++ compactItems items ++ "]"
  | .obj fields => "\x7b" ++ compactFields fields ++ "\x7d"
  | other => scalar other

/-- Items separated by commas. -/
def compactItems : List Json → String
  | [] => ""
  | [item] => compact item
  | item :: rest => compact item ++ "," ++ compactItems rest

/-- Fields separated by commas. -/
def compactFields : List (String × Json) → String
  | [] => ""
  | [(key, value)] => quote key ++ ":" ++ compact value
  | (key, value) :: rest => quote key ++ ":" ++ compact value ++ "," ++ compactFields rest

end

/-- The start of a line at a nesting depth, two blanks a level. -/
def newline (depth : Nat) : String :=
  String.ofList ('\n' :: List.replicate (2 * depth) ' ')

mutual

/-- The text with one item or field a line. -/
def prettyAt (depth : Nat) : Json → String
  | .arr (item :: rest) =>
    "[" ++ newline (depth + 1) ++ prettyAt (depth + 1) item ++ prettyItems depth rest ++ "]"
  | .obj ((key, value) :: rest) =>
    "\x7b" ++ newline (depth + 1) ++ quote key ++ ": " ++ prettyAt (depth + 1) value
      ++ prettyFields depth rest ++ "\x7d"
  | other => scalar other

/-- The items after the first and the end of the last line. -/
def prettyItems (depth : Nat) : List Json → String
  | [] => newline depth
  | item :: rest =>
    "," ++ newline (depth + 1) ++ prettyAt (depth + 1) item ++ prettyItems depth rest

/-- The fields after the first and the end of the last line. -/
def prettyFields (depth : Nat) : List (String × Json) → String
  | [] => newline depth
  | (key, value) :: rest =>
    "," ++ newline (depth + 1) ++ quote key ++ ": " ++ prettyAt (depth + 1) value
      ++ prettyFields depth rest

end

/-- The text over several lines, indented by two blanks a level. -/
def pretty (j : Json) : String := prettyAt 0 j

end Json

end Retarget
