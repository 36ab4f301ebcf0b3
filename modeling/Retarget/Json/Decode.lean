import Retarget.Json.Basic
import Retarget.Ty.Parser

/-!
# Decoding documents

The readers that turn a document into domain values share one type of failure. A record is
written as an object, whose fields are visited in the order in which they stand; the first
field that cannot be decoded decides the failure, and fields that are missing are noticed at
the end. A record may also be written as an array of its fields in their declared order.
-/

namespace Retarget

/-- Why a document does not decode. -/
inductive DecodeError where
  /-- A part has the wrong form. -/
  | mismatch
  /-- A record lacks a field. -/
  | missingField (name : String)
  /-- A record has a field that it must not have. -/
  | unknownField (name : String) (expected : List String)
  /-- A choice is none of those there are. -/
  | unknownCase (name : String) (expected : List String)
  /-- The text of a type is malformed. -/
  | typeText (error : SyntaxError)
deriving DecidableEq, Repr

namespace DecodeError

/-- Names between back quotes, with commas. -/
def listing : List String → String
  | [] => ""
  | [n] => "`" ++ n ++ "`"
  | n :: rest => "`" ++ n ++ "`, " ++ listing rest

/-- The choices named in a message. -/
def choices : List String → String
  | [a, b] => "`" ++ a ++ "` or `" ++ b ++ "`"
  | [a] => "`" ++ a ++ "`"
  | names => "one of " ++ listing names

/-- The wording of a failure. -/
def message : DecodeError → String
  | .mismatch => "a value has the wrong form"
  | .missingField n => "missing field `" ++ n ++ "`"
  | .unknownField n expected => "unknown field `" ++ n ++ "`, expected " ++ choices expected
  | .unknownCase n expected => "unknown variant `" ++ n ++ "`, expected " ++ choices expected
  | .typeText e => e.message

end DecodeError

/-- The outcome of decoding. -/
abbrev Decoded := Except DecodeError

namespace Json

/-- A string. -/
def asText : Json → Decoded String
  | .str s => .ok s
  | _ => .error .mismatch

/-- A truth value. -/
def asBool : Json → Decoded Bool
  | .bool b => .ok b
  | _ => .error .mismatch

/-- The items of an array. -/
def asList : Json → Decoded (List Json)
  | .arr items => .ok items
  | _ => .error .mismatch

/-- A type, written as its text. -/
def asTy : Json → Decoded Ty
  | .str s =>
    match Ty.parse s with
    | .ok t => .ok t
    | .error e => .error (.typeText e)
  | _ => .error .mismatch

/-- An array all of whose items decode. -/
def asListOf {α : Type} (item : Json → Decoded α) (j : Json) : Decoded (List α) := do
  (← j.asList).mapM item

/-- The name of a choice: a string, or an object whose only field has no content. -/
def asCaseName : Json → Decoded String
  | .str s => .ok s
  | .obj [(name, .null)] => .ok name
  | _ => .error .mismatch

/-- A field that has to be there. -/
def require {α : Type} (name : String) : Option α → Decoded α
  | some a => .ok a
  | none => .error (.missingField name)

/-- Takes the first item of a record that is written as an array. -/
def element {α : Type} (item : Json → Decoded α) : List Json → Decoded (α × List Json)
  | j :: rest => do return (← item j, rest)
  | [] => .error .mismatch

/-- Takes the first item if there is one. -/
def elementOr {α : Type} (absent : α) (item : Json → Decoded α) :
    List Json → Decoded (α × List Json)
  | j :: rest => do return (← item j, rest)
  | [] => .ok (absent, [])

/-- What is done with surplus items of a record that is written as an array. -/
inductive Surplus where
  | refused
  | ignored
deriving DecidableEq, Repr

/-- Checks the items that are left after all fields. -/
def Surplus.check : Surplus → List Json → Decoded Unit
  | .refused, _ :: _ => .error .mismatch
  | _, _ => .ok ()

end Json

end Retarget
