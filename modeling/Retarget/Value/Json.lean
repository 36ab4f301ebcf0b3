import Retarget.Value.Basic
import Retarget.Json.Decode

/-!
# Documents of values

A value is written as an object with its `kind` and, except for `null`, its `value`. Types are
written as their texts, so only a type that reads back from its text survives the way there and
back. Numbers that are not finite are written as `null` and do not read back.

* `Value.toJson`, `Value.ofJson`   the two directions
-/

namespace Retarget

namespace Value

/-- The kinds of values. -/
inductive Kind where
  | null
  | bool
  | int
  | float
  | str
  | object
  | query
deriving DecidableEq, Repr, Inhabited

namespace Kind

/-- The name of a kind. -/
def render : Kind → String
  | .null => "null"
  | .bool => "bool"
  | .int => "int"
  | .float => "float"
  | .str => "str"
  | .object => "object"
  | .query => "query"

/-- The kind with a given name. -/
def ofName? : String → Option Kind
  | "null" => some .null
  | "bool" => some .bool
  | "int" => some .int
  | "float" => some .float
  | "str" => some .str
  | "object" => some .object
  | "query" => some .query
  | _ => none

/-- The kind that a document gives by a name. -/
def named (name : String) : Decoded Kind :=
  match ofName? name with
  | some k => .ok k
  | none =>
    .error (.unknownCase name ["null", "bool", "int", "float", "str", "object", "query"])

/-- The kind that a document names. -/
def ofJson (j : Json) : Decoded Kind := do named (← j.asCaseName)

end Kind

/-- The kind of a value. -/
def kind : Value → Kind
  | .null => .null
  | .bool _ => .bool
  | .int _ => .int
  | .float _ => .float
  | .str _ => .str
  | .object _ _ => .object
  | .query _ _ => .query

/-- An object with a kind and a payload. -/
def tagged (k : Kind) (payload : Json) : Json :=
  .obj [("kind", .str k.render), ("value", payload)]

mutual

/-- The document of a value. -/
def toJson : Value → Json
  | .null => .obj [("kind", .str Kind.null.render)]
  | .bool b => tagged .bool (.bool b)
  | .int n => tagged .int (.integer n.toInt)
  | .float x => tagged .float (Json.ofBinary64 x)
  | .str s => tagged .str (.str s)
  | .object t fields =>
    tagged .object (.obj [("fields", .arr (fieldsToJson fields)), ("ty", .str t.render)])
  | .query elem items =>
    tagged .query (.obj [("elem", .str elem.render), ("items", .arr (itemsToJson items))])

/-- Fields as pairs of a name and a value. -/
def fieldsToJson : List (String × Value) → List Json
  | [] => []
  | (name, v) :: rest => .arr [.str name, toJson v] :: fieldsToJson rest

/-- Items in their order. -/
def itemsToJson : List Value → List Json
  | [] => []
  | v :: rest => toJson v :: itemsToJson rest

end

/-- The integer that fits 64 bits with a sign. -/
def intOfJson : Json → Decoded Int64
  | .integer n =>
    if Int64.minValue.toInt ≤ n && n ≤ Int64.maxValue.toInt then .ok (Int64.ofInt n)
    else .error .mismatch
  | _ => .error .mismatch

/-- A number; an integer is rounded to the nearest floating-point number. -/
def floatOfJson : Json → Decoded Binary64
  | .integer n => .ok (Binary64.ofInt n)
  | .real x => .ok x
  | _ => .error .mismatch

mutual

/-- The value that a document describes: an object, or an array of the kind and the payload. In
    an array the kind is a plain string. -/
def ofJson : Json → Decoded Value
  | .obj fields => ofTagged none fields
  | .arr (.str name :: payload :: surplus) =>
    match Kind.named name with
    | .ok k =>
      match ofPayload k payload with
      -- Surplus items are noticed last, after any fault in the payload.
      | .ok v => if surplus.isEmpty then .ok v else .error .mismatch
      | .error e => .error e
    | .error e => .error e
  | _ => .error .mismatch

/-- Visits the fields of a tagged object. Keys increase, so the kind comes before the payload;
    only `null` may go without one, and other fields are ignored. -/
def ofTagged (k : Option Kind) : List (String × Json) → Decoded Value
  | [] => if k = some .null then .ok .null else .error .mismatch
  | (key, j) :: rest =>
    if key = "kind" then
      match Kind.ofJson j with
      | .ok k => ofTagged (some k) rest
      | .error e => .error e
    else if key = "value" then
      match k with
      | some k => ofPayload k j
      | none => .error .mismatch
    else ofTagged k rest

/-- Reads the payload of a kind. -/
def ofPayload (k : Kind) (j : Json) : Decoded Value :=
  match k, j with
  | .null, .null => .ok .null
  | .null, _ => .error .mismatch
  | .bool, j => j.asBool.map .bool
  | .int, j => (intOfJson j).map .int
  | .float, j => (floatOfJson j).map .float
  | .str, j => j.asText.map .str
  | .object, .obj fields => ofObject none none fields
  | .object, _ => .error .mismatch
  | .query, .obj fields => ofQuery none none fields
  | .query, _ => .error .mismatch

/-- Visits the payload of an object. -/
def ofObject (t : Option Ty) (fields : Option (List (String × Value))) :
    List (String × Json) → Decoded Value
  | [] =>
    match t, fields with
    | some t, some fields => .ok (.object t fields)
    | _, _ => .error .mismatch
  | (key, j) :: rest =>
    if key = "fields" then
      match j with
      | .arr items =>
        match ofFieldList items with
        | .ok fields => ofObject t (some fields) rest
        | .error e => .error e
      | _ => .error .mismatch
    else if key = "ty" then
      match j.asTy with
      | .ok t => ofObject (some t) fields rest
      | .error e => .error e
    else ofObject t fields rest

/-- Visits the payload of a query. -/
def ofQuery (elem : Option Ty) (items : Option (List Value)) :
    List (String × Json) → Decoded Value
  | [] =>
    match elem, items with
    | some elem, some items => .ok (.query elem items)
    | _, _ => .error .mismatch
  | (key, j) :: rest =>
    if key = "elem" then
      match j.asTy with
      | .ok elem => ofQuery (some elem) items rest
      | .error e => .error e
    else if key = "items" then
      match j with
      | .arr docs =>
        match ofItemList docs with
        | .ok items => ofQuery elem (some items) rest
        | .error e => .error e
      | _ => .error .mismatch
    else ofQuery elem items rest

/-- Reads fields, each a pair of a name and a value. -/
def ofFieldList : List Json → Decoded (List (String × Value))
  | [] => .ok []
  | .arr (.str name :: j :: surplus) :: rest =>
    match ofJson j with
    | .ok v =>
      if surplus.isEmpty then (ofFieldList rest).map ((name, v) :: ·) else .error .mismatch
    | .error e => .error e
  | _ :: _ => .error .mismatch

/-- Reads items. -/
def ofItemList : List Json → Decoded (List Value)
  | [] => .ok []
  | j :: rest =>
    match ofJson j with
    | .ok v => (ofItemList rest).map (v :: ·)
    | .error e => .error e

end

end Value

end Retarget
