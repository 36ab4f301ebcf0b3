import Retarget.Decimal.Shortest
import Retarget.Text.Quoted
import Retarget.Ty.Basic

/-!
# Constant values

The payload of a constant node: a scalar, an object with named fields, or an in-memory query.

* `Value.ty`      the static type of a value
* `Value.equal`   equality in which floats are compared as numbers
* `Value.render`  the text of a value; objects and queries show their type only
-/

namespace Retarget

/-- A constant. -/
inductive Value where
  | null
  | bool (b : Bool)
  | int (n : Int64)
  | float (x : Binary64)
  | str (s : String)
  /-- An object, typically one that holds captured variables. -/
  | object (ty : Ty) (fields : List (String × Value))
  /-- A source of queries that is held in memory. -/
  | query (elem : Ty) (items : List Value)
deriving Inhabited

namespace Value

/-- The static type of a value. Nothing more is known of `null` than that it is an object. -/
def ty : Value → Ty
  | .null => Ty.object
  | .bool _ => Ty.bool
  | .int _ => Ty.long
  | .float _ => Ty.double
  | .str _ => Ty.string
  | .object t _ => t
  | .query elem _ => Ty.query elem

/-- The first field of an object with a given name. -/
def field? (name : String) : Value → Option Value
  | .object _ fields => fields.lookup name
  | _ => none

mutual

/-- Equality of values. Floats are equal as numbers: no NaN equals itself, and the two zeros are
    equal. -/
def equal : Value → Value → Bool
  | .null, .null => true
  | .bool a, .bool b => a = b
  | .int a, .int b => a = b
  | .float a, .float b => a.equal b
  | .str a, .str b => a = b
  | .object t fs, .object u gs => t = u && equalFields fs gs
  | .query t xs, .query u ys => t = u && equalItems xs ys
  | _, _ => false

/-- Equality of fields, names included. -/
def equalFields : List (String × Value) → List (String × Value) → Bool
  | [], [] => true
  | (m, v) :: fs, (n, w) :: gs => m = n && equal v w && equalFields fs gs
  | _, _ => false

/-- Equality of items. -/
def equalItems : List Value → List Value → Bool
  | [], [] => true
  | v :: xs, w :: ys => equal v w && equalItems xs ys
  | _, _ => false

end

/-- Numbers from `1e-4` to below `1e16` are shown with the point in place. -/
def layout : Layout := ⟨-3, 16⟩

/-- The text of a value. -/
def render : Value → String
  | .null => "null"
  | .bool b => if b then "true" else "false"
  | .int n => toString n.toInt
  | .float x => layout.render x
  | .str s => Text.quote s
  | .object t _ => "value(" ++ t.render ++ ")"
  | .query elem _ => "value(Query<" ++ elem.render ++ ">)"

end Value

end Retarget
