import Retarget.Json.Basic
import Retarget.Text.Span

/-!
# TOML documents

A document is a table of keys in the order in which they were first written. Texts keep the
bytes they were written in, quotes included. While a document is read its tables can still
grow, and how a table came about decides how:

* a table that a header declares takes no second header and no dotted key from outside;
* a table that a header only passes through may be declared later, once;
* a table that dotted keys make grows by dotted keys, and by headers of its subtables;
* an inline table is closed.

Main definitions:

* `Toml.Entries.put`        a key with a value, along a dotted path
* `Toml.Entries.declare`    a table header
* `Toml.Entries.append`     a header of one more table in an array
-/

namespace Retarget.Toml

/-- How a table came about. -/
inductive Origin where
  /-- By its own header, or as the document itself. -/
  | declared
  /-- On the way to another header. -/
  | passed
  /-- By dotted keys. -/
  | dotted
  /-- Between braces. -/
  | inlined
deriving DecidableEq, Repr

/-- A value of a document. -/
inductive Node where
  /-- A text and the bytes it was written in. -/
  | text (s : String) (span : Span)
  | integer (n : Int)
  | real (x : Binary64)
  | bool (b : Bool)
  /-- A date, a time or both. -/
  | datetime
  | array (items : List Node)
  | table (origin : Origin) (entries : List (String × Node))
  /-- An array made by headers: the tables before the last, and the last. -/
  | tables (earlier : List (List (String × Node))) (last : List (String × Node))
deriving Inhabited

/-- The keys of a table with their values. -/
abbrev Entries := List (String × Node)

namespace Entries

/-- Puts another value in the place of a key. -/
def replace (es : Entries) (key : String) (v : Node) : Entries :=
  es.map fun (k, w) => if k = key then (k, v) else (k, w)

/-- Removes a key. -/
def remove (es : Entries) (key : String) : Entries :=
  es.filter (·.1 ≠ key)

/-- Changes the table at the end of a path, making the tables on the way that are missing. The
    path of a dotted key may not enter a table that has a header; any path enters the last table
    of an array of tables, and none enters a value. -/
def modifyAt (dotted : Bool) (change : Origin → Entries → Option Entries) :
    List String → Origin → Entries → Option Entries
  | [], origin, es => change origin es
  | key :: path, _, es =>
    match es.lookup key with
    | none => do
      let origin := if dotted then .dotted else .passed
      return es ++ [(key, .table origin (← modifyAt dotted change path origin []))]
    | some (.tables earlier last) => do
      return replace es key (.tables earlier (← modifyAt dotted change path .declared last))
    | some (.table origin sub) =>
      if origin = .inlined || (dotted && origin = .declared) then none
      else do return replace es key (.table origin (← modifyAt dotted change path origin sub))
    | some _ => none

/-- Adds a key to the table at the end of a dotted path. A key is given once, and only dotted
    keys add to a table that dotted keys made. -/
def put (path : List String) (key : String) (v : Node) (es : Entries) : Option Entries :=
  modifyAt true (fun origin sub =>
    if !path.isEmpty && origin ≠ .dotted then none
    else if (sub.lookup key).isSome then none
    else some (sub ++ [(key, v)])) path .declared es

/-- Declares the table of a header. A table that was passed through moves behind its siblings. -/
def declare (path : List String) (key : String) (es : Entries) : Option Entries :=
  modifyAt false (fun _ sub =>
    match sub.lookup key with
    | none => some (sub ++ [(key, .table .declared [])])
    -- What headers below it have put there stays.
    | some (.table .passed inner) => some (remove sub key ++ [(key, .table .declared inner)])
    | some _ => none) path .declared es

/-- Begins one more table of an array of tables. -/
def append (path : List String) (key : String) (es : Entries) : Option Entries :=
  modifyAt false (fun _ sub =>
    match sub.lookup key with
    | none => some (sub ++ [(key, .tables [] [])])
    -- The table that was the last does not change any more.
    | some (.tables earlier last) => some (replace sub key (.tables (earlier ++ [last]) []))
    | some _ => none) path .declared es

/-- Adds a key to the table of the last header. -/
def putUnder (current path : List String) (key : String) (v : Node) (es : Entries) :
    Option Entries :=
  modifyAt false (fun _ sub => put path key v sub) current .declared es

end Entries

/-! ## Plain view -/

/-- The key of a date where a table is asked for. -/
def dateKey : String := "$__toml_private_datetime"

mutual

/-- The document without spans and origins. A date is a table of one key, `dateKey`. -/
def Node.toJson : Node → Json
  | .text s _ => .str s
  | .integer n => .integer n
  | .real x => .real x
  | .bool b => .bool b
  | .datetime => .obj [(dateKey, .null)]
  | .array items => .arr (listToJson items)
  | .table _ es => .obj (entriesToJson es)
  | .tables earlier last => .arr (tablesToJson earlier ++ [.obj (entriesToJson last)])

/-- The items of an array. -/
def listToJson : List Node → List Json
  | [] => []
  | v :: vs => v.toJson :: listToJson vs

/-- The entries of a table, in their order. -/
def entriesToJson : List (String × Node) → List (String × Json)
  | [] => []
  | (k, v) :: es => (k, v.toJson) :: entriesToJson es

/-- Tables in their order. -/
def tablesToJson : List (List (String × Node)) → List Json
  | [] => []
  | es :: ts => .obj (entriesToJson es) :: tablesToJson ts

end

/-- The items of an array of either kind. -/
def Node.items? : Node → Option (List Node)
  | .array items => some items
  | .tables earlier last => some ((earlier ++ [last]).map (.table .declared))
  | _ => none

end Retarget.Toml
