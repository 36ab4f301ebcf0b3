import Retarget.Catalog.Basic

/-!
# Documents of class declarations

A class is a record of its name and, optionally, its type parameters, properties and fields; a
member is a record of its name, its type and, optionally, whether it is static. Other fields are
ignored.
-/

namespace Retarget

namespace MemberDecl

/-- The fields of a declaration that have been read. -/
structure Draft where
  name : Option String := none
  ty : Option Ty := none
  isStatic : Option Bool := none

/-- Reads one field. -/
def Draft.visit (d : Draft) : String × Json → Decoded Draft
  | ("name", j) => do return { d with name := some (← j.asText) }
  | ("type", j) => do return { d with ty := some (← j.asTy) }
  | ("static", j) => do return { d with isStatic := some (← j.asBool) }
  | _ => .ok d

/-- The declaration that has been read. -/
def Draft.finish (d : Draft) : Decoded MemberDecl := do
  return {
    name := ← Json.require "name" d.name
    ty := ← Json.require "type" d.ty
    isStatic := d.isStatic.getD false }

/-- The declaration that a document describes. -/
def ofJson (surplus : Json.Surplus) : Json → Decoded MemberDecl
  | .obj fields => do (← fields.foldlM Draft.visit {}).finish
  | .arr items => do
    let (name, items) ← Json.element Json.asText items
    let (ty, items) ← Json.element Json.asTy items
    let (isStatic, items) ← Json.elementOr false Json.asBool items
    surplus.check items
    return ⟨name, ty, isStatic⟩
  | _ => .error .mismatch

end MemberDecl

namespace ClassDecl

/-- The fields of a class that have been read. -/
structure Draft where
  name : Option String := none
  typeParams : List String := []
  properties : List MemberDecl := []
  fields : List MemberDecl := []

/-- Reads one field. -/
def Draft.visit (surplus : Json.Surplus) (d : Draft) : String × Json → Decoded Draft
  | ("name", j) => do return { d with name := some (← j.asText) }
  | ("type_params", j) => do return { d with typeParams := ← j.asListOf Json.asText }
  | ("properties", j) => do
    return { d with properties := ← j.asListOf (MemberDecl.ofJson surplus) }
  | ("fields", j) => do return { d with fields := ← j.asListOf (MemberDecl.ofJson surplus) }
  | _ => .ok d

/-- The class that has been read. -/
def Draft.finish (d : Draft) : Decoded ClassDecl := do
  return ⟨← Json.require "name" d.name, d.typeParams, d.properties, d.fields⟩

/-- The class that a document describes. -/
def ofJson (surplus : Json.Surplus) : Json → Decoded ClassDecl
  | .obj fields => do (← fields.foldlM (Draft.visit surplus) {}).finish
  | .arr items => do
    let decls (j : Json) := j.asListOf (MemberDecl.ofJson surplus)
    let (name, items) ← Json.element Json.asText items
    let (typeParams, items) ← Json.elementOr [] (Json.asListOf Json.asText) items
    let (properties, items) ← Json.elementOr [] decls items
    let (fields, items) ← Json.elementOr [] decls items
    surplus.check items
    return ⟨name, typeParams, properties, fields⟩
  | _ => .error .mismatch

end ClassDecl

end Retarget
