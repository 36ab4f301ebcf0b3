import Retarget.Json.Decode

/-!
# Members

A member is a field or a property, resolved against a concrete declaring type.
-/

namespace Retarget

/-- The two kinds of members, which are looked up separately. -/
inductive MemberKind where
  | field
  | property
deriving DecidableEq, Repr, Inhabited

namespace MemberKind

/-- The name of a kind of member. -/
def render : MemberKind → String
  | .field => "field"
  | .property => "property"

/-- The kind with a given name. -/
def ofName? : String → Option MemberKind
  | "field" => some .field
  | "property" => some .property
  | _ => none

/-- The kind that a document names. -/
def ofJson (j : Json) : Decoded MemberKind := do
  let name ← j.asCaseName
  match ofName? name with
  | some k => return k
  | none => throw (.unknownCase name ["field", "property"])

end MemberKind

/-- A field or property of a declaring type. -/
structure Member where
  declaringType : Ty
  name : String
  kind : MemberKind
  ty : Ty
  isStatic : Bool
deriving DecidableEq, Repr, Inhabited

namespace Member

/-- An instance property. -/
def property (declaringType : Ty) (name : String) (ty : Ty) : Member :=
  ⟨declaringType, name, .property, ty, false⟩

/-- An instance field. -/
def field (declaringType : Ty) (name : String) (ty : Ty) : Member :=
  ⟨declaringType, name, .field, ty, false⟩

/-- The text of a member: its declaring type and its name. -/
def render (m : Member) : String :=
  m.declaringType.render ++ "." ++ m.name

/-- The document of a member, with types as texts. -/
def toJson (m : Member) : Json :=
  .obj [
    ("declaring_type", .str m.declaringType.render),
    ("is_static", .bool m.isStatic),
    ("kind", .str m.kind.render),
    ("name", .str m.name),
    ("ty", .str m.ty.render)]

/-- The fields of a member that have been read. -/
structure Draft where
  declaringType : Option Ty := none
  name : Option String := none
  kind : Option MemberKind := none
  ty : Option Ty := none
  isStatic : Option Bool := none

/-- Reads one field of a member. Other fields are ignored. -/
def Draft.visit (d : Draft) : String × Json → Decoded Draft
  | ("declaring_type", j) => do return { d with declaringType := some (← j.asTy) }
  | ("name", j) => do return { d with name := some (← j.asText) }
  | ("kind", j) => do return { d with kind := some (← MemberKind.ofJson j) }
  | ("ty", j) => do return { d with ty := some (← j.asTy) }
  | ("is_static", j) => do return { d with isStatic := some (← j.asBool) }
  | _ => .ok d

/-- The member that has been read; it is not static unless it says so. -/
def Draft.finish (d : Draft) : Decoded Member := do
  return {
    declaringType := ← Json.require "declaring_type" d.declaringType
    name := ← Json.require "name" d.name
    kind := ← Json.require "kind" d.kind
    ty := ← Json.require "ty" d.ty
    isStatic := d.isStatic.getD false }

/-- The member that a document describes. -/
def ofJson : Json → Decoded Member
  | .obj fields => do (← fields.foldlM Draft.visit {}).finish
  | .arr items => do
    let (declaringType, items) ← Json.element Json.asTy items
    let (name, items) ← Json.element Json.asText items
    let (kind, items) ← Json.element MemberKind.ofJson items
    let (ty, items) ← Json.element Json.asTy items
    let (isStatic, items) ← Json.elementOr false Json.asBool items
    Json.Surplus.refused.check items
    return ⟨declaringType, name, kind, ty, isStatic⟩
  | _ => .error .mismatch

end Member

end Retarget
