import Retarget.Catalog.Basic
import Retarget.Substitution

/-!
# Resolving members and methods

What becomes of a member and of a method under a substitution, and the ways in which a pass can
fail.

* `Substitution.resolveMember`   the member on the replaced declaring type
* `Substitution.rebind`          the method over replaced type arguments
-/

namespace Retarget

/-- Why a pass fails. A failed pass returns no expression. -/
inductive RetargetError where
  /-- The replaced declaring type has no member of the name. -/
  | unresolvedMember (member : String) (declaringType resolvedType : Ty)
  /-- Nodes of this kind are not handled. -/
  | unsupportedKind (kind : NodeKind)
  /-- A node would be ill-typed. -/
  | build (error : BuildError)
deriving DecidableEq, Repr

/-- The wording of a failure. -/
def RetargetError.message : RetargetError → String
  | .unresolvedMember member declaringType resolvedType =>
    "cannot resolve member '" ++ member ++ "' of '" ++ declaringType.render
      ++ "': no property or field named '" ++ member ++ "' on '" ++ resolvedType.render ++ "'"
  | .unsupportedKind kind => "unsupported expression node kind: " ++ kind.render
  | .build e => "invalid rewritten node: " ++ e.message

namespace Substitution

/-- The method over its replaced type arguments. A method without any stays as it is. -/
def rebind (s : Substitution) (m : MethodRef) : MethodRef :=
  m.mapTypeArgs s.resolve

/-- The member that takes the place of another: one that overrides it; the member itself if its
    declaring type matches its replacement; else the property, or failing that the field, of the
    same name on the replacement. -/
def resolveMember (s : Substitution) (cat : Catalog) (m : Member) :
    Except RetargetError Member :=
  match s.override? m with
  | some overriding => .ok overriding
  | none =>
    let resolved := s.resolve m.declaringType
    if s.sameType resolved m.declaringType then .ok m
    else
      match cat.property? resolved m.name with
      | some property => .ok property
      | none =>
        match cat.field? resolved m.name with
        | some field => .ok field
        | none => .error (.unresolvedMember m.name m.declaringType resolved)

end Substitution

end Retarget
