import Retarget.Ty.Basic

/-!
# Methods

A `MethodDef` is a declared signature; a `MethodRef` refers to one, closed over type arguments
when the method is generic. A reference without arguments to a generic definition is the open
definition itself. That the number of arguments fits is part of the type.

* `MethodRef.close`        a reference over given type arguments
* `MethodRef.mapTypeArgs`  the reference with its type arguments mapped
-/

namespace Retarget

/-- A declared signature. The types of a generic definition mention its type parameters. -/
structure MethodDef where
  declaringType : Ty
  name : String
  typeParams : List String
  params : List Ty
  returnType : Ty
  isStatic : Bool
deriving DecidableEq, Repr, Inhabited

/-- Why a definition cannot be closed over type arguments. -/
inductive TypeError where
  | genericArity (method : String) (expected found : Nat)
  | notGeneric (method : String)
deriving DecidableEq, Repr

/-- The wording of a failure to close a definition. -/
def TypeError.message : TypeError → String
  | .genericArity method expected found =>
    "method '" ++ method ++ "' expects " ++ toString expected ++ " type arguments, found "
      ++ toString found
  | .notGeneric method => "method '" ++ method ++ "' is not generic"

/-- A reference to a method: open, or closed over as many arguments as it has parameters. -/
structure MethodRef where
  definition : MethodDef
  typeArgs : List Ty
  arity : typeArgs = [] ∨ typeArgs.length = definition.typeParams.length
deriving DecidableEq, Repr

namespace MethodRef

/-- The reference without type arguments. -/
def ofDef (d : MethodDef) : MethodRef := ⟨d, [], .inl rfl⟩

instance : Inhabited MethodRef := ⟨ofDef default⟩

/-- Closes a generic definition over type arguments. -/
def close (d : MethodDef) (typeArgs : List Ty) : Except TypeError MethodRef :=
  if d.typeParams = [] then .error (.notGeneric d.name)
  else if h : typeArgs.length = d.typeParams.length then .ok ⟨d, typeArgs, .inr h⟩
  else .error (.genericArity d.name d.typeParams.length typeArgs.length)

/-- The same definition over mapped type arguments. -/
def mapTypeArgs (m : MethodRef) (f : Ty → Ty) : MethodRef :=
  ⟨m.definition, m.typeArgs.map f, by
    rcases m.arity with h | h
    · exact .inl (by rw [h, List.map_nil])
    · exact .inr (by rw [List.length_map, h])⟩

/-- The name of the method. -/
def name (m : MethodRef) : String := m.definition.name

/-- The type that declares the method. -/
def declaringType (m : MethodRef) : Ty := m.definition.declaringType

/-- Whether the method is called without a receiver. -/
def isStatic (m : MethodRef) : Bool := m.definition.isStatic

/-- Whether the definition has type parameters. -/
def isGeneric (m : MethodRef) : Bool := !m.definition.typeParams.isEmpty

/-- Whether the reference is to a generic definition that has not been closed. -/
def isOpen (m : MethodRef) : Bool := m.isGeneric && m.typeArgs.isEmpty

/-- The binding of each type parameter to its argument. -/
def bindings (m : MethodRef) : Ty.Bindings :=
  m.definition.typeParams.zip m.typeArgs

/-- The parameter types over the type arguments. -/
def parameterTypes (m : MethodRef) : List Ty :=
  m.definition.params.map (Ty.substitute m.bindings)

/-- The return type over the type arguments. -/
def returnType (m : MethodRef) : Ty :=
  m.definition.returnType.substitute m.bindings

/-- A list of type arguments between angle brackets, or nothing. -/
def renderArgs : List Ty → String
  | [] => ""
  | args => "<" ++ Ty.renderList args ++ ">"

/-- The text of a reference: declaring type, name and type arguments. -/
def render (m : MethodRef) : String :=
  m.declaringType.render ++ "." ++ m.name ++ renderArgs m.typeArgs

end MethodRef

end Retarget
