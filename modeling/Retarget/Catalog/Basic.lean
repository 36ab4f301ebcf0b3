import Retarget.Expr.Error
import Retarget.Member

/-!
# Catalog of classes and methods

The catalog knows the declared classes by their qualified names and the declared methods by
their declaring type and name. What was added last counts. On registration, names that stand
for declared type parameters become parameters; on look-up the parameters are replaced by the
arguments of the type that is asked about.

Main definitions:

* `Catalog.addClass`, `Catalog.addMethod`   registration
* `Catalog.member?`                         a member of a concrete type
* `Catalog.methodRef`                       a method over type arguments
-/

namespace Retarget

/-- A declared field or property. Its type may mention the type parameters of the class. -/
structure MemberDecl where
  name : String
  ty : Ty
  isStatic : Bool
deriving DecidableEq, Repr, Inhabited

/-- A declared class. -/
structure ClassDecl where
  name : String
  typeParams : List String
  properties : List MemberDecl
  fields : List MemberDecl
deriving DecidableEq, Repr, Inhabited

namespace ClassDecl

/-- The declarations of one kind. -/
def ofKind (c : ClassDecl) : MemberKind → List MemberDecl
  | .property => c.properties
  | .field => c.fields

/-- All declarations with their kinds, properties first. -/
def members (c : ClassDecl) : List (MemberKind × MemberDecl) :=
  c.properties.map (.property, ·) ++ c.fields.map (.field, ·)

/-- The declaration with its type read in the scope of type parameters. -/
def promoteDecl (params : List String) (d : MemberDecl) : MemberDecl :=
  { d with ty := d.ty.promote params }

/-- The class with the types of its members read in the scope of its type parameters. -/
def promote (c : ClassDecl) : ClassDecl :=
  { c with
    properties := c.properties.map (promoteDecl c.typeParams)
    fields := c.fields.map (promoteDecl c.typeParams) }

end ClassDecl

/-- A signature with its types read in the scope of its type parameters. -/
def MethodDef.promote (d : MethodDef) : MethodDef :=
  { d with
    params := d.params.map (Ty.promote d.typeParams)
    returnType := d.returnType.promote d.typeParams }

/-- The declared classes and methods, the newest first. -/
structure Catalog where
  classes : List ClassDecl
  methods : List MethodDef
deriving Inhabited

namespace Catalog

/-- The catalog in which nothing is declared. -/
def empty : Catalog := ⟨[], []⟩

/-- Declares a class. -/
def addClass (cat : Catalog) (c : ClassDecl) : Catalog :=
  { cat with classes := c.promote :: cat.classes }

/-- Declares a method. -/
def addMethod (cat : Catalog) (d : MethodDef) : Catalog :=
  { cat with methods := d.promote :: cat.methods }

/-- The class of a qualified name. -/
def class? (cat : Catalog) (name : String) : Option ClassDecl :=
  cat.classes.find? (·.name = name)

/-- Whether a type, or the definition it instantiates, is a declared class. -/
def contains (cat : Catalog) (t : Ty) : Bool :=
  (cat.class? t.fullName).isSome

/-- The method of a declaring type and a name. -/
def method? (cat : Catalog) (declaringType name : String) : Option MethodDef :=
  cat.methods.find? fun d => d.declaringType.fullName = declaringType && d.name = name

/-- A declared member as seen from a concrete type of its class. -/
def instantiate (c : ClassDecl) (t : Ty) (kind : MemberKind) (d : MemberDecl) : Member where
  declaringType := t
  name := d.name
  kind := kind
  ty := d.ty.substitute (c.typeParams.zip t.args)
  isStatic := d.isStatic

/-- The first member of a kind and a name on a concrete type. -/
def member? (cat : Catalog) (kind : MemberKind) (t : Ty) (name : String) : Option Member := do
  let c ← cat.class? t.fullName
  let d ← (c.ofKind kind).find? (·.name = name)
  return instantiate c t kind d

/-- The property of a name on a concrete type. -/
def property? (cat : Catalog) (t : Ty) (name : String) : Option Member :=
  cat.member? .property t name

/-- The field of a name on a concrete type. -/
def field? (cat : Catalog) (t : Ty) (name : String) : Option Member :=
  cat.member? .field t name

/-- A method closed over type arguments, of which a method that is not generic takes none. -/
def methodRef (cat : Catalog) (declaringType name : String) (typeArgs : List Ty) :
    Except BuildError MethodRef :=
  match cat.method? declaringType name with
  | none => .error (.unknownMethod declaringType name)
  | some d =>
    if d.typeParams = [] ∧ typeArgs = [] then .ok (.ofDef d)
    else
      match MethodRef.close d typeArgs with
      | .ok m => .ok m
      | .error e => .error (.type e)

end Catalog

end Retarget
