/-!
# Static types

A type is a plain name, an instantiation of a generic definition, or a type parameter of an
open signature. Names are kept fully qualified (`Models.Item`); `Ty.name` gives the last
segment alone.

Main definitions:

* `Ty.render`           the text of a type, such as `Func<long, Nullable<long>>`
* `Ty.assignableTo`     the implicit conversions between static types
* `Ty.substitute`       replacement of type parameters by their bindings
* `Ty.promote`          names that stand for declared parameters become parameters
-/

namespace Retarget

/-- A static type descriptor. -/
inductive Ty where
  /-- A type without arguments, such as `long` or `Models.Item`. -/
  | named (name : String)
  /-- A generic definition applied to an ordered list of arguments. -/
  | generic (definition : String) (args : List Ty)
  /-- A placeholder inside the signature of a generic definition. -/
  | param (name : String)
deriving Inhabited, Repr

namespace Ty

mutual

/-- Equality of types is decided by walking both at once. -/
def decEq : (a b : Ty) → Decidable (a = b)
  | .named m, .named n =>
    if h : m = n then .isTrue (h ▸ rfl) else .isFalse (fun e => h (Ty.named.inj e))
  | .param m, .param n =>
    if h : m = n then .isTrue (h ▸ rfl) else .isFalse (fun e => h (Ty.param.inj e))
  | .generic d xs, .generic e ys =>
    if h : d = e then
      match decEqList xs ys with
      | .isTrue hxs => .isTrue (h ▸ hxs ▸ rfl)
      | .isFalse hxs => .isFalse (fun eq => hxs (Ty.generic.inj eq).2)
    else .isFalse (fun eq => h (Ty.generic.inj eq).1)
  | .named _, .generic _ _ => .isFalse nofun
  | .named _, .param _ => .isFalse nofun
  | .generic _ _, .named _ => .isFalse nofun
  | .generic _ _, .param _ => .isFalse nofun
  | .param _, .named _ => .isFalse nofun
  | .param _, .generic _ _ => .isFalse nofun

/-- Equality of argument lists. -/
def decEqList : (xs ys : List Ty) → Decidable (xs = ys)
  | [], [] => .isTrue rfl
  | [], _ :: _ => .isFalse nofun
  | _ :: _, [] => .isFalse nofun
  | x :: xs, y :: ys =>
    match decEq x y with
    | .isTrue h =>
      match decEqList xs ys with
      | .isTrue hs => .isTrue (h ▸ hs ▸ rfl)
      | .isFalse hs => .isFalse (fun eq => hs (List.cons.inj eq).2)
    | .isFalse h => .isFalse (fun eq => h (List.cons.inj eq).1)

end

instance : DecidableEq Ty := decEq

/-! ## Well-known types -/

/-- The root of all types. -/
def object : Ty := .named "object"

/-- Truth values. -/
def bool : Ty := .named "bool"

/-- Small integers. -/
def int : Ty := .named "int"

/-- Integers of 64 bits. -/
def long : Ty := .named "long"

/-- Floating-point numbers of 64 bits. -/
def double : Ty := .named "double"

/-- Texts. -/
def string : Ty := .named "string"

/-- A query over elements of one type. -/
def query (elem : Ty) : Ty := .generic "Query" [elem]

/-- A sequence of elements of one type. -/
def enumerable (elem : Ty) : Ty := .generic "Enumerable" [elem]

/-- A value of the inner type, or its absence. -/
def nullable (inner : Ty) : Ty := .generic "Nullable" [inner]

/-- A lambda held as data; the argument is its delegate type. -/
def expression (delegate : Ty) : Ty := .generic "Expression" [delegate]

/-- The delegate type that takes `params` and returns `ret`. -/
def func (params : List Ty) (ret : Ty) : Ty := .generic "Func" (params ++ [ret])

/-! ## Parts of a type -/

/-- The qualified name; for an instantiation, that of its definition. -/
def fullName : Ty → String
  | .named n => n
  | .generic d _ => d
  | .param n => n

/-- The type arguments, none for a type that is not an instantiation. -/
def args : Ty → List Ty
  | .generic _ as => as
  | _ => []

/-- The part of a dotted name after its last dot. -/
def simpleName (full : String) : String :=
  String.ofList (full.toList.reverse.takeWhile (· ≠ '.')).reverse

/-- The name without its namespace. -/
def name (t : Ty) : String := simpleName t.fullName

/-- Whether every value may be used where this type is wanted. -/
def isObject (t : Ty) : Bool := t = object

/-- Whether the type is `Nullable` over one argument. -/
def isNullable : Ty → Bool
  | .generic d [_] => d = "Nullable"
  | _ => false

/-- The delegate type inside `Expression<_>`. -/
def quoted? : Ty → Option Ty
  | .generic d [f] => if d = "Expression" then some f else none
  | _ => none

/-- Whether the type is `Expression` over one argument. -/
def isExpression (t : Ty) : Bool := t.quoted?.isSome

/-- The parameter types and the return type of a delegate type. -/
def signature? : Ty → Option (List Ty × Ty)
  | .generic d as => if d = "Func" then as.getLast?.map (as.dropLast, ·) else none
  | _ => none

/-- A delegate type splits into the types that it was made of. -/
@[simp] theorem signature?_func (params : List Ty) (ret : Ty) :
    (func params ret).signature? = some (params, ret) := by
  simp [func, signature?]

/-! ## Conversions -/

/-- A type converts to itself, to `object`, and from a query to the sequence over the same
    arguments. -/
def assignableTo (source target : Ty) : Bool :=
  source = target || target.isObject ||
    match source, target with
    | .generic d xs, .generic e ys => d = "Query" && e = "Enumerable" && xs = ys
    | _, _ => false

/-- A type converts to itself. -/
@[simp] theorem assignableTo_refl (t : Ty) : t.assignableTo t = true := by
  simp [assignableTo]

/-- Every type converts to `object`. -/
@[simp] theorem assignableTo_object (t : Ty) : t.assignableTo object = true := by
  simp [assignableTo, isObject]

/-- A query converts to the sequence of its elements. -/
theorem query_assignableTo_enumerable (t : Ty) : (query t).assignableTo (enumerable t) = true := by
  simp [assignableTo, query, enumerable]

/-! ## Type parameters -/

/-- Bindings of type parameters. When a name is bound twice the later binding counts. -/
abbrev Bindings := List (String × Ty)

/-- The type that a parameter is bound to. -/
def Bindings.get? : Bindings → String → Option Ty
  | [], _ => none
  | (n, t) :: rest, x =>
    -- The later bindings are asked first.
    match get? rest x with
    | some u => some u
    | none => if n = x then some t else none

mutual

/-- Replaces bound type parameters. The types put in their place are not looked at again. -/
def substitute (bs : Bindings) : Ty → Ty
  | .named n => .named n
  | .generic d as => .generic d (substituteAll bs as)
  | .param n => (bs.get? n).getD (.param n)

/-- Replacement in each type of a list. -/
def substituteAll (bs : Bindings) : List Ty → List Ty
  | [] => []
  | t :: ts => substitute bs t :: substituteAll bs ts

end

/-- The types of a list are substituted one by one. -/
theorem substituteAll_eq_map (bs : Bindings) (ts : List Ty) :
    substituteAll bs ts = ts.map (substitute bs) := by
  induction ts with
  | nil => rfl
  | cons t ts ih => simp [substituteAll, ih]

mutual

/-- Turns plain names that are declared as type parameters into parameters. -/
def promote (params : List String) : Ty → Ty
  | .named n => if n ∈ params then .param n else .named n
  | .generic d as => .generic d (promoteAll params as)
  | .param n => .param n

/-- Promotion in each type of a list. -/
def promoteAll (params : List String) : List Ty → List Ty
  | [] => []
  | t :: ts => promote params t :: promoteAll params ts

end

/-- The types of a list are promoted one by one. -/
theorem promoteAll_eq_map (params : List String) (ts : List Ty) :
    promoteAll params ts = ts.map (promote params) := by
  induction ts with
  | nil => rfl
  | cons t ts ih => simp [promoteAll, ih]

/-! ## Text -/

mutual

/-- The text of a type. A plain name and a parameter of the same name look alike. -/
def render : Ty → String
  | .named n => n
  | .generic d as => d ++ "<" ++ renderList as ++ ">"
  | .param n => n

/-- Types separated by a comma and a blank. -/
def renderList : List Ty → String
  | [] => ""
  | t :: ts => render t ++ renderRest ts

/-- The types after the first, each led by its separator. -/
def renderRest : List Ty → String
  | [] => ""
  | t :: ts => ", " ++ render t ++ renderRest ts

end

end Ty

end Retarget
