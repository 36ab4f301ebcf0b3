import Retarget.Catalog.Basic

/-!
# Built-in declarations

The classes `Nullable` and `string`, the query operators, and two methods that are not query
operators: one that takes a bare delegate and one that is called on an instance.
-/

namespace Retarget

namespace Catalog

/-- The type that may hold a value. -/
def nullableClass : ClassDecl where
  name := "Nullable"
  typeParams := ["T"]
  properties := [⟨"Value", .named "T", false⟩, ⟨"HasValue", Ty.bool, false⟩]
  fields := []

/-- The class of texts. -/
def stringClass : ClassDecl where
  name := "string"
  typeParams := []
  properties := [⟨"Length", Ty.int, false⟩]
  fields := []

/-- A static operator over queries. -/
def queryOperator (name : String) (typeParams : List String) (params : List Ty)
    (returnType : Ty) : MethodDef :=
  ⟨.named "Queryable", name, typeParams, params, returnType, true⟩

/-- The built-in methods. -/
def builtinMethods : List MethodDef :=
  let t := Ty.named "T"
  let source := Ty.named "TSource"
  let result := Ty.named "TResult"
  let key := Ty.named "TKey"
  [ queryOperator "Where" ["T"]
      [Ty.query t, Ty.expression (Ty.func [t] Ty.bool)] (Ty.query t),
    queryOperator "Select" ["TSource", "TResult"]
      [Ty.query source, Ty.expression (Ty.func [source] result)] (Ty.query result),
    queryOperator "SelectMany" ["TSource", "TResult"]
      [Ty.query source, Ty.expression (Ty.func [source] (Ty.enumerable result))]
      (Ty.query result),
    queryOperator "DistinctBy" ["TSource", "TKey"]
      [Ty.query source, Ty.expression (Ty.func [source] key)] (Ty.query source),
    queryOperator "Count" ["T"] [Ty.query t] Ty.int,
    ⟨.named "EnumerableOps", "Any", ["T"], [Ty.enumerable t, Ty.func [t] Ty.bool], Ty.bool, true⟩,
    ⟨Ty.string, "StartsWith", [], [Ty.string], Ty.bool, false⟩ ]

/-- The catalog of built-in classes and methods. -/
def builtin : Catalog :=
  builtinMethods.foldl addMethod ((empty.addClass nullableClass).addClass stringClass)

end Catalog

end Retarget
