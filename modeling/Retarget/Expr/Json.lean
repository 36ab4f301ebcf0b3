import Retarget.Expr.Basic
import Retarget.Value.Json

/-!
# Documents of expressions

Every node is an object with its kind under `node`. Types and methods are written as texts, and
a shared node is written out at every place where it occurs.
-/

namespace Retarget

/-- The document of a parameter. -/
def Parameter.toJson (p : Parameter) : Json :=
  .obj [
    ("is_by_ref", .bool p.byRef),
    ("name", Json.ofOption .str p.name),
    ("node", .str "Parameter"),
    ("ty", .str p.ty.render)]

/-- The document of a method, which is its text. -/
def MethodRef.toJson (m : MethodRef) : Json := .str m.render

namespace Expr

mutual

/-- The document of an expression. -/
def toJson : Expr → Json
  | .call _ receiver method args t =>
    .obj [
      ("args", .arr (listToJson args)),
      ("method", method.toJson),
      ("node", .str "Call"),
      ("object", optionToJson receiver),
      ("ty", .str t.render)]
  | .lambda _ delegate name tailCall params body =>
    .obj [
      ("body", toJson body),
      ("delegate_type", .str delegate.render),
      ("name", Json.ofOption .str name),
      ("node", .str "Lambda"),
      ("params", .arr (params.map Parameter.toJson)),
      ("tail_call", .bool tailCall)]
  | .parameter p => p.toJson
  | .member _ object m =>
    .obj [("member", m.toJson), ("node", .str "Member"), ("object", optionToJson object)]
  | .constant _ v =>
    .obj [("node", .str "Constant"), ("ty", .str v.ty.render), ("value", v.toJson)]
  | .unary _ op operand t method =>
    .obj [
      ("method", Json.ofOption MethodRef.toJson method),
      ("node", .str "Unary"),
      ("op", .str op.render),
      ("operand", toJson operand),
      ("ty", .str t.render)]
  | .binary _ op left right lifted method conversion t =>
    .obj [
      ("conversion", optionToJson conversion),
      ("left", toJson left),
      ("lifted_to_null", .bool lifted),
      ("method", Json.ofOption MethodRef.toJson method),
      ("node", .str "Binary"),
      ("op", .str op.render),
      ("right", toJson right),
      ("ty", .str t.render)]
  | .conditional _ test ifTrue ifFalse t =>
    .obj [
      ("if_false", toJson ifFalse),
      ("if_true", toJson ifTrue),
      ("node", .str "Conditional"),
      ("test", toJson test),
      ("ty", .str t.render)]
  | .invoke _ target args t =>
    .obj [
      ("args", .arr (listToJson args)),
      ("node", .str "Invoke"),
      ("target", toJson target),
      ("ty", .str t.render)]
  | .default _ t => .obj [("node", .str "Default"), ("ty", .str t.render)]

/-- An optional part. -/
def optionToJson : Option Expr → Json
  | none => .null
  | some e => toJson e

/-- Parts in their order. -/
def listToJson : List Expr → List Json
  | [] => []
  | e :: es => toJson e :: listToJson es

end

end Expr

end Retarget
