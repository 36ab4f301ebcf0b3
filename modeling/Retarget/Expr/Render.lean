import Retarget.Expr.Basic

/-!
# Text of expressions

Lambda parameters are shown with their types, static calls and members are led by the simple
name of their declaring type, and a quotation looks like the lambda inside it:

    (x: Query<Item>) => Queryable.Where<Item>(x, (i: Item) => (i.Id == 1))
-/

namespace Retarget

namespace Parameter

/-- A parameter without a name is shown as an underscore. -/
def label (p : Parameter) : String := p.name.getD "_"

/-- A parameter as it is declared. -/
def declaration (p : Parameter) : String := p.label ++ ": " ++ p.ty.render

end Parameter

namespace Expr

/-- Texts separated by a comma and a blank. -/
def commaSeparated : List String → String
  | [] => ""
  | [s] => s
  | s :: rest => s ++ ", " ++ commaSeparated rest

mutual

/-- The text of an expression. -/
def render : Expr → String
  | .call _ receiver method args _ =>
    renderObject method.declaringType receiver ++ "." ++ method.name
      ++ MethodRef.renderArgs method.typeArgs ++ "(" ++ renderList args ++ ")"
  | .lambda _ _ _ _ params body =>
    "(" ++ commaSeparated (params.map Parameter.declaration) ++ ") => " ++ render body
  | .parameter p => p.label
  | .member _ object m => renderObject m.declaringType object ++ "." ++ m.name
  | .constant _ v => v.render
  | .unary _ op operand t _ =>
    match op with
    | .quote => render operand
    | .convert => "Convert(" ++ render operand ++ ", " ++ t.render ++ ")"
    | .typeAs => "(" ++ render operand ++ " as " ++ t.render ++ ")"
    | .not => "!" ++ render operand
    | .negate => "-" ++ render operand
  | .binary _ op left right _ _ _ _ =>
    "(" ++ render left ++ " " ++ op.symbol ++ " " ++ render right ++ ")"
  | .conditional _ test ifTrue ifFalse _ =>
    "IIF(" ++ render test ++ ", " ++ render ifTrue ++ ", " ++ render ifFalse ++ ")"
  | .invoke _ target args _ => "Invoke(" ++ render target ++ renderRest args ++ ")"
  | .default _ t => "default(" ++ t.render ++ ")"

/-- The object in front of a dot; the simple name of the declaring type stands in for none. -/
def renderObject (declaringType : Ty) : Option Expr → String
  | some e => render e
  | none => declaringType.name

/-- Expressions separated by commas. -/
def renderList : List Expr → String
  | [] => ""
  | e :: es => render e ++ renderRest es

/-- Expressions that each follow a comma. -/
def renderRest : List Expr → String
  | [] => ""
  | e :: es => ", " ++ render e ++ renderRest es

end

end Expr

end Retarget
