/-!
# Operators and node kinds

The operators of unary and binary nodes with their names and symbols, and the kinds of nodes.
-/

namespace Retarget

/-- The operators of unary nodes. -/
inductive UnaryOp where
  | convert
  | typeAs
  | not
  | negate
  /-- Holds a lambda as data. -/
  | quote
deriving DecidableEq, Repr, Inhabited

namespace UnaryOp

/-- The name of an operator. -/
def render : UnaryOp → String
  | .convert => "Convert"
  | .typeAs => "TypeAs"
  | .not => "Not"
  | .negate => "Negate"
  | .quote => "Quote"

/-- All operators. -/
def all : List UnaryOp := [.convert, .typeAs, .not, .negate, .quote]

/-- The operator with a given name. -/
def ofName? (name : String) : Option UnaryOp :=
  all.find? (·.render = name)

end UnaryOp

/-- The operators of binary nodes. -/
inductive BinaryOp where
  | add
  | subtract
  | multiply
  | divide
  | modulo
  | equal
  | notEqual
  | lessThan
  | lessThanOrEqual
  | greaterThan
  | greaterThanOrEqual
  | andAlso
  | orElse
  | coalesce
deriving DecidableEq, Repr, Inhabited

namespace BinaryOp

/-- The name of an operator. -/
def render : BinaryOp → String
  | .add => "Add"
  | .subtract => "Subtract"
  | .multiply => "Multiply"
  | .divide => "Divide"
  | .modulo => "Modulo"
  | .equal => "Equal"
  | .notEqual => "NotEqual"
  | .lessThan => "LessThan"
  | .lessThanOrEqual => "LessThanOrEqual"
  | .greaterThan => "GreaterThan"
  | .greaterThanOrEqual => "GreaterThanOrEqual"
  | .andAlso => "AndAlso"
  | .orElse => "OrElse"
  | .coalesce => "Coalesce"

/-- The symbol that stands between the operands in a text. -/
def symbol : BinaryOp → String
  | .add => "+"
  | .subtract => "-"
  | .multiply => "*"
  | .divide => "/"
  | .modulo => "%"
  | .equal => "=="
  | .notEqual => "!="
  | .lessThan => "<"
  | .lessThanOrEqual => "<="
  | .greaterThan => ">"
  | .greaterThanOrEqual => ">="
  | .andAlso => "&&"
  | .orElse => "||"
  | .coalesce => "??"

/-- Whether the operator compares its operands. -/
def isComparison : BinaryOp → Bool
  | .equal | .notEqual | .lessThan | .lessThanOrEqual | .greaterThan | .greaterThanOrEqual => true
  | _ => false

/-- Whether the operator joins two conditions. -/
def isLogical : BinaryOp → Bool
  | .andAlso | .orElse => true
  | _ => false

/-- All operators. -/
def all : List BinaryOp :=
  [.add, .subtract, .multiply, .divide, .modulo, .equal, .notEqual, .lessThan, .lessThanOrEqual,
    .greaterThan, .greaterThanOrEqual, .andAlso, .orElse, .coalesce]

/-- The operator with a given name. -/
def ofName? (name : String) : Option BinaryOp :=
  all.find? (·.render = name)

end BinaryOp

/-- The kinds of nodes, as named in messages. -/
inductive NodeKind where
  | call
  | lambda
  | parameter
  | memberAccess
  | constant
  | unary
  | binary
  | conditional
  | invoke
  | default
deriving DecidableEq, Repr, Inhabited

/-- The name of a kind of node. -/
def NodeKind.render : NodeKind → String
  | .call => "Call"
  | .lambda => "Lambda"
  | .parameter => "Parameter"
  | .memberAccess => "MemberAccess"
  | .constant => "Constant"
  | .unary => "Unary"
  | .binary => "Binary"
  | .conditional => "Conditional"
  | .invoke => "Invoke"
  | .default => "Default"

end Retarget
