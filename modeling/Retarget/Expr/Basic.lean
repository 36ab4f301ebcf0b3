import Retarget.Expr.Operator
import Retarget.Member
import Retarget.Method
import Retarget.Value.Basic

/-!
# Expression graphs

Nodes have an identity besides their content: two nodes are the same exactly when they have
the same `id`, however alike they look. This is how the body of a lambda refers to the
parameters that the lambda declares, and how a shared part of a graph is told from an equal
copy. A graph is written as a tree in which a shared node occurs several times with one `id`.

Main definitions:

* `Expr.id`, `Expr.kind`, `Expr.ty`   what every node has
* `Expr.children`                     the direct parts, in order
* `Expr.child?`                       the part at a named position
* `Expr.SameNode`                     identity of nodes
-/

namespace Retarget

/-- A parameter of a lambda. -/
structure Parameter where
  id : Nat
  ty : Ty
  name : Option String
  byRef : Bool
deriving DecidableEq, Repr, Inhabited

/-- A typed expression. Every node carries its identity. -/
inductive Expr where
  /-- A method call; a static method has no receiver. -/
  | call (id : Nat) (receiver : Option Expr) (method : MethodRef) (args : List Expr) (ty : Ty)
  /-- A lambda, whose type is the delegate type `delegate`. -/
  | lambda (id : Nat) (delegate : Ty) (name : Option String) (tailCall : Bool)
      (params : List Parameter) (body : Expr)
  /-- A parameter, declared by a lambda or free. -/
  | parameter (p : Parameter)
  /-- The access of a member; a static member has no object. -/
  | member (id : Nat) (object : Option Expr) (member : Member)
  | constant (id : Nat) (value : Value)
  /-- A unary operator, with the method that overloads it if there is one. -/
  | unary (id : Nat) (op : UnaryOp) (operand : Expr) (ty : Ty) (method : Option MethodRef)
  /-- A binary operator. Only `coalesce` can have a conversion, which is a lambda. -/
  | binary (id : Nat) (op : BinaryOp) (left right : Expr) (lifted : Bool)
      (method : Option MethodRef) (conversion : Option Expr) (ty : Ty)
  | conditional (id : Nat) (test ifTrue ifFalse : Expr) (ty : Ty)
  | invoke (id : Nat) (target : Expr) (args : List Expr) (ty : Ty)
  | default (id : Nat) (ty : Ty)
deriving Inhabited

namespace Expr

/-- The identity of a node. -/
def id : Expr → Nat
  | .call id .. => id
  | .lambda id .. => id
  | .parameter p => p.id
  | .member id .. => id
  | .constant id _ => id
  | .unary id .. => id
  | .binary id .. => id
  | .conditional id .. => id
  | .invoke id .. => id
  | .default id _ => id

/-- The kind of a node. -/
def kind : Expr → NodeKind
  | .call .. => .call
  | .lambda .. => .lambda
  | .parameter _ => .parameter
  | .member .. => .memberAccess
  | .constant .. => .constant
  | .unary .. => .unary
  | .binary .. => .binary
  | .conditional .. => .conditional
  | .invoke .. => .invoke
  | .default .. => .default

/-- The static type of the value that a node produces. -/
def ty : Expr → Ty
  | .call _ _ _ _ t => t
  | .lambda _ delegate _ _ _ _ => delegate
  | .parameter p => p.ty
  | .member _ _ m => m.ty
  | .constant _ v => v.ty
  | .unary _ _ _ t _ => t
  | .binary _ _ _ _ _ _ _ t => t
  | .conditional _ _ _ _ t => t
  | .invoke _ _ _ t => t
  | .default _ t => t

/-- Whether two nodes are one and the same. -/
def SameNode (a b : Expr) : Prop := a.id = b.id

instance (a b : Expr) : Decidable (SameNode a b) := inferInstanceAs (Decidable (a.id = b.id))

/-- Whether a node is a lambda. -/
def isLambda : Expr → Bool
  | .lambda .. => true
  | _ => false

/-- The parts of a node in order: the receiver before the arguments, parameters before the body,
    left before right before conversion. -/
def children : Expr → List Expr
  | .call _ receiver _ args _ => receiver.toList ++ args
  | .lambda _ _ _ _ params body => params.map .parameter ++ [body]
  | .parameter _ => []
  | .member _ object _ => object.toList
  | .constant .. => []
  | .unary _ _ operand _ _ => [operand]
  | .binary _ _ left right _ _ conversion _ => left :: right :: conversion.toList
  | .conditional _ test ifTrue ifFalse _ => [test, ifTrue, ifFalse]
  | .invoke _ target args _ => target :: args
  | .default .. => []

/-- A place where a node can have a part. -/
inductive Position where
  /-- The receiver of a call or the object of a member access. -/
  | object
  /-- An argument of a call or of an invocation. -/
  | arg (index : Nat)
  /-- A parameter of a lambda. -/
  | param (index : Nat)
  | body
  | operand
  | left
  | right
  | conversion
deriving DecidableEq, Repr

/-- The part at a position. -/
def child? : Position → Expr → Option Expr
  | .object, .call _ receiver _ _ _ => receiver
  | .object, .member _ object _ => object
  | .arg i, .call _ _ _ args _ => args[i]?
  | .arg i, .invoke _ _ args _ => args[i]?
  | .param i, .lambda _ _ _ _ params _ => params[i]?.map .parameter
  | .body, .lambda _ _ _ _ _ body => some body
  | .operand, .unary _ _ operand _ _ => some operand
  | .left, .binary _ _ left _ _ _ _ _ => some left
  | .right, .binary _ _ _ right _ _ _ _ => some right
  | .conversion, .binary _ _ _ _ _ _ conversion _ => conversion
  | _, _ => none

/-- The node at the end of a path. -/
def descend? : List Position → Expr → Option Expr
  | [], e => some e
  | p :: ps, e =>
    match e.child? p with
    | some c => descend? ps c
    | none => none

end Expr

end Retarget
