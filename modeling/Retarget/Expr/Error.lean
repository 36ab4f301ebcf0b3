import Retarget.Expr.Operator
import Retarget.Method

/-!
# Failures to build a node

A node that would be ill-typed is not built. Each way of being ill-typed has a constructor, and
`BuildError.message` has the wording.
-/

namespace Retarget

/-- Why a node cannot be built. -/
inductive BuildError where
  /-- A method cannot be closed over its type arguments. -/
  | type (error : TypeError)
  | unknownMethod (declaringType name : String)
  | openGenericMethod (method : String)
  | staticWithReceiver (method : String)
  | missingReceiver (method : String)
  | receiverMismatch (method : String) (expected found : Ty)
  | argumentCount (method : String) (expected found : Nat)
  | argumentType (method : String) (index : Nat) (expected found : Ty)
  | notAParameter (index : Nat) (kind : NodeKind)
  | delegateShape (delegate : Ty) (params : Nat)
  | lambdaParameterType (index : Nat) (expected found : Ty)
  | lambdaReturnType (expected found : Ty)
  | quoteOperand (kind : NodeKind)
  | operandMismatch (op : BinaryOp) (left right : Ty)
  | unexpectedConversion (op : BinaryOp)
  | conversionNotLambda (kind : NodeKind)
  | staticMemberWithObject (member : String)
  | missingMemberObject (member : String)
  | memberObjectMismatch (member : String) (expected found : Ty)
  | conditionNotBool (found : Ty)
  | branchMismatch (ifTrue ifFalse : Ty)
  | notInvocable (target : Ty) (args : Nat)
  | wrongKind (expected found : NodeKind)
deriving DecidableEq, Repr

namespace BuildError

/-- A name between quotes. -/
def quoted (s : String) : String := "'" ++ s ++ "'"

/-- The wording of a failure. -/
def message : BuildError → String
  | .type e => e.message
  | .unknownMethod declaringType name =>
    "no method " ++ quoted name ++ " declared on " ++ quoted declaringType
  | .openGenericMethod m => "method " ++ quoted m ++ " is an open generic definition"
  | .staticWithReceiver m => "static method " ++ quoted m ++ " called with a receiver"
  | .missingReceiver m => "instance method " ++ quoted m ++ " called without a receiver"
  | .receiverMismatch m expected found =>
    "receiver of type " ++ quoted found.render ++ " cannot call " ++ quoted m ++ " declared on "
      ++ quoted expected.render
  | .argumentCount m expected found =>
    quoted m ++ " expects " ++ toString expected ++ " arguments, found " ++ toString found
  | .argumentType m index expected found =>
    "argument " ++ toString index ++ " of " ++ quoted m ++ " has type " ++ quoted found.render
      ++ ", expected " ++ quoted expected.render
  | .notAParameter index kind =>
    "lambda parameter " ++ toString index ++ " is a " ++ kind.render ++ " node, not a parameter"
  | .delegateShape delegate params =>
    quoted delegate.render ++ " is not a delegate type taking " ++ toString params
      ++ " parameters"
  | .lambdaParameterType index expected found =>
    "lambda parameter " ++ toString index ++ " has type " ++ quoted found.render
      ++ ", delegate expects " ++ quoted expected.render
  | .lambdaReturnType expected found =>
    "lambda body of type " ++ quoted found.render
      ++ " is not assignable to delegate return type " ++ quoted expected.render
  | .quoteOperand kind => "quote operand must be a lambda, found " ++ kind.render
  | .operandMismatch op left right =>
    "operator " ++ op.render ++ " requires operands of one type, found " ++ quoted left.render
      ++ " and " ++ quoted right.render
  | .unexpectedConversion op =>
    "a conversion lambda is only valid on Coalesce, found " ++ op.render
  | .conversionNotLambda kind => "coalesce conversion must be a lambda, found " ++ kind.render
  | .staticMemberWithObject m => "static member " ++ quoted m ++ " accessed through an object"
  | .missingMemberObject m => "instance member " ++ quoted m ++ " accessed without an object"
  | .memberObjectMismatch m expected found =>
    "object of type " ++ quoted found.render ++ " has no member " ++ quoted m ++ " declared on "
      ++ quoted expected.render
  | .conditionNotBool found => "condition must be 'bool', found " ++ quoted found.render
  | .branchMismatch ifTrue ifFalse =>
    "conditional branches have different types " ++ quoted ifTrue.render ++ " and "
      ++ quoted ifFalse.render
  | .notInvocable target args =>
    quoted target.render ++ " cannot be invoked with " ++ toString args ++ " arguments"
  | .wrongKind expected found =>
    "expected a " ++ expected.render ++ " node, found " ++ found.render

end BuildError

end Retarget
