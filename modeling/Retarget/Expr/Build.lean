import Retarget.Expr.Basic
import Retarget.Expr.Error

/-!
# Building nodes

Nodes are built through the checked constructors of this module, which hold every node to the
typing rule of its kind and give it an identity that was not in use. `Build` is the supply of
identities together with failure; a failed construction leaves no node behind.

Main definitions:

* `Build.call`          a call, quoting a lambda where its data is wanted
* `Build.lambda`        a lambda of inferred type
* `Build.typedLambda`   a lambda of a given delegate type
* `Build.updateCall`, `Build.updateUnary`   the same node back if no part changed
-/

namespace Retarget

/-- Construction with a supply of identities: the state is the next one to give out. -/
abbrev Build := StateT Nat (Except BuildError)

namespace Build

/-- An identity that was not in use. -/
def fresh : Build Nat := fun n => .ok (n, n + 1)

/-- Goes on only if a condition holds. -/
def check (condition : Bool) (e : BuildError) : Build Unit :=
  if condition then pure () else throw e

/-! ## Leaves -/

/-- A new parameter. -/
def parameter (ty : Ty) (name : Option String) (byRef : Bool) : Build Expr := do
  return .parameter ⟨← fresh, ty, name, byRef⟩

/-- A new constant. -/
def constant (value : Value) : Build Expr := do
  return .constant (← fresh) value

/-- The default value of a type. -/
def default (ty : Ty) : Build Expr := do
  return .default (← fresh) ty

/-! ## Member accesses and lambdas -/

/-- What is wrong with accessing a member through an object. -/
def memberFault? (object : Option Expr) (m : Member) : Option BuildError :=
  match object, m.isStatic with
  | some _, true => some (.staticMemberWithObject m.render)
  | none, false => some (.missingMemberObject m.render)
  | some o, false =>
    if o.ty.assignableTo m.declaringType then none
    else some (.memberObjectMismatch m.name m.declaringType o.ty)
  | none, true => none

/-- Fails if there is a fault. -/
def refuse : Option BuildError → Build Unit
  | some e => throw e
  | none => pure ()

/-- The access of a member: through an object exactly if the member is not static. -/
def member (object : Option Expr) (m : Member) : Build Expr := do
  refuse (memberFault? object m)
  return .member (← fresh) object m

/-- The parameters among given nodes, which all have to be ones; `index` counts from the first. -/
def parametersFrom (index : Nat) : List Expr → Except BuildError (List Parameter)
  | [] => .ok []
  | .parameter p :: rest => do return p :: (← parametersFrom (index + 1) rest)
  | e :: _ => .error (.notAParameter index e.kind)

/-- A lambda whose delegate type is inferred from its parameters and its body. -/
def lambda (body : Expr) (name : Option String) (tailCall : Bool) (params : List Expr) :
    Build Expr := do
  let ps ← parametersFrom 0 params
  return .lambda (← fresh) (Ty.func (ps.map (·.ty)) body.ty) name tailCall ps body

/-- The parameters among given nodes, each of the type that a delegate expects of it. -/
def typedParametersFrom (index : Nat) : List Expr → List Ty → Except BuildError (List Parameter)
  | .parameter p :: rest, expected :: types =>
    if p.ty = expected then do return p :: (← typedParametersFrom (index + 1) rest types)
    else .error (.lambdaParameterType index expected p.ty)
  | e :: _, _ :: _ => .error (.notAParameter index e.kind)
  -- There are as many types as nodes; the caller has compared the numbers.
  | _, _ => .ok []

/-- A lambda of a given delegate type, which has to fit the parameters and accept the body. -/
def typedLambda (delegate : Ty) (body : Expr) (name : Option String) (tailCall : Bool)
    (params : List Expr) : Build Expr := do
  match delegate.signature? with
  | none => throw (.delegateShape delegate params.length)
  | some (types, ret) =>
    -- Then the number of parameters, the types of the parameters and that of the body.
    check (types.length = params.length) (.delegateShape delegate params.length)
    let ps ← typedParametersFrom 0 params types
    check (body.ty.assignableTo ret) (.lambdaReturnType ret body.ty)
    return .lambda (← fresh) delegate name tailCall ps body

/-! ## Operators -/

/-- The type of a unary node. Conversions have the type they are given; a quotation has that of
    the quoted lambda as data. -/
def unaryType (op : UnaryOp) (operand : Expr) (ty : Ty) (method : Option MethodRef) :
    Except BuildError Ty :=
  match op with
  | .quote =>
    -- Whatever type is given does not count.
    if operand.isLambda then .ok (Ty.expression operand.ty)
    else .error (.quoteOperand operand.kind)
  | .convert | .typeAs => .ok ty
  | .not | .negate =>
    match method with
    | some m => .ok m.returnType
    | none => .ok operand.ty

/-- A unary node. -/
def unary (op : UnaryOp) (operand : Expr) (ty : Ty) (method : Option MethodRef) :
    Build Expr := do
  let t ← unaryType op operand ty method
  return .unary (← fresh) op operand t method

/-- A conversion to a type. -/
def convert (operand : Expr) (ty : Ty) : Build Expr :=
  unary .convert operand ty none

/-- A lambda held as data. -/
def quote (lambda : Expr) : Build Expr :=
  unary .quote lambda lambda.ty none

/-- A unary node around another operand, with the operator, type and overload it had. The node
    itself comes back when the operand is the same. -/
def updateUnary (e operand : Expr) : Build Expr :=
  match e with
  | .unary _ op old ty method =>
    if old.SameNode operand then pure e else unary op operand ty method
  | _ => throw (.wrongKind .unary e.kind)

/-- What is wrong with the conversion of a binary node. -/
def conversionFault? (op : BinaryOp) (conversion : Option Expr) : Option BuildError :=
  match conversion with
  | none => none
  | some c =>
    if op ≠ .coalesce then some (.unexpectedConversion op)
    else if c.isLambda then none
    else some (.conversionNotLambda c.kind)

/-- The type of a binary node. An overload decides it; `coalesce` has the type of its right
    operand; all other operators want two operands of one type. A comparison that is lifted over
    nullable operands may itself be absent. -/
def binaryType (op : BinaryOp) (left right : Ty) (lifted : Bool) (method : Option MethodRef) :
    Except BuildError Ty :=
  match method with
  | some m => .ok m.returnType
  | none =>
    if op = .coalesce then .ok right
    else if left ≠ right then .error (.operandMismatch op left right)
    else if op.isComparison then
      .ok (if lifted && left.isNullable then Ty.nullable Ty.bool else Ty.bool)
    else if op.isLogical then .ok Ty.bool
    else .ok left

/-- A binary node. -/
def binary (op : BinaryOp) (left right : Expr) (lifted : Bool) (method : Option MethodRef)
    (conversion : Option Expr) : Build Expr := do
  refuse (conversionFault? op conversion)
  let t ← binaryType op left.ty right.ty lifted method
  return .binary (← fresh) op left right lifted method conversion t

/-! ## Calls -/

/-- An argument as a call takes it: as it is if its type converts, or quoted if it is a lambda
    and the parameter wants that lambda as data. -/
def argument (method : MethodRef) (index : Nat) (arg : Expr) (expected : Ty) : Build Expr :=
  -- What converts is taken as it is, be it a lambda or not.
  if arg.ty.assignableTo expected then pure arg
  else if arg.isLambda && expected.quoted? = some arg.ty then quote arg
  else throw (.argumentType method.render index expected arg.ty)

/-- The arguments of a call, checked from the left; `index` counts from the first. -/
def argumentsFrom (method : MethodRef) (index : Nat) : List Expr → List Ty → Build (List Expr)
  | arg :: args, expected :: types => do
    let first ← argument method index arg expected
    return first :: (← argumentsFrom method (index + 1) args types)
  | _, _ => pure []

/-- What is wrong with calling a method on a receiver. -/
def receiverFault? (receiver : Option Expr) (method : MethodRef) : Option BuildError :=
  match receiver, method.isStatic with
  | some _, true => some (.staticWithReceiver method.render)
  | none, false => some (.missingReceiver method.render)
  | some r, false =>
    if r.ty.assignableTo method.declaringType then none
    else some (.receiverMismatch method.render method.declaringType r.ty)
  | none, true => none

/-- A method call. -/
def call (receiver : Option Expr) (method : MethodRef) (args : List Expr) : Build Expr := do
  -- The first check that fails decides which fault is reported.
  check (!method.isOpen) (.openGenericMethod method.render)
  refuse (receiverFault? receiver method)
  let types := method.parameterTypes
  check (types.length = args.length) (.argumentCount method.render types.length args.length)
  let args ← argumentsFrom method 0 args types
  return .call (← fresh) receiver method args method.returnType

/-- Whether two optional parts are the same node, or both absent. -/
def sameOption : Option Expr → Option Expr → Bool
  | some a, some b => a.SameNode b
  | none, none => true
  | _, _ => false

/-- Whether two lists hold the same nodes. -/
def sameList : List Expr → List Expr → Bool
  | a :: as, b :: bs => a.SameNode b && sameList as bs
  | [], [] => true
  | _, _ => false

/-- A call with other parts and the method it had. The node itself comes back when all parts are
    the same. -/
def updateCall (e : Expr) (receiver : Option Expr) (args : List Expr) : Build Expr :=
  match e with
  | .call _ oldReceiver method oldArgs _ =>
    if sameOption oldReceiver receiver && sameList oldArgs args then pure e
    else call receiver method args
  | _ => throw (.wrongKind .call e.kind)

/-! ## Nodes that are not retargeted -/

/-- A choice between two expressions of one type. -/
def conditional (test ifTrue ifFalse : Expr) : Build Expr := do
  check (test.ty = Ty.bool) (.conditionNotBool test.ty)
  check (ifTrue.ty = ifFalse.ty) (.branchMismatch ifTrue.ty ifFalse.ty)
  return .conditional (← fresh) test ifTrue ifFalse ifTrue.ty

/-- What is wrong with the arguments of an invocation; `index` counts from the first. -/
def invokeFault? (index : Nat) : List Expr → List Ty → Option BuildError
  | arg :: args, expected :: types =>
    if arg.ty.assignableTo expected then invokeFault? (index + 1) args types
    else some (.argumentType "Invoke" index expected arg.ty)
  | _, _ => none

/-- The invocation of a delegate. -/
def invoke (target : Expr) (args : List Expr) : Build Expr := do
  match target.ty.signature? with
  | none => throw (.notInvocable target.ty args.length)
  | some (types, ret) =>
    check (types.length = args.length) (.notInvocable target.ty args.length)
    refuse (invokeFault? 0 args types)
    return .invoke (← fresh) target args ret

end Build

end Retarget
