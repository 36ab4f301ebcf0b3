import Retarget.Expr.Build

/-!
# Retyping arguments

When a generic call is closed over other type arguments, a lambda among its arguments may have
to take a delegate type that is wider than the one inferred for it. Retyping reaches a lambda
through any number of unary nodes and leaves everything else alone.

* `Build.coerce`       one argument against the type that is wanted
* `Build.coerceAll`    the arguments of a call
-/

namespace Retarget

namespace Build

/-- The delegate type that a wanted type asks of a lambda: the one inside `Expression<_>`, or the
    wanted type itself. -/
def wantedDelegate (need : Ty) : Ty := need.quoted?.getD need

/-- An argument retyped to what is wanted of it. -/
def coerce (need : Ty) : Expr → Build Expr
  | .lambda id delegate name tailCall params body =>
    -- The lambda that has the type already is the same node still.
    if wantedDelegate need = delegate then pure (.lambda id delegate name tailCall params body)
    else
      typedLambda (wantedDelegate need) body name tailCall (params.map .parameter)
  | .unary id op operand ty method => do
    let operand' ← coerce need operand
    updateUnary (.unary id op operand ty method) operand'
  | e => pure e

/-- Arguments retyped from the left. -/
def coerceEach : List Expr → List Ty → Build (List Expr)
  | arg :: args, need :: needs => do
    let first ← coerce need arg
    return first :: (← coerceEach args needs)
  | _, _ => pure []

/-- The arguments of a method retyped to its parameter types. -/
def coerceAll (method : String) (args : List Expr) (needs : List Ty) : Build (List Expr) := do
  check (args.length = needs.length) (.argumentCount method needs.length args.length)
  coerceEach args needs

end Build

end Retarget
