import Retarget.Expr.Render
import Retarget.Pass.Coerce
import Retarget.Pass.Memo
import Retarget.Pass.Resolve

/-!
# The retargeting pass

A pass walks an expression once and builds it anew under a substitution. Parameters and constants
are replaced once each and remembered by identity, so that what was shared stays shared; a call
of a method that is not generic is kept when none of its parts changed. The pass also keeps a
history of what it did, which survives a failure.

Main definitions:

* `Expr.retarget`      the walk
* `Pass.run`           one pass over an expression, with its memo and its history
* `Pass.runStaged`     several passes, each over the result of the one before
-/

namespace Retarget

/-- Something that a pass did. -/
inductive Event where
  | parameterReplaced (parameter : Parameter) (target : Ty)
  | constantReplaced (source target : Value)
  /-- A generic method was closed over its replaced arguments, changed or not. -/
  | methodRebound (source target : MethodRef)
  /-- The member override was asked. -/
  | overrideConsulted (member : Member)
  /-- The member override gave a member. -/
  | memberOverridden (source target : Member)

/-- What a pass carries along: the next identity, the memo and the history. -/
structure PassState where
  supply : Nat
  memo : Memo
  events : List Event
deriving Inhabited

/-- A part of a pass. Its state survives a failure. -/
abbrev Pass := ExceptT RetargetError (StateM PassState)

namespace Pass

/-- Adds to the history. -/
def emit (e : Event) : Pass Unit :=
  modify fun st => { st with events := st.events ++ [e] }

/-- Builds a node within a pass. -/
def build {α : Type} (b : Build α) : Pass α := do
  let st ← get
  match b st.supply with
  | .ok (a, supply) =>
    set { st with supply }
    return a
  | .error e => throw (.build e)

/-- The replacement of a node that is replaced once: the remembered one, or else a new one, which
    is remembered. -/
def once (node : Expr) (replace : Pass Expr) : Pass Expr := do
  match (← get).memo.lookup? node with
  | some seen => return seen
  | none =>
    let replacement ← replace
    -- Recorded last, so that a failure leaves no node without a replacement behind.
    modify fun st => { st with memo := st.memo.record node replacement }
    return replacement

variable (s : Substitution) (cat : Catalog)

/-- Replaces a parameter by one of the replaced type. -/
def parameter (p : Parameter) : Pass Expr :=
  once (.parameter p) do
    let target := s.resolve p.ty
    let replacement ← build (Build.parameter target p.name p.byRef)
    emit (.parameterReplaced p target)
    return replacement

/-- Replaces a constant by one of the transformed value. -/
def constant (id : Nat) (v : Value) : Pass Expr :=
  once (.constant id v) do
    let target := s.transform v
    let replacement ← build (Build.constant target)
    emit (.constantReplaced v target)
    return replacement

/-- Closes a method over its replaced type arguments. -/
def method (m : MethodRef) : Pass MethodRef := do
  let target := s.rebind m
  if !m.typeArgs.isEmpty then emit (.methodRebound m target)
  return target

/-- Closes an operator's overload over its replaced type arguments. -/
def overload : Option MethodRef → Pass (Option MethodRef)
  | none => return none
  | some m => return some (← method s m)

/-- The member that takes the place of another. -/
def member (m : Member) : Pass Member := do
  -- The question is part of the history even if the member cannot be resolved afterwards.
  if s.memberOverride.isSome then emit (.overrideConsulted m)
  match s.override? m with
  | some overriding => emit (.memberOverridden m overriding)
  | none => pure ()
  match s.resolveMember cat m with
  | .ok target => return target
  | .error e => throw e

end Pass

namespace Expr

mutual

/-- One pass over an expression. Arguments come before the receiver, parameters before the body,
    and the left operand before the right one and the conversion. -/
def retarget (s : Substitution) (cat : Catalog) : Expr → Pass Expr
  | .call id receiver method args ty => do
    let args' ← retargetList s cat args
    let receiver' ← retargetOption s cat receiver
    if method.isGeneric then
      let method' ← Pass.method s method
      -- The types that are wanted are those of the rebound method, not those of the old one.
      let args'' ← Pass.build (Build.coerceAll method'.name args' method'.parameterTypes)
      Pass.build (Build.call receiver' method' args'')
    -- There are no type arguments to replace, so the node may stay what it is.
    else Pass.build (Build.updateCall (.call id receiver method args ty) receiver' args')
  | .lambda _ _ name tailCall params body => do
    let params' ← params.mapM (Pass.parameter s)
    -- The parameters are in the memo now, where the body finds them.
    let body' ← retarget s cat body
    Pass.build (Build.lambda body' name tailCall params')
  | .parameter p => Pass.parameter s p
  | .member _ object m => do
    let object' ← retargetOption s cat object
    let m' ← Pass.member s cat m
    Pass.build (Build.member object' m')
  | .constant id v => Pass.constant s id v
  | .unary _ op operand ty method => do
    let operand' ← retarget s cat operand
    let method' ← Pass.overload s method
    -- A quotation gets its type from the lambda it holds.
    let ty' := if op = .quote then ty else s.resolve ty
    Pass.build (Build.unary op operand' ty' method')
  | .binary _ op left right lifted method conversion _ => do
    let left' ← retarget s cat left
    let right' ← retarget s cat right
    let conversion' ← retargetOption s cat conversion
    let method' ← Pass.overload s method
    Pass.build (Build.binary op left' right' lifted method' conversion')
  -- The parts of these are not looked at.
  | .conditional .. => throw (.unsupportedKind .conditional)
  | .invoke .. => throw (.unsupportedKind .invoke)
  | .default .. => throw (.unsupportedKind .default)

/-- The pass over an optional part. -/
def retargetOption (s : Substitution) (cat : Catalog) : Option Expr → Pass (Option Expr)
  | none => return none
  | some e => return some (← retarget s cat e)

/-- The pass over parts from the left. -/
def retargetList (s : Substitution) (cat : Catalog) : List Expr → Pass (List Expr)
  | [] => return []
  | e :: es => do
    let first ← retarget s cat e
    return first :: (← retargetList s cat es)

end

end Expr

namespace Pass

/-- The outcome of a pass: an expression or a failure, and the state at the end of it. -/
structure Report where
  result : Except RetargetError Expr
  state : PassState

/-- One pass over an expression, with identities from `supply` on. -/
def run (s : Substitution) (cat : Catalog) (supply : Nat) (e : Expr) : Report :=
  match StateT.run (ExceptT.run (e.retarget s cat)) ⟨supply, .empty, []⟩ with
  | (result, state) => ⟨result, state⟩

/-- Passes over an expression, one for each substitution, each over the result of the one before.
    The next identity comes with the result. -/
def runStaged (cat : Catalog) :
    (supply : Nat) → Expr → List Substitution → Except RetargetError (Expr × Nat)
  | supply, e, [] => .ok (e, supply)
  | supply, e, s :: rest =>
    match run s cat supply e with
    | ⟨.ok e', state⟩ => runStaged cat state.supply e' rest
    | ⟨.error err, _⟩ => .error err

end Pass

end Retarget
