import Retarget.Pass.Coerce
import Retarget.Proofs.Arena

/-!
# What the constructors build

Each checked constructor is described by when it succeeds and by what it then returns. No later
statement looks at the definition of a constructor again: read from the left, a description says
what a success tells; read from the right, what has to be shown for one.

## Key results

- `Build.bind_eq_ok`: a sequence of constructions succeeds exactly if its steps do
- `Build.call_eq_ok`, `Build.typedLambda_eq_ok`, ...: success and result of each constructor
- `Build.coerce_lambda_eq_ok`, `Build.coerce_unary_eq_ok`: the same for the retyping of arguments
- `Build.coerceEach_le`, `Build.argumentsFrom_le`: identities are given out upwards
-/

namespace Retarget

namespace Build

variable {n n' : Nat} {e : Expr}

/-! ## Sequences -/

/-- A sequence succeeds exactly if its first part does, and the rest on what that returns. -/
theorem bind_eq_ok {α β : Type} {x : Build α} {f : α → Build β} {b : β} :
    (x >>= f) n = .ok (b, n') ↔ ∃ a k, x n = .ok (a, k) ∧ f a k = .ok (b, n') := by
  simp only [bind, StateT.bind, Except.bind]
  cases x n with
  | error err => simp
  | ok p =>
    obtain ⟨a, k⟩ := p
    simp only [Except.ok.injEq, Prod.mk.injEq]
    constructor
    · intro h
      exact ⟨a, k, ⟨rfl, rfl⟩, h⟩
    · intro h
      obtain ⟨_, _, ⟨rfl, rfl⟩, h⟩ := h
      exact h

/-- A construction that returns at once takes no identity. -/
theorem pure_eq_ok {α : Type} {a b : α} :
    (pure a : Build α) n = .ok (b, n') ↔ b = a ∧ n' = n := by
  show (Except.ok (a, n) : Except BuildError (α × Nat)) = .ok (b, n') ↔ b = a ∧ n' = n
  simp only [Except.ok.injEq, Prod.mk.injEq]
  exact and_congr eq_comm eq_comm

/-- A construction that is refused succeeds with nothing. -/
theorem throw_ne_ok {α : Type} {err : BuildError} {r : α × Nat} :
    (throw err : Build α) n ≠ .ok r := by
  simp [throw, throwThe, MonadExceptOf.throw, StateT.lift, bind, Except.bind]

/-- An identity that is asked for is the next one, and the supply moves on by one. -/
theorem fresh_bind_eq_ok {β : Type} {f : Nat → Build β} {b : β} :
    (fresh >>= f) n = .ok (b, n') ↔ f n (n + 1) = .ok (b, n') := by
  simp [bind_eq_ok, fresh]

/-- A check whose result is needed takes no identity. -/
theorem lift_bind_eq_ok {α β : Type} {x : Except BuildError α} {f : α → Build β} {b : β} :
    ((liftM x : Build α) >>= f) n = .ok (b, n') ↔ ∃ a, x = .ok a ∧ f a n = .ok (b, n') := by
  simp only [bind, StateT.bind, liftM, monadLift, MonadLift.monadLift, StateT.lift]
  cases x <;> simp [Except.bind, pure, Except.pure]

/-- A sequence of checks succeeds exactly if its parts do. -/
theorem except_bind_eq_ok {ε α β : Type} {x : Except ε α} {f : α → Except ε β}
    {b : β} : x >>= f = .ok b ↔ ∃ a, x = .ok a ∧ f a = .ok b := by
  cases x <;> simp [bind, Except.bind]

/-- Behind a check, a success tells that what was checked holds. -/
theorem check_bind_eq_ok {β : Type} {c : Bool} {err : BuildError} {f : Unit → Build β} {b : β} :
    (check c err >>= f) n = .ok (b, n') ↔ c = true ∧ f () n = .ok (b, n') := by
  cases c with
  | true => simp [check]
  | false => simp [bind_eq_ok, check, throw_ne_ok]

/-- Behind a refusal, a success tells that there was no fault. -/
theorem refuse_bind_eq_ok {β : Type} {fault : Option BuildError} {f : Unit → Build β} {b : β} :
    (refuse fault >>= f) n = .ok (b, n') ↔ fault = none ∧ f () n = .ok (b, n') := by
  cases fault with
  | none => simp [refuse]
  | some err => simp [bind_eq_ok, refuse, throw_ne_ok]

/-! ## Leaves and member accesses -/

/-- A parameter is always built, under the next identity. -/
theorem parameter_eq_ok {ty : Ty} {name : Option String} {byRef : Bool} :
    parameter ty name byRef n = .ok (e, n') ↔
      e = .parameter ⟨n, ty, name, byRef⟩ ∧ n' = n + 1 := by
  simp only [parameter, fresh_bind_eq_ok, pure_eq_ok]

/-- A constant is always built, under the next identity. -/
theorem constant_eq_ok {v : Value} :
    constant v n = .ok (e, n') ↔ e = .constant n v ∧ n' = n + 1 := by
  simp only [constant, fresh_bind_eq_ok, pure_eq_ok]

/-- A default value is always built, under the next identity. -/
theorem default_eq_ok {ty : Ty} :
    default ty n = .ok (e, n') ↔ e = .default n ty ∧ n' = n + 1 := by
  simp only [default, fresh_bind_eq_ok, pure_eq_ok]

/-- An access has no fault exactly if it obeys the typing rule of accesses. -/
theorem memberFault?_eq_none {object : Option Expr} {m : Member} :
    memberFault? object m = none ↔
      (object.isSome = true ↔ m.isStatic = false) ∧
      (∀ o, object = some o → o.ty.assignableTo m.declaringType = true) := by
  cases object <;> cases h : m.isStatic <;> simp [memberFault?, h]

/-- An access is built exactly if it has no fault. -/
theorem member_eq_ok {object : Option Expr} {m : Member} :
    member object m n = .ok (e, n') ↔
      memberFault? object m = none ∧ e = .member n object m ∧ n' = n + 1 := by
  simp only [member, refuse_bind_eq_ok, fresh_bind_eq_ok, pure_eq_ok]

/-! ## Lambdas -/

/-- The parameters among nodes are found exactly if the nodes are these parameters. -/
theorem parametersFrom_eq_ok {index : Nat} {es : List Expr} {ps : List Parameter} :
    parametersFrom index es = .ok ps ↔ es = ps.map .parameter := by
  -- Induction on the nodes, at any index: the index only names the culprit in a refusal.
  induction es generalizing index ps with
  | nil => cases ps <;> simp [parametersFrom]
  | cons e es ih =>
    cases e with
    | parameter p =>
      simp only [parametersFrom, except_bind_eq_ok, ih]
      constructor
      · intro h
        obtain ⟨rest, rfl, hps⟩ := h
        rw [← Except.ok.inj hps, List.map_cons]
      · intro h
        cases ps with
        | nil => simp at h
        | cons q qs =>
          obtain ⟨hp, rfl⟩ := List.cons.inj h
          exact ⟨qs, rfl, by rw [Expr.parameter.inj hp]; rfl⟩
    | _ => cases ps <;> simp [parametersFrom]

/-- A lambda without a given delegate type is built exactly over parameters, and its delegate type
    is that of its parts. -/
theorem lambda_eq_ok {body : Expr} {name : Option String} {tailCall : Bool} {params : List Expr} :
    lambda body name tailCall params n = .ok (e, n') ↔
      ∃ ps, params = ps.map .parameter ∧
        e = .lambda n (Ty.func (ps.map (·.ty)) body.ty) name tailCall ps body ∧ n' = n + 1 := by
  simp only [lambda, lift_bind_eq_ok, parametersFrom_eq_ok, fresh_bind_eq_ok, pure_eq_ok]

/-- The parameters of given types are found exactly if the nodes are these parameters. -/
theorem typedParametersFrom_eq_ok {index : Nat} {es : List Expr} {types : List Ty}
    {ps : List Parameter} (hlen : types.length = es.length) :
    typedParametersFrom index es types = .ok ps ↔
      es = ps.map .parameter ∧ types = ps.map (·.ty) := by
  induction es generalizing index types ps with
  | nil =>
    obtain rfl : types = [] := List.length_eq_zero_iff.mp hlen
    cases ps <;> simp [typedParametersFrom]
  | cons e es ih =>
    cases types with
    | nil => simp at hlen
    | cons t ts =>
      have hlen' : ts.length = es.length := by simpa using hlen
      cases e with
      | parameter p =>
        simp only [typedParametersFrom]
        split
        · -- The first parameter has the wanted type; the rest is the induction hypothesis.
          rename_i hp
          simp only [except_bind_eq_ok, ih hlen']
          constructor
          · intro h
            obtain ⟨rest, ⟨rfl, rfl⟩, hps⟩ := h
            rw [← Except.ok.inj hps, List.map_cons, List.map_cons, hp]
            exact ⟨rfl, rfl⟩
          · intro h
            obtain ⟨hes, hts⟩ := h
            cases ps with
            | nil => simp at hes
            | cons q qs =>
              obtain ⟨hq, rfl⟩ := List.cons.inj hes
              obtain ⟨_, rfl⟩ := List.cons.inj hts
              exact ⟨qs, ⟨rfl, rfl⟩, by rw [Expr.parameter.inj hq]; rfl⟩
        · -- It has not, and no list of parameters can make up for it.
          rename_i hp
          simp only [reduceCtorEq, false_iff]
          intro h
          obtain ⟨hes, hts⟩ := h
          cases ps with
          | nil => simp at hes
          | cons q qs =>
            have hq := Expr.parameter.inj (List.cons.inj hes).1
            exact hp (hq ▸ (List.cons.inj hts).1.symm)
      | _ => cases ps <;> simp [typedParametersFrom]

/-- A lambda of a given delegate type is built exactly if the type has the parameter types of the
    lambda and a return type that accepts its body. -/
theorem typedLambda_eq_ok {delegate : Ty} {body : Expr} {name : Option String} {tailCall : Bool}
    {params : List Expr} :
    typedLambda delegate body name tailCall params n = .ok (e, n') ↔
      ∃ ps ret, params = ps.map .parameter ∧ delegate = Ty.func (ps.map (·.ty)) ret ∧
        body.ty.assignableTo ret = true ∧
        e = .lambda n delegate name tailCall ps body ∧ n' = n + 1 := by
  unfold typedLambda
  cases h : delegate.signature? with
  | none =>
    -- No type without a signature is a delegate type.
    simp only [throw_ne_ok, false_iff]
    intro h
    obtain ⟨ps, ret, -, rfl, -⟩ := h
    simp at h
  | some signature =>
    obtain ⟨types, ret⟩ := signature
    obtain rfl := Ty.signature?_eq_some.mp h
    simp only [check_bind_eq_ok, lift_bind_eq_ok, fresh_bind_eq_ok, pure_eq_ok, decide_eq_true_eq]
    constructor
    · intro h
      -- The number of parameters is checked first, so that their types can be compared one by one.
      obtain ⟨hlen, ps, hps, hbody, rfl, rfl⟩ := h
      obtain ⟨rfl, rfl⟩ := (typedParametersFrom_eq_ok hlen).mp hps
      exact ⟨ps, ret, rfl, rfl, hbody, rfl, rfl⟩
    · intro h
      obtain ⟨ps, ret', rfl, heq, hbody, rfl, rfl⟩ := h
      -- A delegate type has one signature only.
      have hsig := Ty.signature?_eq_some.mpr heq
      simp only [Ty.signature?_func, Option.some.injEq, Prod.mk.injEq] at hsig
      obtain ⟨rfl, rfl⟩ := hsig
      exact ⟨by simp, ps, (typedParametersFrom_eq_ok (by simp)).mpr ⟨rfl, rfl⟩, hbody, rfl, rfl⟩

/-! ## Operators -/

/-- The type computed for a unary node is the one that its typing rule asks for. -/
theorem unaryRule_of_unaryType {op : UnaryOp} {operand : Expr} {ty t : Ty}
    {method : Option MethodRef} (h : unaryType op operand ty method = .ok t) :
    Expr.unaryRule op operand t method := by
  cases op with
  | quote =>
    simp only [unaryType] at h
    split at h
    · rename_i hl
      exact ⟨hl, (Except.ok.inj h).symm⟩
    · cases h
  | convert => trivial
  | typeAs => trivial
  | not => cases method <;> exact (Except.ok.inj h).symm
  | negate => cases method <;> exact (Except.ok.inj h).symm

/-- A unary node is built exactly if its type can be computed, and has that type. -/
theorem unary_eq_ok {op : UnaryOp} {operand : Expr} {ty : Ty} {method : Option MethodRef} :
    unary op operand ty method n = .ok (e, n') ↔
      ∃ t, unaryType op operand ty method = .ok t ∧
        e = .unary n op operand t method ∧ n' = n + 1 := by
  simp only [unary, lift_bind_eq_ok, fresh_bind_eq_ok, pure_eq_ok]

/-- Exactly lambdas can be quoted, and the quotation has the type of the lambda as data. -/
theorem quote_eq_ok {l : Expr} :
    quote l n = .ok (e, n') ↔
      l.isLambda = true ∧ e = .unary n .quote l (Ty.expression l.ty) none ∧ n' = n + 1 := by
  simp only [quote, unary_eq_ok, unaryType]
  cases l.isLambda <;> simp

/-- A unary node with its operand replaced is the node itself if the operand is the same node, and
    is built anew otherwise. -/
theorem updateUnary_eq_ok {id : Nat} {op : UnaryOp} {old operand : Expr} {ty : Ty}
    {method : Option MethodRef} :
    updateUnary (.unary id op old ty method) operand n = .ok (e, n') ↔
      (old.id = operand.id ∧ e = .unary id op old ty method ∧ n' = n) ∨
      (old.id ≠ operand.id ∧ unary op operand ty method n = .ok (e, n')) := by
  -- Only the identity of the operand is looked at.
  by_cases h : old.id = operand.id <;> simp [updateUnary, Expr.SameNode, h, pure_eq_ok]

/-- A conversion is allowed where it is a lambda and the operator is `coalesce`. -/
theorem conversionFault?_eq_none {op : BinaryOp} {conversion : Option Expr} :
    conversionFault? op conversion = none ↔
      ∀ c, conversion = some c → op = .coalesce ∧ c.isLambda = true := by
  cases conversion with
  | none => simp [conversionFault?]
  | some c => by_cases hop : op = .coalesce <;> simp [conversionFault?, hop]

/-- All operators but `coalesce` have the type of their rule over operands of one type. -/
private theorem binaryType_operator {op : BinaryOp} (hop : op ≠ .coalesce) (t : Ty)
    (lifted : Bool) : binaryType op t t lifted none = .ok (Expr.operatorType op t lifted) := by
  simp only [binaryType, hop, Expr.operatorType, if_false, ne_eq, not_true_eq_false]
  split
  · rfl
  · split <;> rfl

/-- The type computed for a binary node is the one that its typing rule asks for. -/
theorem binaryRule_iff {op : BinaryOp} {left right t : Ty} {lifted : Bool}
    {method : Option MethodRef} :
    Expr.binaryRule op left right lifted method t ↔
      binaryType op left right lifted method = .ok t := by
  cases method with
  | some m =>
    simp only [Expr.binaryRule, binaryType, Except.ok.injEq]
    exact eq_comm
  | none =>
    -- Without an overload, the operator decides; all but `coalesce` want operands of one type.
    by_cases hop : op = .coalesce
    · simp [Expr.binaryRule, binaryType, hop, eq_comm]
    · -- Operands of different types have no type to compute and no rule to obey.
      by_cases hlr : left = right
      · subst hlr
        rw [binaryType_operator hop, Except.ok.injEq]
        simp [Expr.binaryRule, hop, eq_comm]
      · simp [Expr.binaryRule, binaryType, hop, hlr]

/-- A binary node is built exactly if its conversion is allowed and its type can be computed. -/
theorem binary_eq_ok {op : BinaryOp} {left right : Expr} {lifted : Bool}
    {method : Option MethodRef} {conversion : Option Expr} :
    binary op left right lifted method conversion n = .ok (e, n') ↔
      conversionFault? op conversion = none ∧
      ∃ t, binaryType op left.ty right.ty lifted method = .ok t ∧
        e = .binary n op left right lifted method conversion t ∧ n' = n + 1 := by
  simp only [binary, refuse_bind_eq_ok, lift_bind_eq_ok, fresh_bind_eq_ok, pure_eq_ok]

/-! ## Calls -/

/-- An argument is taken as it is if its type converts to the one expected; else it is quoted, if it
    is a lambda and the lambda as data is expected. -/
theorem argument_eq_ok {method : MethodRef} {index : Nat} {arg : Expr} {expected : Ty} :
    argument method index arg expected n = .ok (e, n') ↔
      (arg.ty.assignableTo expected = true ∧ e = arg ∧ n' = n) ∨
      (arg.ty.assignableTo expected = false ∧ arg.isLambda = true ∧
        expected = Ty.expression arg.ty ∧
        e = .unary n .quote arg (Ty.expression arg.ty) none ∧ n' = n + 1) := by
  simp only [argument]
  split
  · rename_i h
    simp [h, pure_eq_ok]
  · -- The type does not convert, so that only a quotation can help.
    rename_i h
    simp only [Bool.not_eq_true] at h
    simp only [h, Bool.false_eq_true, false_and, true_and, false_or]
    split
    · rename_i hq
      simp only [Bool.and_eq_true, decide_eq_true_eq, Ty.quoted?_eq_some] at hq
      simp [hq.1, hq.2, quote_eq_ok]
    · rename_i hq
      simp only [Bool.and_eq_true, decide_eq_true_eq, Ty.quoted?_eq_some] at hq
      simp only [throw_ne_ok, false_iff]
      intro h
      obtain ⟨hl, ht, -⟩ := h
      exact hq ⟨hl, ht⟩

/-- Arguments are taken from the left, each against its own type. -/
theorem argumentsFrom_cons_eq_ok {method : MethodRef} {index : Nat} {arg : Expr}
    {args es : List Expr} {expected : Ty} {types : List Ty} :
    argumentsFrom method index (arg :: args) (expected :: types) n = .ok (es, n') ↔
      ∃ first rest k, argument method index arg expected n = .ok (first, k) ∧
        argumentsFrom method (index + 1) args types k = .ok (rest, n') ∧ es = first :: rest := by
  simp only [argumentsFrom, bind_eq_ok, pure_eq_ok]
  constructor
  · intro h
    obtain ⟨first, k, hfirst, rest, _, hrest, rfl, rfl⟩ := h
    exact ⟨first, rest, k, hfirst, hrest, rfl⟩
  · intro h
    obtain ⟨first, rest, k, hfirst, hrest, rfl⟩ := h
    exact ⟨first, k, hfirst, rest, n', hrest, rfl, rfl⟩

/-- Where no argument is left, nothing is built. -/
theorem argumentsFrom_nil_eq_ok {method : MethodRef} {index : Nat} {types : List Ty}
    {es : List Expr} :
    argumentsFrom method index [] types n = .ok (es, n') ↔ es = [] ∧ n' = n := by
  simp only [argumentsFrom, pure_eq_ok]

/-- A receiver has no fault exactly if it obeys the typing rule of calls: it is there when the
    method is not static, and its type converts to the declaring type. -/
theorem receiverFault?_eq_none {receiver : Option Expr} {method : MethodRef} :
    receiverFault? receiver method = none ↔
      (receiver.isSome = true ↔ method.isStatic = false) ∧
      (∀ r, receiver = some r → r.ty.assignableTo method.declaringType = true) := by
  cases receiver <;> cases h : method.isStatic <;> simp [receiverFault?, h]

/-- A call is built exactly if the method is closed, the receiver has no fault, and every argument
    is accepted, be it after quotation. -/
theorem call_eq_ok {receiver : Option Expr} {method : MethodRef} {args : List Expr} :
    call receiver method args n = .ok (e, n') ↔
      method.isOpen = false ∧ receiverFault? receiver method = none ∧
      method.parameterTypes.length = args.length ∧
      ∃ args' k, argumentsFrom method 0 args method.parameterTypes n = .ok (args', k) ∧
        e = .call k receiver method args' method.returnType ∧ n' = k + 1 := by
  simp only [call, check_bind_eq_ok, refuse_bind_eq_ok, Bool.not_eq_true', decide_eq_true_eq]
  -- The checks come first and take no identity; the arguments may, for quotations.
  rw [bind_eq_ok]
  simp only [fresh_bind_eq_ok, pure_eq_ok]

/-- A call with its parts replaced is the call itself if all are the same nodes, and is built anew
    otherwise. -/
theorem updateCall_eq_ok {id : Nat} {old receiver : Option Expr} {method : MethodRef}
    {oldArgs args : List Expr} {ty : Ty} :
    updateCall (.call id old method oldArgs ty) receiver args n = .ok (e, n') ↔
      ((sameOption old receiver && sameList oldArgs args) = true ∧
        e = .call id old method oldArgs ty ∧ n' = n) ∨
      ((sameOption old receiver && sameList oldArgs args) = false ∧
        call receiver method args n = .ok (e, n')) := by
  simp only [updateCall]
  split <;> rename_i h
  · simp [h, pure_eq_ok]
  · simp only [Bool.not_eq_true] at h
    simp [h]

/-! ## Nodes that are not retargeted -/

/-- A conditional is built exactly over a truth value and branches of one type. -/
theorem conditional_eq_ok {test ifTrue ifFalse : Expr} :
    conditional test ifTrue ifFalse n = .ok (e, n') ↔
      test.ty = Ty.bool ∧ ifTrue.ty = ifFalse.ty ∧
      e = .conditional n test ifTrue ifFalse ifTrue.ty ∧ n' = n + 1 := by
  simp only [conditional, check_bind_eq_ok, fresh_bind_eq_ok, pure_eq_ok, decide_eq_true_eq]

/-- The arguments of an invocation have no fault exactly if their types convert to those
    expected. -/
theorem invokeFault?_eq_none {index : Nat} {args : List Expr} {types : List Ty}
    (hlen : types.length = args.length) :
    invokeFault? index args types = none ↔ Expr.Accepts args types := by
  -- Induction on the arguments, as the check goes through them; the numbers agree.
  induction args generalizing index types with
  | nil =>
    obtain rfl : types = [] := List.length_eq_zero_iff.mp hlen
    simp [invokeFault?, Expr.Accepts]
  | cons arg args ih =>
    cases types with
    | nil => simp at hlen
    | cons t ts =>
      have hlen' : ts.length = args.length := by simpa using hlen
      simp only [invokeFault?, Expr.Accepts, List.forall₂_cons]
      split <;> rename_i h
      · simpa [h, Expr.Accepts] using ih hlen'
      · simp [h]

/-- An invocation is built exactly if its target is a delegate that accepts the arguments. -/
theorem invoke_eq_ok {target : Expr} {args : List Expr} :
    invoke target args n = .ok (e, n') ↔
      ∃ types ret, target.ty = Ty.func types ret ∧ Expr.Accepts args types ∧
        e = .invoke n target args ret ∧ n' = n + 1 := by
  unfold invoke
  cases h : target.ty.signature? with
  | none =>
    simp only [throw_ne_ok, false_iff]
    intro h
    obtain ⟨types, ret, heq, -⟩ := h
    simp [heq] at h
  | some signature =>
    obtain ⟨types, ret⟩ := signature
    simp only [check_bind_eq_ok, refuse_bind_eq_ok, fresh_bind_eq_ok, pure_eq_ok,
      decide_eq_true_eq]
    -- The checks of number and of types together say that the arguments are accepted.
    constructor
    · intro h
      obtain ⟨hlen, hargs, rfl, rfl⟩ := h
      exact ⟨types, ret, Ty.signature?_eq_some.mp h, (invokeFault?_eq_none hlen).mp hargs, rfl, rfl⟩
    · intro h
      obtain ⟨types', ret', heq, hargs, rfl, rfl⟩ := h
      rw [heq, Ty.signature?_func] at h
      obtain ⟨rfl, rfl⟩ := Prod.mk.inj (Option.some.inj h)
      have hlen : types'.length = args.length := (List.Forall₂.length_eq hargs).symm
      exact ⟨hlen, (invokeFault?_eq_none hlen).mpr hargs, rfl, rfl⟩

/-! ## Retyping -/

/-- A unary node is retyped by retyping its operand. -/
theorem coerce_unary_eq_ok {need : Ty} {id : Nat} {op : UnaryOp} {operand : Expr} {ty : Ty}
    {method : Option MethodRef} :
    coerce need (.unary id op operand ty method) n = .ok (e, n') ↔
      ∃ operand' k, coerce need operand n = .ok (operand', k) ∧
        updateUnary (.unary id op operand ty method) operand' k = .ok (e, n') := by
  rw [coerce, bind_eq_ok]

/-- A lambda is retyped to a delegate type with its parameter types and a return type that accepts
    its body; if it has the wanted type already, it is left alone. -/
theorem coerce_lambda_eq_ok {need delegate : Ty} {id : Nat} {name : Option String}
    {tailCall : Bool} {params : List Parameter} {body : Expr} :
    coerce need (.lambda id delegate name tailCall params body) n = .ok (e, n') ↔
      (wantedDelegate need = delegate ∧
        e = .lambda id delegate name tailCall params body ∧ n' = n) ∨
      (wantedDelegate need ≠ delegate ∧
        ∃ ret, wantedDelegate need = Ty.func (params.map (·.ty)) ret ∧
          body.ty.assignableTo ret = true ∧
          e = .lambda n (wantedDelegate need) name tailCall params body ∧ n' = n + 1) := by
  rw [coerce]
  split <;> rename_i h
  · simp [h, pure_eq_ok]
  · simp only [typedLambda_eq_ok, h, false_and, false_or, ne_eq, not_false_eq_true, true_and]
    -- The parameters are those of the lambda, since they are passed on as nodes.
    constructor
    · intro h
      obtain ⟨ps, ret, hps, rest⟩ := h
      obtain rfl := List.map_injective_iff.mpr (fun _ _ => Expr.parameter.inj) hps
      exact ⟨ret, rest⟩
    · intro h
      obtain ⟨ret, rest⟩ := h
      exact ⟨params, ret, rfl, rest⟩

/-- Retyping reaches nothing but lambdas and unary nodes. -/
theorem coerce_of_kind {need : Ty} {e : Expr} (hlambda : e.kind ≠ .lambda)
    (hunary : e.kind ≠ .unary) (n : Nat) : coerce need e n = .ok (e, n) := by
  cases e with
  | lambda id delegate name tailCall params body => exact absurd rfl hlambda
  | unary id op operand ty method => exact absurd rfl hunary
  | _ => rfl

/-- Arguments are retyped from the left, each to its own type. -/
theorem coerceEach_cons_eq_ok {arg : Expr} {args es : List Expr} {need : Ty} {needs : List Ty} :
    coerceEach (arg :: args) (need :: needs) n = .ok (es, n') ↔
      ∃ first rest k, coerce need arg n = .ok (first, k) ∧
        coerceEach args needs k = .ok (rest, n') ∧ es = first :: rest := by
  simp only [coerceEach, bind_eq_ok, pure_eq_ok]
  constructor
  · intro h
    obtain ⟨first, k, hfirst, rest, _, hrest, rfl, rfl⟩ := h
    exact ⟨first, rest, k, hfirst, hrest, rfl⟩
  · intro h
    obtain ⟨first, rest, k, hfirst, hrest, rfl⟩ := h
    exact ⟨first, k, hfirst, rest, n', hrest, rfl, rfl⟩

/-- Arguments are retyped exactly if they are as many as the types, and each can be. -/
theorem coerceAll_eq_ok {method : String} {args es : List Expr} {needs : List Ty} :
    coerceAll method args needs n = .ok (es, n') ↔
      args.length = needs.length ∧ coerceEach args needs n = .ok (es, n') := by
  simp only [coerceAll, check_bind_eq_ok, decide_eq_true_eq]

/-! ## Identities are given out upwards -/

/-- Taking arguments gives out identities upwards. -/
theorem argumentsFrom_le {method : MethodRef} {index : Nat} {args es : List Expr}
    {types : List Ty} (h : argumentsFrom method index args types n = .ok (es, n')) : n ≤ n' := by
  -- Induction on the arguments: each takes one identity or none.
  induction args generalizing index types es n with
  | nil => exact (argumentsFrom_nil_eq_ok.mp h).2 ▸ Nat.le_refl _
  | cons arg args ih =>
    cases types with
    | nil => exact (pure_eq_ok.mp h).2 ▸ Nat.le_refl _
    | cons t ts =>
      obtain ⟨first, rest, k, hfirst, hrest, -⟩ := argumentsFrom_cons_eq_ok.mp h
      have hk := ih hrest
      rcases argument_eq_ok.mp hfirst with ⟨-, -, rfl⟩ | ⟨-, -, -, -, rfl⟩ <;> omega

/-- Retyping gives out identities upwards. -/
theorem coerce_le {need : Ty} {arg : Expr} (h : coerce need arg n = .ok (e, n')) : n ≤ n' := by
  -- Induction from operands to unary nodes; nothing is retyped anywhere else.
  induction arg using Expr.childInduction generalizing e n' with
  | node arg ih =>
    cases arg with
    | lambda id delegate name tailCall params body =>
      rcases coerce_lambda_eq_ok.mp h with ⟨-, -, rfl⟩ | ⟨-, -, -, -, -, rfl⟩ <;> omega
    | unary id op operand ty method =>
      obtain ⟨operand', k, hcoerce, hupdate⟩ := coerce_unary_eq_ok.mp h
      have hk := ih operand (by simp [Expr.children]) hcoerce
      rcases updateUnary_eq_ok.mp hupdate with ⟨-, -, rfl⟩ | ⟨-, hunary⟩
      · exact hk
      · obtain ⟨t, -, -, rfl⟩ := unary_eq_ok.mp hunary
        omega
    | _ => exact (pure_eq_ok.mp h).2 ▸ Nat.le_refl _

/-- Retyping several arguments gives out identities upwards. -/
theorem coerceEach_le {args es : List Expr} {needs : List Ty}
    (h : coerceEach args needs n = .ok (es, n')) : n ≤ n' := by
  induction args generalizing needs es n with
  | nil => exact (pure_eq_ok.mp h).2 ▸ Nat.le_refl _
  | cons arg args ih =>
    cases needs with
    | nil => exact (pure_eq_ok.mp h).2 ▸ Nat.le_refl _
    | cons need needs =>
      obtain ⟨first, rest, k, hfirst, hrest, -⟩ := coerceEach_cons_eq_ok.mp h
      exact Nat.le_trans (coerce_le hfirst) (ih hrest)

end Build

end Retarget
