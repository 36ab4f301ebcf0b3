import Retarget.Proofs.Stale
import Retarget.Proofs.TreeWalk

/-!
# How a pass can fail

A pass fails because it meets a node that it does not handle, because a member has no counterpart,
or because nodes that fitted before do not fit once they are retyped. Every other check of the
constructors is one that the graph has passed when it was built, and that a pass cannot undo: a
method that was closed stays closed, a receiver is there or not as before, a call keeps the number
of its arguments, what was a parameter or a lambda is one still.

## Key results

- `Build.call_eq_error`, `Build.binary_eq_error`, ...: when a constructor fails, and how
- `Expr.OnlyRetyping`: a computation that fails in no other way
- `Expr.retargetTree_onlyRetyping`: the recursion over trees
- `Expr.Constructed.isRetyping_of_run`: the statement for whole passes
-/

namespace Retarget

/-! ## How the constructors fail -/

namespace Build

variable {n : Nat} {err : BuildError}

/-- A sequence fails where its first part fails, or where its second does on what the first hands
    over. -/
theorem bind_eq_error {α β : Type} {x : Build α} {f : α → Build β} :
    (x >>= f) n = .error err ↔ x n = .error err ∨ ∃ a k, x n = .ok (a, k) ∧ f a k = .error err := by
  simp only [bind, StateT.bind, Except.bind]
  cases x n with
  | error e => simp
  | ok r =>
    obtain ⟨a, k⟩ := r
    simp

theorem pure_ne_error {α : Type} {a : α} : (pure a : Build α) n ≠ .error err :=
  nofun

/-- What refuses fails with the error it names. -/
theorem throw_eq_error {α : Type} {e : BuildError} :
    (throw e : Build α) n = .error err ↔ err = e := by
  show (Except.error e : Except BuildError (α × Nat)) = .error err ↔ err = e
  rw [Except.error.injEq, eq_comm]

/-- Taking an identity does not fail. -/
theorem fresh_bind_eq_error {β : Type} {f : Nat → Build β} :
    (fresh >>= f) n = .error err ↔ f n (n + 1) = .error err := by
  simp [bind_eq_error, fresh]

/-- A computation without identities fails as it does by itself. -/
theorem lift_bind_eq_error {α β : Type} {x : Except BuildError α} {f : α → Build β} :
    ((liftM x : Build α) >>= f) n = .error err ↔
      x = .error err ∨ ∃ a, x = .ok a ∧ f a n = .error err := by
  simp only [bind, StateT.bind, liftM, monadLift, MonadLift.monadLift, StateT.lift]
  cases x <;> simp [Except.bind, pure, Except.pure]

/-- A check fails where its condition does not hold, and is passed otherwise. -/
theorem check_bind_eq_error {β : Type} {c : Bool} {e : BuildError} {f : Unit → Build β} :
    (check c e >>= f) n = .error err ↔
      (c = false ∧ err = e) ∨ (c = true ∧ f () n = .error err) := by
  cases c with
  | true => simp [check]
  | false => simp [bind_eq_error, check, throw_eq_error, throw_ne_ok]

/-- A fault that was found is raised, and without one the rest goes on. -/
theorem refuse_bind_eq_error {β : Type} {fault : Option BuildError} {f : Unit → Build β} :
    (refuse fault >>= f) n = .error err ↔
      fault = some err ∨ (fault = none ∧ f () n = .error err) := by
  cases fault with
  | none => simp [refuse]
  | some e => simp [bind_eq_error, refuse, throw_eq_error, throw_ne_ok, @eq_comm _ err]

/-- The access of a member fails for its object only. -/
theorem member_eq_error {object : Option Expr} {m : Member} :
    member object m n = .error err ↔ memberFault? object m = some err := by
  simp only [member, refuse_bind_eq_error, fresh_bind_eq_error, pure_ne_error, and_false, or_false]

/-- A lambda without a given delegate type fails for its parameters only. -/
theorem lambda_eq_error {body : Expr} {name : Option String} {tailCall : Bool}
    {params : List Expr} :
    lambda body name tailCall params n = .error err ↔ parametersFrom 0 params = .error err := by
  simp only [lambda, lift_bind_eq_error, fresh_bind_eq_error, pure_ne_error, and_false,
    exists_false, or_false]

/-- Parameters of given types are refused for their types alone. -/
theorem typedParametersFrom_eq_error {index : Nat} {params : List Parameter} {types : List Ty}
    (h : typedParametersFrom index (params.map .parameter) types = .error err) :
    ∃ i expected found, err = .lambdaParameterType i expected found := by
  -- The parameters are compared with the types from the left; the first that differs is reported.
  induction params generalizing index types with
  | nil => cases types <;> cases h
  | cons p ps ih =>
    cases types with
    | nil => cases h
    | cons t ts =>
      rw [List.map_cons, typedParametersFrom] at h
      split at h
      · cases hrest : typedParametersFrom (index + 1) (ps.map .parameter) ts with
        | error e =>
          rw [hrest] at h
          obtain rfl : e = err := Except.error.inj h
          exact ih hrest
        | ok rest =>
          rw [hrest] at h
          cases h
      · exact ⟨_, _, _, (Except.error.inj h).symm⟩

/-- A lambda over parameters is refused for its delegate type. -/
theorem typedLambda_eq_error {delegate : Ty} {body : Expr} {name : Option String}
    {tailCall : Bool} {params : List Parameter}
    (h : typedLambda delegate body name tailCall (params.map .parameter) n = .error err) :
    err = .delegateShape delegate params.length ∨
      (∃ i expected found, err = .lambdaParameterType i expected found) ∨
      ∃ expected, err = .lambdaReturnType expected body.ty := by
  unfold typedLambda at h
  cases hsignature : delegate.signature? with
  | none =>
    rw [hsignature] at h
    left
    simpa using throw_eq_error.mp h
  | some signature =>
    rw [hsignature] at h
    simp only [check_bind_eq_error, lift_bind_eq_error, fresh_bind_eq_error, pure_ne_error,
      and_false, or_false] at h
    -- In the order of the checks: how many parameters, of which types, and the return type.
    rcases h with ⟨-, herr⟩ | ⟨-, hparams | ⟨ps, -, -, herr⟩⟩
    · left
      simpa using herr
    · right; left
      exact typedParametersFrom_eq_error hparams
    · right; right
      exact ⟨_, herr⟩

/-- A unary node fails only as the quotation of something else than a lambda. -/
theorem unary_eq_error {op : UnaryOp} {operand : Expr} {ty : Ty} {method : Option MethodRef} :
    unary op operand ty method n = .error err ↔
      op = .quote ∧ operand.isLambda = false ∧ err = .quoteOperand operand.kind := by
  simp only [unary, lift_bind_eq_error, fresh_bind_eq_error, pure_ne_error, and_false,
    exists_false, or_false]
  -- Only the type of a quotation can fail to be given.
  cases op with
  | quote => cases hlambda : operand.isLambda <;> simp [unaryType, hlambda, eq_comm]
  | convert | typeAs => simp [unaryType]
  | not | negate => cases method <;> simp [unaryType]

/-- Without an overload, all operators but `coalesce` want operands of one type. -/
theorem binaryType_eq_error {op : BinaryOp} {left right : Ty} {lifted : Bool}
    {method : Option MethodRef} (h : binaryType op left right lifted method = .error err) :
    err = .operandMismatch op left right := by
  unfold binaryType at h
  split at h
  · cases h
  · split at h
    · cases h
    · split at h
      · exact (Except.error.inj h).symm
      · split at h
        · cases h
        · split at h <;> cases h

/-- A binary node fails for its conversion, or for the types of its operands. -/
theorem binary_eq_error {op : BinaryOp} {left right : Expr} {lifted : Bool}
    {method : Option MethodRef} {conversion : Option Expr}
    (h : binary op left right lifted method conversion n = .error err) :
    conversionFault? op conversion = some err ∨ err = .operandMismatch op left.ty right.ty := by
  simp only [binary, refuse_bind_eq_error, lift_bind_eq_error, fresh_bind_eq_error, pure_ne_error,
    and_false, exists_false, or_false] at h
  rcases h with hfault | ⟨-, htype⟩
  · exact .inl hfault
  · exact .inr (binaryType_eq_error htype)

/-- An argument is refused for its type alone. -/
theorem argument_eq_error {method : MethodRef} {index : Nat} {arg : Expr} {expected : Ty}
    (h : argument method index arg expected n = .error err) :
    err = .argumentType method.render index expected arg.ty := by
  unfold argument at h
  split at h
  · -- It fits as it is, it fits once it is quoted, or it is refused.
    exact absurd h pure_ne_error
  · split at h
    · -- Only lambdas are quoted, and these can be.
      rename_i hwanted
      obtain ⟨-, hlambda, -⟩ := unary_eq_error.mp h
      rw [hlambda] at hwanted
      cases hwanted
    · exact throw_eq_error.mp h

/-- The check of arguments from a position on fails with the fault of one of them. -/
theorem argumentsFrom_eq_error {method : MethodRef} {index : Nat} {args : List Expr}
    {types : List Ty} (h : argumentsFrom method index args types n = .error err) :
    ∃ i expected found, err = .argumentType method.render i expected found := by
  induction args generalizing index types n with
  | nil => exact absurd h pure_ne_error
  | cons arg args ih =>
    cases types with
    | nil => exact absurd h pure_ne_error
    | cons t ts =>
      rw [argumentsFrom, bind_eq_error] at h
      rcases h with hfirst | ⟨first, k, -, h⟩
      · exact ⟨_, _, _, argument_eq_error hfirst⟩
      · rw [bind_eq_error] at h
        rcases h with hrest | ⟨rest, m, -, h⟩
        · exact ih hrest
        · exact absurd h pure_ne_error

/-- A call is refused for an open method, for its receiver, for the number of its arguments or for
    the type of one. -/
theorem call_eq_error {receiver : Option Expr} {method : MethodRef} {args : List Expr}
    (h : call receiver method args n = .error err) :
    (method.isOpen = true ∧ err = .openGenericMethod method.render) ∨
      receiverFault? receiver method = some err ∨
      (method.parameterTypes.length ≠ args.length ∧
        err = .argumentCount method.render method.parameterTypes.length args.length) ∨
      ∃ i expected found, err = .argumentType method.render i expected found := by
  simp only [call, check_bind_eq_error, refuse_bind_eq_error, Bool.not_eq_false',
    decide_eq_false_iff_not] at h
  -- In the order of the checks.
  rcases h with hopen | ⟨-, hfault | ⟨-, hcount | ⟨-, h⟩⟩⟩
  · exact .inl hopen
  · exact .inr (.inl hfault)
  · exact .inr (.inr (.inl hcount))
  · rw [bind_eq_error] at h
    rcases h with hargs | ⟨args', k, -, h⟩
    · exact .inr (.inr (.inr (argumentsFrom_eq_error hargs)))
    · exact absurd h pure_ne_error

end Build

/-! ## The failures that retyping causes -/

/-- Whether a failure to build a node is one that retyping its parts can cause. -/
def BuildError.isRetyping : BuildError → Bool
  | .receiverMismatch .. => true
  | .argumentType .. => true
  | .delegateShape .. => true
  | .lambdaParameterType .. => true
  | .lambdaReturnType .. => true
  | .operandMismatch .. => true
  | .staticMemberWithObject _ => true
  | .missingMemberObject _ => true
  | .memberObjectMismatch .. => true
  | _ => false

/-- Whether a pass over a graph can fail in this way. -/
def RetargetError.isRetyping : RetargetError → Bool
  | .unresolvedMember .. => true
  | .unsupportedKind _ => true
  | .build e => e.isRetyping

namespace Build

/-- A member is refused for its object only. -/
theorem isRetyping_memberFault {object : Option Expr} {m : Member} {err : BuildError}
    (h : memberFault? object m = some err) : err.isRetyping = true := by
  unfold memberFault? at h
  split at h
  · obtain rfl := Option.some.inj h
    rfl
  · obtain rfl := Option.some.inj h
    rfl
  · split at h
    · cases h
    · obtain rfl := Option.some.inj h
      rfl
  · cases h

/-- A receiver that is there exactly if it is wanted is refused for its type only. -/
theorem isRetyping_receiverFault {receiver : Option Expr} {method : MethodRef} {err : BuildError}
    (hreceiver : receiver.isSome = true ↔ method.isStatic = false)
    (h : receiverFault? receiver method = some err) : err.isRetyping = true := by
  cases receiver with
  | none =>
    -- Without a receiver the method is static, and nothing is checked.
    have hstatic : method.isStatic = true := by simpa using hreceiver
    unfold receiverFault? at h
    rw [hstatic] at h
    cases h
  | some r =>
    -- With one the method is not static, and only the type is checked.
    have hstatic : method.isStatic = false := by simpa using hreceiver
    unfold receiverFault? at h
    rw [hstatic] at h
    dsimp only at h
    split at h
    · cases h
    · obtain rfl := Option.some.inj h
      rfl

end Build

namespace Expr

open Build (except_bind_eq_ok)

variable {s : Substitution} {cat : Catalog} {a : Arena} {α β : Type}

/-- A computation that fails in no other way than retyping can make it fail. -/
def OnlyRetyping (x : Except RetargetError α) : Prop :=
  ∀ err, x = .error err → err.isRetyping = true

namespace OnlyRetyping

theorem ok (c : α) : OnlyRetyping (.ok c) := nofun

/-- A sequence fails in no other way if neither of its parts does. -/
theorem bind {x : Except RetargetError α} {k : α → Except RetargetError β} (hx : OnlyRetyping x)
    (hk : ∀ c, x = .ok c → OnlyRetyping (k c)) : OnlyRetyping (x >>= k) := by
  intro err h
  cases hresult : x with
  | error err' =>
    rw [hresult] at h
    obtain rfl : err' = err := Except.error.inj h
    exact hx err' hresult
  | ok c =>
    rw [hresult] at h
    exact hk c hresult err h

/-- A failure that retyping can cause is one such. -/
theorem throw {err : RetargetError} (h : err.isRetyping = true) :
    OnlyRetyping (.error err : Except RetargetError α) := by
  intro err' herr
  obtain rfl := Except.error.inj herr
  exact h

/-- A node that is built in isolation fails as its constructor does. -/
theorem made {b : Build Expr} (h : ∀ err, b 0 = .error err → err.isRetyping = true) :
    OnlyRetyping b.made := by
  intro err herr
  unfold Build.made Build.outcome at herr
  split at herr
  · cases herr
  · rename_i e he
    obtain rfl := Except.error.inj herr
    exact h e he

end OnlyRetyping

/-! ## One node -/

/-- A call fails for the types of its receiver and its arguments alone when its method is closed and
    all parts are there that have to be. -/
theorem made_call_onlyRetyping {receiver : Option Expr} {method : MethodRef} {args : List Expr}
    (hclosed : method.isOpen = false)
    (hreceiver : receiver.isSome = true ↔ method.isStatic = false)
    (hlen : method.parameterTypes.length = args.length) :
    OnlyRetyping (Build.call receiver method args).made := by
  refine .made fun err h => ?_
  -- Of the four ways to fail, the hypotheses rule out an open method, a receiver too many or too
  -- few, and a wrong number of arguments.
  rcases Build.call_eq_error h with ⟨hopen, -⟩ | hfault | ⟨hcount, -⟩ | ⟨i, expected, found, rfl⟩
  · rw [hclosed] at hopen
    cases hopen
  · exact Build.isRetyping_receiverFault hreceiver hfault
  · exact absurd hlen hcount
  · rfl

/-- A unary node does not fail where a quotation is one of a lambda. -/
theorem made_unary_onlyRetyping {op : UnaryOp} {operand : Expr} {ty : Ty}
    {method : Option MethodRef} (h : op = .quote → operand.isLambda = true) :
    OnlyRetyping (Build.unary op operand ty method).made := by
  refine .made fun err herr => ?_
  obtain ⟨hop, hlambda, -⟩ := Build.unary_eq_error.mp herr
  rw [h hop] at hlambda
  cases hlambda

/-- Retyping a tree whose quotations are quotations of lambdas fails for delegate types only. -/
theorem coerceTree_onlyRetyping {e : Expr} (he : e ∈ a.nodes) (need : Ty) :
    OnlyRetyping (Build.coerceTree need e.tree) := by
  -- Retyping goes into quotations and changes lambdas there; every other node is kept.
  induction e using childInduction with
  | node e ih =>
    cases e with
    | lambda id delegate name tailCall params body =>
      rw [tree, Build.coerceTree]
      refine .made fun err h => ?_
      rcases Build.typedLambda_eq_error h with rfl | ⟨i, expected, found, rfl⟩ | ⟨expected, rfl⟩ <;>
        rfl
    | unary id op operand ty method =>
      have hoperand := a.closed _ he operand (by simp [children])
      rw [tree, Build.coerceTree]
      refine (ih operand (by simp [children]) hoperand).bind fun operand' hcoerce => ?_
      refine made_unary_onlyRetyping fun hop => ?_
      -- What was quoted is a lambda, and retyping does not change the kind of a node.
      subst hop
      obtain ⟨hlambda, -⟩ := a.typed _ he
      rw [isLambda_iff_kind, Build.kind_of_coerceTree hcoerce, kind_tree, ← isLambda_iff_kind]
      exact hlambda
    | _ => exact .ok _

/-- Retyping trees in a row fails as retyping each of them does. -/
theorem coerceTrees_onlyRetyping {xs : List Expr} {needs : List Ty}
    (h : ∀ x ∈ xs, ∀ need, OnlyRetyping (Build.coerceTree need x)) :
    OnlyRetyping (Build.coerceTrees xs needs) := by
  induction xs generalizing needs with
  | nil => exact .ok _
  | cons x xs ih =>
    cases needs with
    | nil => exact .ok _
    | cons need needs =>
      rw [Build.coerceTrees]
      refine (h x List.mem_cons_self need).bind fun first _ => ?_
      refine (ih fun y hy => h y (List.mem_cons_of_mem _ hy)).bind fun rest _ => .ok _

/-! ## The recursion -/

/-- An optional part fails as the part does. -/
theorem option_onlyRetyping {o : Option Expr}
    (ih : ∀ e, o = some e → OnlyRetyping (retargetTree s cat e)) :
    OnlyRetyping (retargetTreeOption s cat o) := by
  cases o with
  | none => exact .ok _
  | some e =>
    rw [retargetTreeOption]
    exact (ih e rfl).bind fun x _ => .ok _

/-- Parts in a row fail as each of them does. -/
theorem list_onlyRetyping {es : List Expr} (ih : ∀ e ∈ es, OnlyRetyping (retargetTree s cat e)) :
    OnlyRetyping (retargetTrees s cat es) := by
  induction es with
  | nil => exact .ok _
  | cons e es ihs =>
    rw [retargetTrees]
    refine (ih e List.mem_cons_self).bind fun first _ => ?_
    exact (ihs fun x hx => ih x (List.mem_cons_of_mem _ hx)).bind fun rest _ => .ok _

/-- Retyping what a pass makes of nodes of an arena fails for delegate types only. -/
theorem coerceTree_onlyRetyping_of_becomes {e x : Expr} (he : e ∈ a.nodes)
    (h : Becomes s cat e x) (need : Ty) : OnlyRetyping (Build.coerceTree need x) := by
  obtain ⟨e', st, hrun, rfl⟩ := (becomes_iff_run he).mp h
  obtain ⟨b, -, he'⟩ := exists_arena_of_run he hrun
  exact coerceTree_onlyRetyping he' need

/-- A call has been checked for all that does not depend on types when it was built: its method is
    closed, its receiver is there if it is wanted, and its arguments are as many as its
    parameters. -/
theorem call_onlyRetyping {id : Nat} {receiver : Option Expr} {method : MethodRef}
    {args : List Expr} {ty : Ty}
    (ih : ∀ c ∈ (call id receiver method args ty).children, OnlyRetyping (retargetTree s cat c))
    (he : call id receiver method args ty ∈ a.nodes) :
    OnlyRetyping (retargetTree s cat (call id receiver method args ty)) := by
  obtain ⟨hclosed, hreceiver, -, haccepts, -⟩ := a.typed _ he
  have hargsmem := a.args_mem he
  rw [retargetTree]
  refine (list_onlyRetyping fun x hx => ih x (List.mem_append_right _ hx)).bind fun xs hxs => ?_
  refine (option_onlyRetyping fun r hr => ih r (by simp [children, hr])).bind
    fun receiver' hreceiver' => ?_
  -- The parts that were there are there, and no others.
  have hbecomes := retargetTrees_eq_ok.mp hxs
  have hlen : method.parameterTypes.length = xs.length :=
    haccepts.length_eq.symm.trans hbecomes.length_eq
  have hpresent : receiver'.isSome = true ↔ method.isStatic = false := by
    rw [← hreceiver]
    cases retargetTreeOption_eq_ok.mp hreceiver' <;> simp
  split
  · -- Closing the method anew changes neither its number of parameters nor whether it is static.
    have hlen' : (s.rebind method).parameterTypes.length = xs.length := by
      rw [← hlen]
      simp [MethodRef.parameterTypes, Substitution.rebind, MethodRef.mapTypeArgs]
    have hclosed' : (s.rebind method).isOpen = false := by
      apply MethodRef.isOpen_eq_false
      simpa [Substitution.rebind, MethodRef.mapTypeArgs] using hclosed
    refine OnlyRetyping.bind ?_ fun ys hys => made_call_onlyRetyping hclosed' hpresent ?_
    · rw [Build.coerceArguments, if_pos hlen'.symm]
      refine coerceTrees_onlyRetyping fun x hx need => ?_
      obtain ⟨e, heargs, hex⟩ := hbecomes.exists_of_mem_right hx
      exact coerceTree_onlyRetyping_of_becomes (hargsmem e heargs) hex need
    · have hys := Build.coerceArguments_eq_ok.mp hys
      exact hys.length_eq_right
  · exact made_call_onlyRetyping (MethodRef.isOpen_eq_false hclosed) hpresent hlen

/-- A lambda fails only inside its body. -/
theorem lambda_onlyRetyping {id : Nat} {delegate : Ty} {name : Option String} {tailCall : Bool}
    {params : List Parameter} {body : Expr} (ih : OnlyRetyping (retargetTree s cat body)) :
    OnlyRetyping (retargetTree s cat (.lambda id delegate name tailCall params body)) := by
  -- What stands for a parameter is one.
  have hparams : Build.parametersFrom 0 (params.map fun p => replacement s 0 (.parameter p)) =
      .ok (params.map (Parameter.retargeted s)) :=
    Build.parametersFrom_eq_ok.mpr (by rw [List.map_map]; rfl)
  rw [retargetTree]
  refine ih.bind fun body' _ => .made fun err h => ?_
  rw [Build.lambda_eq_error, hparams] at h
  cases h

/-- A member fails to be resolved for want of a counterpart. -/
theorem resolveMember_onlyRetyping (m : Member) : OnlyRetyping (s.resolveMember cat m) := by
  intro err h
  unfold Substitution.resolveMember at h
  split at h
  · cases h
  · dsimp only at h
    split at h
    · cases h
    · split at h
      · cases h
      · split at h
        · cases h
        · obtain rfl := Except.error.inj h
          rfl

/-- The access of a member fails for its object, or for the member. -/
theorem member_onlyRetyping {id : Nat} {object : Option Expr} {m : Member}
    (ih : ∀ o, object = some o → OnlyRetyping (retargetTree s cat o)) :
    OnlyRetyping (retargetTree s cat (.member id object m)) := by
  rw [retargetTree]
  refine (option_onlyRetyping ih).bind fun object' _ => ?_
  refine (resolveMember_onlyRetyping m).bind fun m' _ => .made fun err h => ?_
  exact Build.isRetyping_memberFault (Build.member_eq_error.mp h)

/-- A unary node fails only in its operand, as what is quoted is a lambda still. -/
theorem unary_onlyRetyping {id : Nat} {op : UnaryOp} {operand : Expr} {ty : Ty}
    {method : Option MethodRef} (ih : OnlyRetyping (retargetTree s cat operand))
    (he : unary id op operand ty method ∈ a.nodes) :
    OnlyRetyping (retargetTree s cat (.unary id op operand ty method)) := by
  rw [retargetTree]
  refine ih.bind fun operand' hoperand => made_unary_onlyRetyping fun hop => ?_
  subst hop
  obtain ⟨hlambda, -⟩ := a.typed _ he
  exact (Becomes.isLambda_iff hoperand).mpr hlambda

/-- A binary node fails for the types of its operands, as its conversion is a lambda still. -/
theorem binary_onlyRetyping {id : Nat} {op : BinaryOp} {left right : Expr} {lifted : Bool}
    {method : Option MethodRef} {conversion : Option Expr} {ty : Ty}
    (ih : ∀ c ∈ (binary id op left right lifted method conversion ty).children,
      OnlyRetyping (retargetTree s cat c))
    (he : binary id op left right lifted method conversion ty ∈ a.nodes) :
    OnlyRetyping (retargetTree s cat (.binary id op left right lifted method conversion ty)) := by
  obtain ⟨hrule, -⟩ := a.typed _ he
  rw [retargetTree]
  refine (ih left (by simp [children])).bind fun left' _ => ?_
  refine (ih right (by simp [children])).bind fun right' _ => ?_
  refine (option_onlyRetyping fun c hc => ih c (by simp [children, hc])).bind
    fun conversion' hconversion => ?_
  -- A conversion is where it may be, and what becomes of it is a lambda as before.
  have hfault : Build.conversionFault? op conversion' = none := by
    rw [Build.conversionFault?_eq_none]
    intro c' hc'
    obtain ⟨c, hc, hbecomes⟩ :=
      Option.exists_of_rel_some (hc' ▸ retargetTreeOption_eq_ok.mp hconversion)
    obtain ⟨hop, hlambda⟩ := hrule c hc
    exact ⟨hop, hbecomes.isLambda_iff.mpr hlambda⟩
  refine .made fun err h => ?_
  rcases Build.binary_eq_error h with herr | rfl
  · rw [hfault] at herr
    cases herr
  · rfl

/-- The recursion over trees fails on nodes of an arena in no other way than retyping can make it
    fail. -/
theorem retargetTree_onlyRetyping (s : Substitution) (cat : Catalog) (e : Expr)
    (he : e ∈ a.nodes) : OnlyRetyping (retargetTree s cat e) := by
  -- By induction over parts, which are nodes of the arena as well.
  induction e using childInduction with
  | node e ih =>
    have ih : ∀ c ∈ e.children, OnlyRetyping (retargetTree s cat c) :=
      fun c hc => ih c hc (a.closed e he c hc)
    cases e with
    | call id receiver method args ty => exact call_onlyRetyping ih he
    | lambda id delegate name tailCall params body =>
      exact lambda_onlyRetyping (ih body (by simp [children]))
    | parameter p =>
      rw [retargetTree_of_isLeaf rfl]
      exact .ok _
    | member id object m => exact member_onlyRetyping fun o ho => ih o (by simp [children, ho])
    | constant id v =>
      rw [retargetTree_of_isLeaf rfl]
      exact .ok _
    | unary id op operand ty method => exact unary_onlyRetyping (ih operand (by simp [children])) he
    | binary id op left right lifted method conversion ty => exact binary_onlyRetyping ih he
    | conditional id test ifTrue ifFalse ty => exact .throw rfl
    | invoke id target args ty => exact .throw rfl
    | default id ty => exact .throw rfl

end Expr

/-! ## Passes -/

/-- Closes a method over its replaced type arguments, if it is generic and closed already. -/
def Substitution.reclose (s : Substitution) (m : MethodRef) : Except TypeError MethodRef :=
  if m.isGeneric && !m.isOpen then MethodRef.close m.definition (m.typeArgs.map s.resolve)
  else .ok m

/-- A method that could be closed can be closed anew: it has as many arguments as before. -/
theorem Substitution.reclose_eq_ok (s : Substitution) (m : MethodRef) :
    s.reclose m = .ok (s.rebind m) := by
  unfold Substitution.reclose
  by_cases hargs : m.typeArgs = []
  · have hself : s.rebind m = m := MethodRef.mapTypeArgs_eq_self (by simp [hargs])
    simp [MethodRef.isOpen, hargs, hself]
  · have hlen : m.typeArgs.length = m.definition.typeParams.length := m.arity.resolve_left hargs
    have hparams : m.definition.typeParams ≠ [] := by
      intro hnone
      rw [hnone, List.length_nil, List.length_eq_zero_iff] at hlen
      exact hargs hlen
    have hclosed : (m.isGeneric && !m.isOpen) = true := by
      simp [MethodRef.isGeneric, MethodRef.isOpen, hparams, hargs]
    rw [if_pos hclosed, MethodRef.close, if_neg hparams,
      dif_pos (by rw [List.length_map, hlen])]
    rfl

/-- A pass over a constructed expression fails only because of a member without a counterpart, a
    node that it does not handle, or parts that do not fit once they are retyped; and no method
    fails to be closed anew. -/
theorem Expr.Constructed.isRetyping_of_run {supply : Nat} {e : Expr} (h : e.Constructed supply)
    (s : Substitution) (cat : Catalog) :
    (∀ err, (Pass.run s cat supply e).result = .error err → err.isRetyping = true) ∧
      ∀ m, s.reclose m = .ok (s.rebind m) := by
  obtain ⟨a, rfl, he⟩ := h.exists_arena
  constructor
  · intro err herr
    -- The pass fails exactly as the recursion over trees does.
    have hresult := map_tree_result s cat he
    rw [herr] at hresult
    exact retargetTree_onlyRetyping s cat e he err hresult.symm
  · exact s.reclose_eq_ok

namespace Sample

/-- Moves the items to a class that the catalog does not have. -/
def astray : Substitution := Substitution.add {} itemFrom (.named "Nowhere")

/-- The property has no counterpart in a class that nobody declared, and the pass fails for that. -/
theorem identifier_isRetyping :
    (Pass.run astray catalog 3 (identifier itemFrom 0)).result =
        .error (.unresolvedMember "Id" itemFrom (.named "Nowhere")) ∧
      (RetargetError.unresolvedMember "Id" itemFrom (.named "Nowhere")).isRetyping = true := by
  have hconstructed : (identifier itemFrom 0).Constructed 3 :=
    identifier_built.constructed List.mem_cons_self
  have hrun : (Pass.run astray catalog 3 (identifier itemFrom 0)).result =
      .error (.unresolvedMember "Id" itemFrom (.named "Nowhere")) := by
    rfl
  exact ⟨hrun, (Expr.Constructed.isRetyping_of_run hconstructed astray catalog).1 _ hrun⟩

end Sample

end Retarget
