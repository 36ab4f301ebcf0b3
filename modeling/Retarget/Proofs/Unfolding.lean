import Retarget.Proofs.Compatible
import Retarget.Proofs.Tree

/-!
# Keeping nodes makes no difference

A pass keeps a call because its parts are the nodes they were, and retyping keeps the nodes around a
lambda that has the wanted type. Neither can be seen in the tree of the result, since a well-typed
node is built anew as it is. To say so of whole sequences, a part of a pass is put beside a
computation without state that gives the trees.

## Key results

- `Pass.Realizes.bind`: a sequence does what its parts do
- `Build.made_call_of_typed`, ...: a well-typed node is built anew as it is
- `Build.outcome_coerce`, `Build.outcome_updateCall`: where nodes are kept
-/

namespace Retarget

namespace Pass

variable {α β γ δ : Type} {st st' : PassState} {s : Substitution} {cat : Catalog}

/-! ## Passes beside computations without state -/

/-- A part of a pass, run from `st`, does what a computation without state does: both fail in the
    same way, or both succeed and `post` holds of what they give. -/
inductive Realizes (p : Pass α) (st : PassState) (x : Except RetargetError γ)
    (post : α → PassState → γ → Prop) : Prop where
  | ok {a : α} {st' : PassState} {c : γ} (hp : p.Returns st a st') (hx : x = .ok c)
      (hpost : post a st' c)
  | error {err : RetargetError} {st' : PassState} (hp : p.exec st = (.error err, st'))
      (hx : x = .error err)

namespace Realizes

variable {p : Pass α} {k : α → Pass β} {x : Except RetargetError γ}
  {R : α → PassState → γ → Prop} {S : β → PassState → δ → Prop}

/-- A first part that succeeds leaves it to the second. -/
theorem after {a : α} {y : Except RetargetError δ} (hp : p.Returns st a st')
    (hk : (k a).Realizes st' y S) : (p >>= k).Realizes st y S := by
  cases hk with
  | ok hk hy hS => exact .ok (returns_bind.mpr ⟨a, st', hp, hk⟩) hy hS
  | error hk hy =>
    unfold Returns at hp
    exact .error (by rw [exec_bind, hp]; exact hk) hy

/-- A sequence does what another does if its parts do. -/
theorem bind {h : γ → Except RetargetError δ} (hp : p.Realizes st x R)
    (hk : ∀ a st' c, R a st' c → (k a).Realizes st' (h c) S) :
    (p >>= k).Realizes st (x >>= h) S := by
  cases hp with
  | ok hp hx hR =>
    subst hx
    exact .after hp (hk _ _ _ hR)
  | error hp hx =>
    subst hx
    exact .error (by rw [exec_bind, hp]) rfl

/-- Beside a computation that succeeds, a part of a pass returns. -/
theorem exists_returns {c : γ} (h : p.Realizes st (.ok c) R) :
    ∃ a st', p.Returns st a st' ∧ R a st' c := by
  cases h with
  | ok hp hx hR =>
    obtain rfl := Except.ok.inj hx
    exact ⟨_, _, hp, hR⟩
  | error _ hx => cases hx

/-- The computation without state gives what is seen of the result. -/
theorem map_result {f : α → γ} (h : p.Realizes st x R) (hR : ∀ a st' c, R a st' c → f a = c) :
    (p.exec st).1.map f = x := by
  cases h with
  | ok hp hx hpost =>
    unfold Returns at hp
    rw [hp, hx]
    exact congrArg Except.ok (hR _ _ _ hpost)
  | error hp hx =>
    rw [hp, hx]
    rfl

end Realizes

/-- A value at hand stands beside a value. -/
theorem realizes_pure {a : α} {c : γ} {R : α → PassState → γ → Prop} (h : R a st c) :
    (pure a : Pass α).Realizes st (.ok c) R :=
  .ok (returns_pure.mpr ⟨rfl, rfl⟩) rfl h

/-- A construction stands beside its outcome, as it is seen. -/
theorem realizes_build {b : Build α} {f : α → γ} {x : Except RetargetError γ}
    {R : α → PassState → γ → Prop} (hx : b.outcome f st.supply = x)
    (hR : ∀ a n, b st.supply = .ok (a, n) → R a { st with supply := n } (f a)) :
    (build b).Realizes st x R := by
  subst hx
  unfold Build.outcome
  cases h : b st.supply with
  | ok r => exact .ok (returns_build.mpr ⟨r.2, h, rfl⟩) rfl (hR r.1 r.2 h)
  | error err =>
    have hexec : (build b).exec st = (.error (.build err), st) := by
      have hget : (get : Pass PassState).exec st = (.ok st, st) := rfl
      rw [build, exec_bind, hget]
      simp only [h]
      rfl
    exact .error hexec rfl

/-- Resolving a member in a pass is resolving it, and telling of it. -/
theorem realizes_member (m : Member) :
    (member s cat m).Realizes st (s.resolveMember cat m) fun m' st' c =>
      m' = c ∧ st' = { st with events := st.events ++ memberEvents s m } := by
  cases h : s.resolveMember cat m with
  | ok m' => exact .ok (returns_member.mpr ⟨h, rfl⟩) rfl ⟨rfl, rfl⟩
  | error err =>
    -- Neither asking the override nor telling of its answer changes what it answers.
    have hexec : ∃ st', (member s cat m).exec st = (.error err, st') := by
      unfold member
      rw [h]
      cases s.memberOverride.isSome <;> cases s.override? m <;> exact ⟨_, rfl⟩
    obtain ⟨st', hexec⟩ := hexec
    exact .error hexec rfl

end Pass

/-! ## Where nodes are kept -/

namespace Build

open Retarget.Expr (tree)

variable {a : Arena} {n k : Nat}

/-- A well-typed call can be built anew from its parts, none of which is quoted then. -/
theorem call_of_typed {id : Nat} {receiver : Option Expr} {method : MethodRef} {args : List Expr}
    {ty : Ty} (h : (Expr.call id receiver method args ty).TypingRule) (n : Nat) :
    call receiver method args n = .ok (.call n receiver method args ty, n + 1) := by
  obtain ⟨hclosed, hsome, hassign, haccepts, rfl⟩ := h
  exact call_eq_ok.mpr ⟨MethodRef.isOpen_eq_false hclosed,
    receiverFault?_eq_none.mpr ⟨hsome, hassign⟩, haccepts.length_eq.symm, args, n,
    argumentsFrom_of_accepts haccepts, rfl, rfl⟩

/-- A well-typed call is built anew as it is. -/
theorem made_call_of_typed {id : Nat} {receiver : Option Expr} {method : MethodRef}
    {args : List Expr} {ty : Ty} (h : (Expr.call id receiver method args ty).TypingRule) :
    (call receiver method args).made = .ok (Expr.call id receiver method args ty).tree :=
  made_eq_ok.mpr ⟨_, _, call_of_typed h 0, rfl⟩

/-- The type of a well-typed unary node is computed as it is. -/
theorem unaryType_of_unaryRule {op : UnaryOp} {operand : Expr} {ty : Ty}
    {method : Option MethodRef} (h : Expr.unaryRule op operand ty method) :
    unaryType op operand ty method = .ok ty := by
  cases op with
  | quote =>
    obtain ⟨hlambda, rfl⟩ := h
    rw [unaryType, if_pos hlambda]
  | convert | typeAs => rfl
  | not | negate => cases method <;> exact congrArg Except.ok h.symm

/-- A well-typed unary node can be built anew from its operand. -/
theorem unary_of_typed {id : Nat} {op : UnaryOp} {operand : Expr} {ty : Ty}
    {method : Option MethodRef} (h : (Expr.unary id op operand ty method).TypingRule) (n : Nat) :
    unary op operand ty method n = .ok (.unary n op operand ty method, n + 1) :=
  unary_eq_ok.mpr ⟨ty, unaryType_of_unaryRule h, rfl, rfl⟩

/-- A well-typed unary node is built anew as it is. -/
theorem made_unary_of_typed {id : Nat} {op : UnaryOp} {operand : Expr} {ty : Ty}
    {method : Option MethodRef} (h : (Expr.unary id op operand ty method).TypingRule) :
    (unary op operand ty method).made = .ok (Expr.unary id op operand ty method).tree :=
  made_eq_ok.mpr ⟨_, _, unary_of_typed h 0, rfl⟩

/-- A well-typed lambda is built anew as it is. -/
theorem made_typedLambda_of_typed {id : Nat} {delegate : Ty} {name : Option String}
    {tailCall : Bool} {params : List Parameter} {body : Expr}
    (h : (Expr.lambda id delegate name tailCall params body).TypingRule) :
    (typedLambda delegate body name tailCall (params.map .parameter)).made =
      .ok (Expr.lambda id delegate name tailCall params body).tree := by
  obtain ⟨ret, hdelegate, hassign⟩ := h
  exact made_eq_ok.mpr ⟨_, _, typedLambda_eq_ok.mpr ⟨params, ret, rfl, hdelegate, hassign, rfl,
    rfl⟩, rfl⟩

/-- Retyping gives back what it is given, or something new. -/
theorem coerce_eq_or_new {need : Ty} {e e' : Expr} (h : coerce need e n = .ok (e', k)) :
    e' = e ∨ n ≤ e'.id := by
  -- By induction over the argument, through unary nodes down to the lambda.
  induction e using Expr.childInduction generalizing e' k with
  | node e ih =>
    cases e with
    | lambda id delegate name tailCall params body =>
      rcases coerce_lambda_eq_ok.mp h with ⟨-, rfl, -⟩ | ⟨-, ret, -, -, rfl, -⟩
      · exact .inl rfl
      · exact .inr (Nat.le_refl _)
    | unary id op operand ty method =>
      obtain ⟨operand', m, hcoerce, hupdate⟩ := coerce_unary_eq_ok.mp h
      rcases updateUnary_eq_ok.mp hupdate with ⟨-, rfl, -⟩ | ⟨-, hunary⟩
      · exact .inl rfl
      · obtain ⟨t, -, rfl, -⟩ := unary_eq_ok.mp hunary
        exact .inr (coerce_le hcoerce)
    | _ => exact .inl (pure_eq_ok.mp h).1

/-- The trees of parameters are the parameters without identities. -/
private theorem map_tree_parameters (params : List Parameter) :
    (params.map Expr.parameter).map tree = (params.map (·.anonymous)).map Expr.parameter := by
  rw [List.map_map, List.map_map]
  rfl

/-- Retyping a node of an arena is retyping its tree. -/
theorem outcome_coerce {need : Ty} {e : Expr} (he : e ∈ a.nodes) (hn : a.supply ≤ n) :
    (coerce need e).outcome tree n = coerceTree need e.tree := by
  -- By induction over the argument, whose parts are nodes of the arena as well.
  induction e using Expr.childInduction with
  | node e ih =>
    cases e with
    | lambda id delegate name tailCall params body =>
      have halike : Alike tree
          (typedLambda (wantedDelegate need) body name tailCall (params.map .parameter))
          (typedLambda (wantedDelegate need) body.tree name tailCall
            ((params.map (·.anonymous)).map .parameter)) :=
        typedLambda_alike _ _ _ (Expr.tree_tree body).symm (by
          rw [map_tree_parameters, map_tree_parameters]
          simp)
      rw [tree, coerceTree, coerce]
      split
      · -- A lambda of the wanted type is kept, and would be built anew as it is.
        rename_i hwanted
        have hmade := made_typedLambda_of_typed (a.typed _ he)
        rw [← hwanted] at hmade ⊢
        exact hmade.symm.trans halike.made_eq_made
      · exact halike.outcome_eq_made n
    | unary id op operand ty method =>
      have hoperand := a.closed _ he operand (by simp [Expr.children])
      rw [tree, coerceTree, coerce]
      refine outcome_bind_eq (ih operand (by simp [Expr.children]) hoperand)
        fun operand' m hcoerce => ?_
      have halike := unary_alike op ty method (Expr.tree_tree operand').symm
      by_cases hsame : operand.id = operand'.id
      · -- The node comes back only around the operand itself.
        have hbound := a.bounded operand hoperand
        obtain rfl : operand' = operand := by
          rcases coerce_eq_or_new hcoerce with heq | hnew
          · exact heq
          · omega
        rw [show updateUnary (.unary id op operand' ty method) operand' =
          pure (.unary id op operand' ty method) from if_pos rfl, ← halike.made_eq_made]
        exact (made_unary_of_typed (a.typed _ he)).symm
      · rw [show updateUnary (.unary id op operand ty method) operand' =
          unary op operand' ty method from if_neg hsame]
        exact halike.outcome_eq_made m
    | _ => exact congrArg Except.ok (Expr.tree_tree _).symm

/-- Retyping nodes of an arena in a row is retyping their trees in a row. -/
theorem outcome_coerceEach {args : List Expr} (needs : List Ty) (hargs : ∀ x ∈ args, x ∈ a.nodes)
    (hn : a.supply ≤ n) :
    (coerceEach args needs).outcome (List.map tree) n = coerceTrees (args.map tree) needs := by
  -- From the left, as identities are taken on the way.
  induction args generalizing needs n with
  | nil => cases needs <;> rfl
  | cons arg args ih =>
    cases needs with
    | nil => rfl
    | cons need needs =>
      rw [List.map_cons, coerceEach, coerceTrees]
      refine outcome_bind_eq (outcome_coerce (hargs arg List.mem_cons_self) hn)
        fun first m hfirst => ?_
      have hm := coerce_le hfirst
      refine outcome_bind_eq (ih needs (fun x hx => hargs x (List.mem_cons_of_mem _ hx)) (by omega))
        fun rest m' _ => rfl

/-- Retyping arguments that are nodes of an arena is retyping their trees. -/
theorem outcome_coerceAll {args : List Expr} (method : String) (needs : List Ty)
    (hargs : ∀ x ∈ args, x ∈ a.nodes) (hn : a.supply ≤ n) :
    (coerceAll method args needs).outcome (List.map tree) n =
      coerceArguments method (args.map tree) needs := by
  unfold coerceAll coerceArguments
  rw [List.length_map]
  -- Both check the numbers first, and trees are as many as their nodes.
  by_cases hlen : args.length = needs.length
  · rw [if_pos hlen, outcome_bind, check, if_pos (decide_eq_true hlen)]
    exact outcome_coerceEach needs hargs hn
  · rw [if_neg hlen, outcome_bind, check, if_neg (by simpa using hlen)]
    rfl

/-- A call is kept only where it would be built anew as it is. -/
theorem outcome_updateCall {id : Nat} {receiver receiver' : Option Expr} {method : MethodRef}
    {args args' : List Expr} {ty : Ty}
    (htyped : (Expr.call id receiver method args ty).TypingRule)
    (hsame : sameOption receiver receiver' = true → receiver' = receiver)
    (hsames : sameList args args' = true → args' = args) :
    (updateCall (.call id receiver method args ty) receiver' args').outcome tree n =
      (call (receiver'.map tree) method (args'.map tree)).made := by
  have halike := call_alike method (Expr.option_map_tree_map_tree receiver').symm
    (Expr.map_tree_map_tree args').symm
  by_cases hkept : (sameOption receiver receiver' && sameList args args') = true
  · -- The call is kept around the very parts that it had.
    rw [show updateCall (.call id receiver method args ty) receiver' args' =
      pure (.call id receiver method args ty) from if_pos hkept, ← halike.made_eq_made]
    rw [Bool.and_eq_true] at hkept
    obtain rfl := hsame hkept.1
    obtain rfl := hsames hkept.2
    exact (made_call_of_typed htyped).symm
  · rw [show updateCall (.call id receiver method args ty) receiver' args' =
      call receiver' method args' from if_neg hkept]
    exact halike.outcome_eq_made n

end Build

end Retarget
