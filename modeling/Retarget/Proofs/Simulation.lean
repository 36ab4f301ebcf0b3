import Retarget.Proofs.Visits
import Retarget.Proofs.WellTyped

/-!
# A pass preserves structure

The result of a pass has the shape of its input: node for node the same kind with the same parts
in the same places. `Expr.Retargets` says what may stand in the place of what; the only nodes that
a pass adds are quotations around lambdas that are arguments of generic calls.

The relation leaves open what replaces a leaf. A pass is first shown to relate its input to its
result with each leaf replaced by what the memo remembers for it in the end, which is what sharing
needs; that every such replacement has the resolved type or the transformed value then gives the
structural statement.

## Key results

- `Expr.Retargets`: the relation between an expression and its retargeted form
- `Build.coerce_retargets`: retyping an argument keeps the relation
- `Expr.retarget_follows`: one walk visits the leaves of an expression and keeps its structure
- `Expr.Constructed.retargets_of_run`: the statement for whole passes
-/

namespace Retarget

namespace Expr

mutual

/-- An expression and its retargeted form, when `leaf` says what replaces each leaf. -/
inductive Retargets (s : Substitution) (cat : Catalog) (leaf : Expr → Expr → Prop) :
    Expr → Expr → Prop where
  | leaf {e e' : Expr} (he : e.isLeaf = true) (hkind : e'.kind = e.kind) (h : leaf e e') :
    Retargets s cat leaf e e'
  /-- A method that is not generic stays as it is. -/
  | call {id id' : Nat} {receiver receiver' : Option Expr} {method : MethodRef}
      {args args' : List Expr} {ty ty' : Ty} (hmethod : method.isGeneric = false)
      (hreceiver : Option.Rel (Retargets s cat leaf) receiver receiver')
      (hargs : List.Forall₂ (Retargets s cat leaf) args args') :
    Retargets s cat leaf (.call id receiver method args ty) (.call id' receiver' method args' ty')
  /-- A generic method has its type arguments replaced. -/
  | genericCall {id id' : Nat} {receiver receiver' : Option Expr} {method : MethodRef}
      {args args' : List Expr} {ty ty' : Ty} (hmethod : method.isGeneric = true)
      (hreceiver : Option.Rel (Retargets s cat leaf) receiver receiver')
      (hargs : List.Forall₂ (RetargetsArgument s cat leaf) args args') :
    Retargets s cat leaf (.call id receiver method args ty)
      (.call id' receiver' (s.rebind method) args' ty')
  | lambda {id id' : Nat} {delegate delegate' : Ty} {name : Option String} {tailCall : Bool}
      {params params' : List Parameter} {body body' : Expr}
      (hparams : List.Forall₂ (fun p p' => leaf (.parameter p) (.parameter p')) params params')
      (hbody : Retargets s cat leaf body body') :
    Retargets s cat leaf (.lambda id delegate name tailCall params body)
      (.lambda id' delegate' name tailCall params' body')
  | member {id id' : Nat} {object object' : Option Expr} {m m' : Member}
      (hobject : Option.Rel (Retargets s cat leaf) object object')
      (hmember : s.resolveMember cat m = .ok m') :
    Retargets s cat leaf (.member id object m) (.member id' object' m')
  /-- The target of a conversion is replaced; all other operators derive their type. -/
  | unary {id id' : Nat} {op : UnaryOp} {operand operand' : Expr} {ty ty' : Ty}
      {method : Option MethodRef} (hoperand : Retargets s cat leaf operand operand')
      (hty : op = .convert ∨ op = .typeAs → ty' = s.resolve ty) :
    Retargets s cat leaf (.unary id op operand ty method)
      (.unary id' op operand' ty' (method.map s.rebind))
  | binary {id id' : Nat} {op : BinaryOp} {left left' right right' : Expr} {lifted : Bool}
      {method : Option MethodRef} {conversion conversion' : Option Expr} {ty ty' : Ty}
      (hleft : Retargets s cat leaf left left') (hright : Retargets s cat leaf right right')
      (hconversion : Option.Rel (Retargets s cat leaf) conversion conversion') :
    Retargets s cat leaf (.binary id op left right lifted method conversion ty)
      (.binary id' op left' right' lifted (method.map s.rebind) conversion' ty')

/-- An argument of a generic call and what stands in its place: its retargeted form, quoted or not
    if the argument is a lambda. -/
inductive RetargetsArgument (s : Substitution) (cat : Catalog) (leaf : Expr → Expr → Prop) :
    Expr → Expr → Prop where
  | plain {e e' : Expr} (h : Retargets s cat leaf e e') : RetargetsArgument s cat leaf e e'
  | quoted {e l : Expr} (id : Nat) (he : e.isLambda = true) (h : Retargets s cat leaf e l) :
    RetargetsArgument s cat leaf e (.unary id .quote l (Ty.expression l.ty) none)

end

variable {s : Substitution} {cat : Catalog} {leaf : Expr → Expr → Prop}

/-- A retargeted form has the kind of the expression. -/
theorem Retargets.kind_eq {e e' : Expr} (h : Retargets s cat leaf e e') : e'.kind = e.kind := by
  cases h with
  | leaf _ hkind _ => exact hkind
  | _ => rfl

/-- The kind of a node shows whether it is a lambda. -/
theorem isLambda_iff_kind {e : Expr} : e.isLambda = true ↔ e.kind = .lambda := by
  cases e <;> simp [isLambda, kind]

/-- The lambdas by their parts. -/
theorem isLambda_iff {e : Expr} : e.isLambda = true ↔
    ∃ id delegate name tailCall params body,
      e = .lambda id delegate name tailCall params body := by
  cases e <;> simp [isLambda]

/-- Exactly the retargeted forms of lambdas are lambdas. -/
theorem Retargets.isLambda_iff {e e' : Expr} (h : Retargets s cat leaf e e') :
    e'.isLambda = true ↔ e.isLambda = true := by
  rw [isLambda_iff_kind, isLambda_iff_kind, h.kind_eq]

end Expr

namespace Build

open Retarget.Expr (Retargets RetargetsArgument)

variable {s : Substitution} {cat : Catalog} {leaf : Expr → Expr → Prop} {n n' : Nat}

/-- Retyping an argument gives it another delegate type and nothing else. -/
theorem coerce_retargets {need : Ty} {e e' e'' : Expr} (h : Retargets s cat leaf e e')
    (hcoerce : coerce need e' n = .ok (e'', n')) : Retargets s cat leaf e e'' := by
  -- Induction from the parts of a node to the node. Retyping goes down through unary nodes until it
  -- meets a lambda or anything else.
  induction e using Expr.childInduction generalizing e' e'' n' with
  | node e ih =>
    cases h with
    | leaf he hkind hleaf =>
      -- The kind of a leaf is neither that of a lambda nor that of a unary node.
      have hother : e'.kind ≠ .lambda ∧ e'.kind ≠ .unary := by
        rw [hkind]
        obtain ⟨p, rfl⟩ | ⟨id, v, rfl⟩ := Expr.isLeaf_iff.mp he <;> simp [Expr.kind]
      rw [coerce_of_kind hother.1 hother.2] at hcoerce
      obtain ⟨rfl, -⟩ := Prod.mk.inj (Except.ok.inj hcoerce)
      exact .leaf he hkind hleaf
    | call hmethod hreceiver hargs =>
      rw [(pure_eq_ok.mp hcoerce).1]
      exact .call hmethod hreceiver hargs
    | genericCall hmethod hreceiver hargs =>
      rw [(pure_eq_ok.mp hcoerce).1]
      exact .genericCall hmethod hreceiver hargs
    | lambda hparams hbody =>
      rcases coerce_lambda_eq_ok.mp hcoerce with ⟨-, rfl, -⟩ | ⟨-, ret, -, -, rfl, -⟩
      · exact .lambda hparams hbody
      · exact .lambda hparams hbody
    | member hobject hmember =>
      rw [(pure_eq_ok.mp hcoerce).1]
      exact .member hobject hmember
    | unary hoperand hty =>
      obtain ⟨operand'', k, hinner, hupdate⟩ := coerce_unary_eq_ok.mp hcoerce
      rcases updateUnary_eq_ok.mp hupdate with ⟨-, rfl, -⟩ | ⟨-, hunary⟩
      · exact .unary hoperand hty
      -- The node around a retyped operand has the type that a conversion had before.
      · obtain ⟨t, ht, rfl, -⟩ := unary_eq_ok.mp hunary
        refine .unary (ih _ (by simp [Expr.children]) hoperand hinner) ?_
        intro h
        rcases h with rfl | rfl
        · exact (Except.ok.inj ht).symm.trans (hty (.inl rfl))
        · exact (Except.ok.inj ht).symm.trans (hty (.inr rfl))
    | binary hleft hright hconversion =>
      rw [(pure_eq_ok.mp hcoerce).1]
      exact .binary hleft hright hconversion

/-- Retyping several arguments keeps the relation for each. -/
theorem coerceEach_retargets {es es' es'' : List Expr} {needs : List Ty}
    (hlen : es'.length = needs.length) (h : List.Forall₂ (Retargets s cat leaf) es es')
    (hcoerce : coerceEach es' needs n = .ok (es'', n')) :
    List.Forall₂ (Retargets s cat leaf) es es'' := by
  -- Induction on the related arguments, along with the types that are wanted of them.
  induction h generalizing needs es'' n with
  | nil =>
    obtain ⟨rfl, -⟩ := pure_eq_ok.mp hcoerce
    exact .nil
  | cons h _ ih =>
    cases needs with
    | nil => simp at hlen
    | cons need needs =>
      obtain ⟨first, rest, k, hfirst, hrest, rfl⟩ := coerceEach_cons_eq_ok.mp hcoerce
      exact .cons (coerce_retargets h hfirst) (ih (by simpa using hlen) hrest)

/-- The arguments that a call takes are those it is given, or quotations of them. -/
theorem argumentsFrom_argument {method : MethodRef} {index : Nat} {es es' es'' : List Expr}
    {types : List Ty} (hlen : types.length = es'.length)
    (h : List.Forall₂ (Retargets s cat leaf) es es')
    (hargs : argumentsFrom method index es' types n = .ok (es'', n')) :
    List.Forall₂ (RetargetsArgument s cat leaf) es es'' := by
  induction h generalizing types es'' n index with
  | nil =>
    obtain ⟨rfl, -⟩ := argumentsFrom_nil_eq_ok.mp hargs
    exact .nil
  | cons h _ ih =>
    cases types with
    | nil => simp at hlen
    | cons t ts =>
      obtain ⟨first, rest, k, hfirst, hrest, rfl⟩ := argumentsFrom_cons_eq_ok.mp hargs
      refine .cons ?_ (ih (by simpa using hlen) hrest)
      -- An argument is taken as it is, or quoted because it is a lambda.
      rcases argument_eq_ok.mp hfirst with ⟨-, rfl, -⟩ | ⟨-, hlambda, -, rfl, -⟩
      · exact .plain h
      · exact .quoted n (h.isLambda_iff.mp hlambda) h

/-- Where the arguments of a call were well-typed and the types wanted are as before, no argument
    is quoted: a lambda converts to a delegate type or `object` only, and neither wants data. -/
theorem argumentsFrom_eq_self {method : MethodRef} {index : Nat} {es es' es'' : List Expr}
    {types : List Ty} (htyped : ∀ e ∈ es, e.TypingRule) (haccepts : Expr.Accepts es types)
    (h : List.Forall₂ (Retargets s cat leaf) es es')
    (hargs : argumentsFrom method index es' types n = .ok (es'', n')) : es'' = es' := by
  induction h generalizing types es'' n index with
  | nil => exact (argumentsFrom_nil_eq_ok.mp hargs).1
  | cons h _ ih =>
    rename_i e e' es es' _
    cases haccepts with
    | cons hassign haccepts =>
      obtain ⟨first, rest, k, hfirst, hrest, rfl⟩ := argumentsFrom_cons_eq_ok.mp hargs
      have hrest' := ih (fun x hx => htyped x (List.mem_cons_of_mem _ hx)) haccepts hrest
      -- Taken as it is, or quoted, which is what has to be ruled out.
      rcases argument_eq_ok.mp hfirst with ⟨-, rfl, -⟩ | ⟨-, hlambda, rfl, -, -⟩
      · rw [hrest']
      · -- The original argument was a lambda, so its type is a delegate type.
        obtain ⟨id, delegate, name, tailCall, params, body, rfl⟩ :=
          Expr.isLambda_iff.mp (h.isLambda_iff.mp hlambda)
        obtain ⟨ret, rfl, -⟩ := htyped _ List.mem_cons_self
        rcases Ty.func_assignableTo hassign with hwant | hwant
        · exact absurd hwant (by simp [Ty.expression, Ty.func])
        · exact absurd hwant (by simp [Ty.expression, Ty.object])

end Build

namespace Expr

/-! ## The walk -/

variable {s : Substitution} {cat : Catalog} {a : Arena} {st st' : PassState}

/-- A walk from `st` to `st'` that visits the leaves of `e` and returns `e'`: with leaves replaced
    by what is remembered at the end of it, or at any later time, the two are related; and if the
    node returned is not new, it is `e` itself. -/
structure Follows (s : Substitution) (cat : Catalog) (a : Arena) (e e' : Expr)
    (st st' : PassState) : Prop where
  visits : Visits s a e.leaves st st'
  retargets : ∀ leaf : Expr → Expr → Prop, st'.memo.Gives a leaf →
    Retargets s cat leaf e e'
  kept : e'.id < a.supply → e' = e

/-- Every successful walk over `e` does. -/
def WalkFollows (s : Substitution) (cat : Catalog) (a : Arena) (e : Expr) : Prop :=
  ∀ {st st' : PassState} {e' : Expr}, e ∈ a.nodes → st.Faithful s a →
    (retarget s cat e).Returns st e' st' → Follows s cat a e e' st st'

/-- A walk over an optional part. -/
structure FollowsOption (s : Substitution) (cat : Catalog) (a : Arena) (o o' : Option Expr)
    (st st' : PassState) : Prop where
  visits : Visits s a (leavesOption o) st st'
  retargets : ∀ leaf : Expr → Expr → Prop, st'.memo.Gives a leaf →
    Option.Rel (Retargets s cat leaf) o o'
  kept : Option.Rel (fun e e' => e'.id < a.supply → e' = e) o o'

/-- A walk over a list of parts. -/
structure FollowsList (s : Substitution) (cat : Catalog) (a : Arena) (es es' : List Expr)
    (st st' : PassState) : Prop where
  visits : Visits s a (leavesList es) st st'
  retargets : ∀ leaf : Expr → Expr → Prop, st'.memo.Gives a leaf →
    List.Forall₂ (Retargets s cat leaf) es es'
  kept : List.Forall₂ (fun e e' => e'.id < a.supply → e' = e) es es'

/-- A walk over an optional part, when one over the part follows it. -/
theorem option_follows {o o' : Option Expr} (ih : ∀ e, o = some e → WalkFollows s cat a e)
    (ho : ∀ e, o = some e → e ∈ a.nodes) (hf : st.Faithful s a)
    (hrun : (retargetOption s cat o).Returns st o' st') : FollowsOption s cat a o o' st st' := by
  cases o with
  | none =>
    obtain ⟨rfl, rfl⟩ := returns_option_none.mp hrun
    exact ⟨.refl hf, fun _ _ => .none, .none⟩
  | some e =>
    obtain ⟨e', he, rfl⟩ := returns_option_some.mp hrun
    obtain ⟨hvisits, hretargets, hkept⟩ := ih e rfl (ho e rfl) hf he
    exact ⟨hvisits, fun leaf hleaf => .some (hretargets leaf hleaf), .some hkept⟩

/-- A walk over a list of parts, when those over the parts follow them. -/
theorem list_follows {es es' : List Expr} (ih : ∀ e ∈ es, WalkFollows s cat a e)
    (hes : ∀ e ∈ es, e ∈ a.nodes) (hf : st.Faithful s a)
    (hrun : (retargetList s cat es).Returns st es' st') : FollowsList s cat a es es' st st' := by
  -- Induction on the list: the walk goes on from the state behind its first part.
  induction es generalizing st es' with
  | nil =>
    obtain ⟨rfl, rfl⟩ := returns_list_nil.mp hrun
    exact ⟨.refl hf, fun _ _ => .nil, .nil⟩
  | cons e es ihs =>
    obtain ⟨first, st₁, rest, hfirst, hrest, rfl⟩ := returns_list_cons.mp hrun
    have h₁ := ih e List.mem_cons_self (hes e List.mem_cons_self) hf hfirst
    have h₂ := ihs (fun x hx => ih x (List.mem_cons_of_mem _ hx))
      (fun x hx => hes x (List.mem_cons_of_mem _ hx)) h₁.visits.faithful hrest
    -- What is remembered after the rest was remembered after the first, as far as it goes.
    refine ⟨h₁.visits.trans h₂.visits, fun leaf hleaf => .cons ?_ ?_, .cons h₁.kept h₂.kept⟩
    · exact h₁.retargets leaf (hleaf.of_prefix h₂.visits.grows)
    · exact h₂.retargets leaf hleaf

/-- Parts that are the same nodes as before are equal to them. -/
theorem eq_of_sameOption {o o' : Option Expr} (ho : ∀ e, o = some e → e ∈ a.nodes)
    (hkept : Option.Rel (fun e e' => e'.id < a.supply → e' = e) o o')
    (hsame : Build.sameOption o o' = true) : o' = o := by
  cases hkept with
  | none => rfl
  | some hkept =>
    rename_i e e'
    -- The node that came back has the identity of a node of the arena, so it is not new.
    have hid : e.id = e'.id := of_decide_eq_true hsame
    rw [hkept (hid ▸ a.bounded e (ho e rfl))]

/-- Parts in a list that came back with the identities of the old ones are the old ones. -/
theorem eq_of_sameList {es es' : List Expr} (hes : ∀ e ∈ es, e ∈ a.nodes)
    (hkept : List.Forall₂ (fun e e' => e'.id < a.supply → e' = e) es es')
    (hsame : Build.sameList es es' = true) : es' = es := by
  induction hkept with
  | nil => rfl
  | cons hkept _ ih =>
    rename_i e e' es es' _
    simp only [Build.sameList, Bool.and_eq_true] at hsame
    have hid : e.id = e'.id := of_decide_eq_true hsame.1
    rw [hkept (hid ▸ a.bounded e (hes e List.mem_cons_self)),
      ih (fun x hx => hes x (List.mem_cons_of_mem _ hx)) hsame.2]

/-- A walk over a leaf: what is returned is what is remembered. -/
theorem leaf_follows {e e' : Expr} (hleaf : e.isLeaf = true) (he : e ∈ a.nodes)
    (hf : st.Faithful s a) (hrun : (retarget s cat e).Returns st e' st') :
    Follows s cat a e e' st st' := by
  obtain ⟨hvisits, hmaps⟩ := Visits.leaf hleaf he hf hrun
  have hmem := hvisits.faithful.mem_of_maps he hmaps
  -- What is remembered for a leaf was made as its replacement.
  have hkind : e'.kind = e.kind := by
    rw [hvisits.faithful.eq_replacement he hmaps, kind_replacement]
  refine ⟨?_, fun leaf h => .leaf hleaf hkind (h e he e' hmaps), fun hlt => ?_⟩
  · rwa [leaves_of_isLeaf hleaf]
  · -- Replacements are new nodes, so nothing has to be kept.
    have hnew : a.supply ≤ e'.id := (hvisits.faithful.targets _ hmem).2.1
    omega

/-- The parameters of a retargeted lambda are what replaces the parameters of the lambda. -/
theorem forall₂_parameters {leaf : Expr → Expr → Prop} {ps ps' : List Parameter}
    (h : List.Forall₂ (Retargets s cat leaf) (ps.map .parameter) (ps'.map .parameter)) :
    List.Forall₂ (fun p p' => leaf (.parameter p) (.parameter p')) ps ps' := by
  rw [List.forall₂_map_left_iff, List.forall₂_map_right_iff] at h
  refine h.imp fun p p' hp => ?_
  cases hp with
  | leaf _ _ h => exact h

/-! Now the walks over the other nodes, when those over the parts are known to follow them. The
stretches of the parts are put together in the order of the walk. Where the node is always new,
nothing has to be shown about being kept. -/

/-- A successful walk over a call. -/
theorem call_follows {id : Nat} {receiver : Option Expr} {method : MethodRef} {args : List Expr}
    {ty : Ty} {e' : Expr} (ih : ∀ c ∈ (call id receiver method args ty).children,
      WalkFollows s cat a c)
    (he : call id receiver method args ty ∈ a.nodes) (hf : st.Faithful s a)
    (hrun : (retarget s cat (call id receiver method args ty)).Returns st e' st') :
    Follows s cat a (call id receiver method args ty) e' st st' := by
  have hargsmem := a.args_mem he
  have hreceivermem := a.receiver_mem he
  obtain ⟨args', st₁, receiver', st₂, hargs, hreceiver, hbuild⟩ := returns_call.mp hrun
  have h₁ := list_follows (fun x hx => ih x (List.mem_append_right _ hx)) hargsmem hf hargs
  have h₂ := option_follows (fun x hx => ih x (by simp [children, hx])) hreceivermem
    h₁.visits.faithful hreceiver
  have hvisits := h₁.visits.trans h₂.visits
  -- What is remembered for the arguments is still remembered after the receiver.
  have hargsr : ∀ leaf : Expr → Expr → Prop, st₂.memo.Gives a leaf →
      List.Forall₂ (Retargets s cat leaf) args args' := fun leaf hleaf =>
    h₁.retargets leaf (hleaf.of_prefix h₂.visits.grows)
  rcases hbuild with ⟨hgeneric, args'', k, n, hcoerce, hcall, rfl⟩ | ⟨hgeneric, n, hupdate, rfl⟩
  · -- A generic call is always new, and its arguments were retyped and perhaps quoted.
    obtain ⟨hlen, hcoerce⟩ := Build.coerceAll_eq_ok.mp hcoerce
    obtain ⟨-, -, hlen', args₃, k', hargs₃, rfl, rfl⟩ := Build.call_eq_ok.mp hcall
    have hk := Build.coerceEach_le hcoerce
    have hk' := Build.argumentsFrom_le hargs₃
    have hsupply := hvisits.faithful.supply
    refine ⟨hvisits.quiet (by omega) isReplacement_methodEvents, fun leaf hleaf => ?_,
      fun hlt => ?_⟩
    · exact .genericCall hgeneric (h₂.retargets leaf hleaf)
        (Build.argumentsFrom_argument hlen'
          (Build.coerceEach_retargets hlen (hargsr leaf hleaf) hcoerce) hargs₃)
    · have hlt' : k' < a.supply := hlt
      omega
  · rcases Build.updateCall_eq_ok.mp hupdate with ⟨hsame, rfl, rfl⟩ | ⟨-, hcall⟩
    · -- The call comes back only if each part is the node it was, hence equal to it.
      simp only [Bool.and_eq_true] at hsame
      obtain rfl := eq_of_sameOption hreceivermem h₂.kept hsame.1
      obtain rfl := eq_of_sameList hargsmem h₁.kept hsame.2
      exact ⟨hvisits, fun leaf hleaf => .call hgeneric (h₂.retargets leaf hleaf)
        (hargsr leaf hleaf), fun _ => rfl⟩
    · -- No lambda is quoted anew: the call that was accepted had it quoted, or wants it bare.
      obtain ⟨-, -, -, args₃, k, hargs₃, rfl, rfl⟩ := Build.call_eq_ok.mp hcall
      obtain ⟨-, -, -, haccepts, -⟩ := a.typed _ he
      have hk := Build.argumentsFrom_le hargs₃
      have hsupply := hvisits.faithful.supply
      obtain rfl := Build.argumentsFrom_eq_self (fun x hx => a.typed x (hargsmem x hx)) haccepts
        (hargsr st₂.memo.Maps fun _ _ _ h => h) hargs₃
      refine ⟨hvisits.quiet_supply (by omega), fun leaf hleaf => ?_, fun hlt => ?_⟩
      · exact .call hgeneric (h₂.retargets leaf hleaf) (hargsr leaf hleaf)
      · have hlt' : k < a.supply := hlt
        omega

/-- A successful walk over a lambda. -/
theorem lambda_follows {id : Nat} {delegate : Ty} {name : Option String} {tailCall : Bool}
    {params : List Parameter} {body e' : Expr}
    (ih : ∀ c ∈ (lambda id delegate name tailCall params body).children, WalkFollows s cat a c)
    (he : lambda id delegate name tailCall params body ∈ a.nodes) (hf : st.Faithful s a)
    (hrun : (retarget s cat (lambda id delegate name tailCall params body)).Returns st e' st') :
    Follows s cat a (lambda id delegate name tailCall params body) e' st st' := by
  have hparts := a.closed _ he
  obtain ⟨params', st₁, body', st₂, n, hparams, hbody, hbuild, rfl⟩ := returns_lambda.mp hrun
  obtain ⟨ps, rfl, rfl, rfl⟩ := Build.lambda_eq_ok.mp hbuild
  have hbodymem : body ∈ (lambda id delegate name tailCall params body).children := by
    simp [children]
  have h₁ := list_follows (fun x hx => ih x (List.mem_append_left _ hx))
    (fun x hx => hparts x (List.mem_append_left _ hx)) hf hparams
  have h₂ := ih body hbodymem (hparts body hbodymem) h₁.visits.faithful hbody
  -- The leaves are those of the parameters and then those of the body.
  have hvisits := h₁.visits.trans h₂.visits
  have hsupply := hvisits.faithful.supply
  rw [leavesList_parameters] at hvisits
  refine ⟨hvisits.quiet_supply (Nat.le_succ _), fun leaf hleaf => ?_, fun hlt => ?_⟩
  · have hps := h₁.retargets leaf (hleaf.of_prefix h₂.visits.grows)
    exact .lambda (forall₂_parameters hps) (h₂.retargets leaf hleaf)
  · have hlt' : st₂.supply < a.supply := hlt
    omega

/-- A successful walk over an access to a member. -/
theorem member_follows {id : Nat} {object : Option Expr} {m : Member} {e' : Expr}
    (ih : ∀ c ∈ (member id object m).children, WalkFollows s cat a c)
    (he : member id object m ∈ a.nodes) (hf : st.Faithful s a)
    (hrun : (retarget s cat (member id object m)).Returns st e' st') :
    Follows s cat a (member id object m) e' st st' := by
  have hparts := a.closed _ he
  obtain ⟨object', st₁, m', n, hobject, hmember, hbuild, rfl⟩ := returns_memberAccess.mp hrun
  obtain ⟨-, rfl, rfl⟩ := Build.member_eq_ok.mp hbuild
  have h₁ := option_follows (fun x hx => ih x (by simp [children, hx]))
    (fun x hx => hparts x (by simp [children, hx])) hf hobject
  have hsupply := h₁.visits.faithful.supply
  refine ⟨h₁.visits.quiet (Nat.le_succ _) isReplacement_memberEvents, fun leaf hleaf => ?_,
    fun hlt => ?_⟩
  · exact .member (h₁.retargets leaf hleaf) hmember
  · have hlt' : st₁.supply < a.supply := hlt
    omega

/-- A successful walk over a unary node. -/
theorem unary_follows {id : Nat} {op : UnaryOp} {operand : Expr} {ty : Ty}
    {method : Option MethodRef} {e' : Expr}
    (ih : ∀ c ∈ (unary id op operand ty method).children, WalkFollows s cat a c)
    (he : unary id op operand ty method ∈ a.nodes) (hf : st.Faithful s a)
    (hrun : (retarget s cat (unary id op operand ty method)).Returns st e' st') :
    Follows s cat a (unary id op operand ty method) e' st st' := by
  have hparts := a.closed _ he
  obtain ⟨operand', st₁, n, hoperand, hbuild, rfl⟩ := returns_unary.mp hrun
  obtain ⟨t, ht, rfl, rfl⟩ := Build.unary_eq_ok.mp hbuild
  have h₁ := ih operand (by simp [children]) (hparts operand (by simp [children])) hf hoperand
  have hsupply := h₁.visits.faithful.supply
  refine ⟨h₁.visits.quiet (Nat.le_succ _) isReplacement_overloadEvents, fun leaf hleaf => ?_,
    fun hlt => ?_⟩
  · -- Only conversions are given their type.
    refine .unary (h₁.retargets leaf hleaf) ?_
    intro h
    rcases h with rfl | rfl
    · exact (Except.ok.inj ht).symm
    · exact (Except.ok.inj ht).symm
  · have hlt' : st₁.supply < a.supply := hlt
    omega

/-- A successful walk over a binary node. -/
theorem binary_follows {id : Nat} {op : BinaryOp} {left right : Expr} {lifted : Bool}
    {method : Option MethodRef} {conversion : Option Expr} {ty : Ty} {e' : Expr}
    (ih : ∀ c ∈ (binary id op left right lifted method conversion ty).children,
      WalkFollows s cat a c)
    (he : binary id op left right lifted method conversion ty ∈ a.nodes) (hf : st.Faithful s a)
    (hrun : (retarget s cat (binary id op left right lifted method conversion ty)).Returns st e'
      st') :
    Follows s cat a (binary id op left right lifted method conversion ty) e' st st' := by
  have hparts := a.closed _ he
  obtain ⟨left', st₁, right', st₂, conversion', st₃, n, hleft, hright, hconversion, hbuild, rfl⟩ :=
    returns_binary.mp hrun
  obtain ⟨-, t, -, rfl, rfl⟩ := Build.binary_eq_ok.mp hbuild
  have h₁ := ih left (by simp [children]) (hparts left (by simp [children])) hf hleft
  have h₂ := ih right (by simp [children]) (hparts right (by simp [children]))
    h₁.visits.faithful hright
  have h₃ := option_follows (fun x hx => ih x (by simp [children, hx]))
    (fun x hx => hparts x (by simp [children, hx])) h₂.visits.faithful hconversion
  have hvisits := (h₁.visits.trans h₂.visits).trans h₃.visits
  have hsupply := hvisits.faithful.supply
  refine ⟨hvisits.quiet (Nat.le_succ _) isReplacement_overloadEvents, fun leaf hleaf => ?_,
    fun hlt => ?_⟩
  · -- What is remembered at the end was remembered for the earlier operands as well.
    have hleaf₂ : st₂.memo.Gives a leaf := hleaf.of_prefix h₃.visits.grows
    have hleaf₁ : st₁.memo.Gives a leaf := hleaf₂.of_prefix h₂.visits.grows
    exact .binary (h₁.retargets leaf hleaf₁) (h₂.retargets leaf hleaf₂) (h₃.retargets leaf hleaf)
  · have hlt' : st₃.supply < a.supply := hlt
    omega

/-- Every successful walk visits the leaves of its expression and keeps the structure. -/
theorem retarget_follows (s : Substitution) (cat : Catalog) (a : Arena) (e : Expr) :
    WalkFollows s cat a e := by
  -- Induction from the parts of a node to the node, one lemma for each kind.
  induction e using childInduction with
  | node e ih =>
    intro st st' e' he hf hrun
    cases e with
    | call id receiver method args ty => exact call_follows ih he hf hrun
    | lambda id delegate name tailCall params body => exact lambda_follows ih he hf hrun
    | parameter p => exact leaf_follows rfl he hf hrun
    | member id object m => exact member_follows ih he hf hrun
    | constant id v => exact leaf_follows rfl he hf hrun
    | unary id op operand ty method => exact unary_follows ih he hf hrun
    | binary id op left right lifted method conversion ty => exact binary_follows ih he hf hrun
    -- No walk over the other kinds succeeds.
    | conditional id test ifTrue ifFalse ty => exact absurd rfl (supported_of_returns hrun).1
    | invoke id target args ty => exact absurd rfl (supported_of_returns hrun).2.1
    | default id ty => exact absurd rfl (supported_of_returns hrun).2.2

/-- Every successful walk over an optional part. -/
theorem retargetOption_follows {o o' : Option Expr} (ho : ∀ e, o = some e → e ∈ a.nodes)
    (hf : st.Faithful s a) (hrun : (retargetOption s cat o).Returns st o' st') :
    FollowsOption s cat a o o' st st' :=
  option_follows (fun e _ => retarget_follows s cat a e) ho hf hrun

/-- Every successful walk over a list of parts. -/
theorem retargetList_follows {es es' : List Expr} (hes : ∀ e ∈ es, e ∈ a.nodes)
    (hf : st.Faithful s a) (hrun : (retargetList s cat es).Returns st es' st') :
    FollowsList s cat a es es' st st' :=
  list_follows (fun e _ => retarget_follows s cat a e) hes hf hrun

/-- What replaces a leaf: a parameter of the resolved type with the name and the passing it had,
    or a constant of the transformed value. -/
inductive Replaces (s : Substitution) : Expr → Expr → Prop where
  | parameter (p : Parameter) (id : Nat) :
    Replaces s (.parameter p) (.parameter ⟨id, s.resolve p.ty, p.name, p.byRef⟩)
  | constant (id id' : Nat) (v : Value) :
    Replaces s (.constant id v) (.constant id' (s.transform v))

/-- A new replacement of a leaf replaces it as it has to be. -/
theorem replaces_replacement (s : Substitution) (id : Nat) {e : Expr} (h : e.isLeaf = true) :
    Replaces s e (e.replacement s id) := by
  obtain ⟨p, rfl⟩ | ⟨i, v, rfl⟩ := isLeaf_iff.mp h
  · exact .parameter p id
  · exact .constant i id v

/-- Whatever a faithful memo remembers for a node replaces it as it has to be. -/
theorem gives_replaces (hf : st.Faithful s a) : st.memo.Gives a (Replaces s) := by
  intro e he r hr
  rw [hf.eq_replacement he hr]
  exact replaces_replacement s r.id (hf.sources _ (hf.mem_of_maps he hr)).2

/-- The result of a pass over a graph has the structure of the graph. Each node keeps its kind and
    its parts; parameters and constants are replaced one by one, methods are closed over resolved
    types, members are resolved, and quotations are added around lambdas that are arguments of
    generic calls only. -/
theorem Constructed.retargets_of_run {supply : Nat} {e e' : Expr} (h : e.Constructed supply)
    (hrun : (Pass.run s cat supply e).result = .ok e') :
    Retargets s cat (Replaces s) e e' := by
  obtain ⟨a, rfl, he⟩ := h.exists_arena
  have hwalk := retarget_follows s cat a e he (.start s a) (Pass.returns_of_result hrun)
  -- The memo at the end of the pass says what replaces each leaf.
  exact hwalk.retargets _ (gives_replaces hwalk.visits.faithful)

end Expr

/-- A query whose lambda is inferred a type that is too narrow and then retyped. -/
theorem Sample.selection_retargets :
    (Pass.run renumber catalog 8 (selection itemFrom 7 0 5)).result =
        .ok (selection itemTo 8 8 15) ∧
      Expr.Retargets renumber catalog (Expr.Replaces renumber) (selection itemFrom 7 0 5)
        (selection itemTo 8 8 15) :=
  ⟨rfl, Expr.Constructed.retargets_of_run (selection_built.constructed List.mem_cons_self) rfl⟩

end Retarget
