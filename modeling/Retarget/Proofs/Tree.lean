import Retarget.Pass.Basic
import Retarget.Proofs.Run

/-!
# Expressions as trees

The tree of an expression is what is left of it when the identities of its nodes are forgotten: two
expressions have the same tree when they have the same kinds, parts, methods, members, values,
names, flags and types throughout, whatever they share. A checked constructor looks at trees alone,
so it makes the same tree of parts that have the same trees, and fails alike where it fails.

`Expr.retargetTree` is the pass as a recursion over trees, with no state to carry along: nothing is
remembered, and no call is kept because its parts are the nodes they were.

## Key results

- `Expr.tree`, `Expr.tree_tree`: the tree of an expression
- `Build.Alike`: constructions that make the same tree
- `Build.call_alike`, `Build.lambda_alike`, ...: the constructors look at trees alone
- `Expr.retargetTree`: the pass over trees
-/

namespace Retarget

/-- A parameter whose identity is forgotten. -/
def Parameter.anonymous (p : Parameter) : Parameter := { p with id := 0 }

@[simp] theorem Parameter.ty_anonymous (p : Parameter) : p.anonymous.ty = p.ty := rfl

@[simp] theorem Parameter.anonymous_anonymous (p : Parameter) :
    p.anonymous.anonymous = p.anonymous := rfl

namespace Expr

mutual

/-- An expression whose identities are forgotten. -/
@[simp] def tree : Expr → Expr
  | .call _ receiver method args ty => .call 0 (treeOption receiver) method (treeList args) ty
  | .lambda _ delegate name tailCall params body =>
    .lambda 0 delegate name tailCall (params.map (·.anonymous)) (tree body)
  | .parameter p => .parameter p.anonymous
  | .member _ object m => .member 0 (treeOption object) m
  | .constant _ v => .constant 0 v
  | .unary _ op operand ty method => .unary 0 op (tree operand) ty method
  | .binary _ op left right lifted method conversion ty =>
    .binary 0 op (tree left) (tree right) lifted method (treeOption conversion) ty
  | .conditional _ test ifTrue ifFalse ty =>
    .conditional 0 (tree test) (tree ifTrue) (tree ifFalse) ty
  | .invoke _ target args ty => .invoke 0 (tree target) (treeList args) ty
  | .default _ ty => .default 0 ty

/-- The tree of an optional part. -/
def treeOption : Option Expr → Option Expr
  | none => none
  | some e => some (tree e)

/-- The trees of parts. -/
def treeList : List Expr → List Expr
  | [] => []
  | e :: es => tree e :: treeList es

end

/-- The tree of an optional part is the tree of the part, if it is there. -/
@[simp] theorem treeOption_eq_map (o : Option Expr) : treeOption o = o.map tree := by
  cases o <;> rfl

/-- The trees of parts are taken one by one. -/
@[simp] theorem treeList_eq_map (es : List Expr) : treeList es = es.map tree := by
  induction es with
  | nil => rfl
  | cons e es ih => rw [treeList, ih, List.map_cons]

@[simp] theorem ty_tree (e : Expr) : e.tree.ty = e.ty := by
  cases e <;> rfl

@[simp] theorem kind_tree (e : Expr) : e.tree.kind = e.kind := by
  cases e <;> rfl

/-- The tree of a lambda, and of nothing else, is a lambda. -/
@[simp] theorem isLambda_tree (e : Expr) : e.tree.isLambda = e.isLambda := by
  cases e <;> rfl

/-- The tree of a leaf, and of nothing else, is a leaf. -/
@[simp] theorem isLeaf_tree (e : Expr) : e.tree.isLeaf = e.isLeaf := by
  cases e <;> rfl

/-- Expressions of the same tree have the same type. -/
theorem ty_of_tree {e e' : Expr} (h : e.tree = e'.tree) : e.ty = e'.ty := by
  rw [← ty_tree e, h, ty_tree]

/-- Expressions of the same tree have the same kind. -/
theorem kind_of_tree {e e' : Expr} (h : e.tree = e'.tree) : e.kind = e'.kind := by
  rw [← kind_tree e, h, kind_tree]

/-- Of two expressions of the same tree both are lambdas or none is. -/
theorem isLambda_of_tree {e e' : Expr} (h : e.tree = e'.tree) : e.isLambda = e'.isLambda := by
  rw [← isLambda_tree e, h, isLambda_tree]

/-- Parts whose trees have nothing to forget have none together either. -/
private theorem map_tree_of_forall {es : List Expr} (h : ∀ e ∈ es, e.tree.tree = e.tree) :
    (es.map tree).map tree = es.map tree := by
  rw [List.map_map]
  exact List.map_congr_left h

/-- An optional part has nothing to forget in its tree if the part has nothing to forget. -/
private theorem option_map_tree_of_forall {o : Option Expr}
    (h : ∀ e, o = some e → e.tree.tree = e.tree) : (o.map tree).map tree = o.map tree := by
  cases o with
  | none => rfl
  | some e => exact congrArg some (h e rfl)

/-- A tree has no identities to forget. -/
@[simp] theorem tree_tree (e : Expr) : e.tree.tree = e.tree := by
  -- Induction from the parts of a node to the node, whose own identity is forgotten at once.
  induction e using childInduction with
  | node e ih =>
    cases e with
    | call id receiver method args ty =>
      simp only [tree, treeOption_eq_map, treeList_eq_map]
      rw [option_map_tree_of_forall fun r hr => ih r (by simp [children, hr]),
        map_tree_of_forall fun x hx => ih x (by simp [children, hx])]
    | lambda id delegate name tailCall params body =>
      simp [ih body (by simp [children])]
    | member id object m =>
      simp only [tree, treeOption_eq_map]
      rw [option_map_tree_of_forall fun o ho => ih o (by simp [children, ho])]
    | unary id op operand ty method => simp [ih operand (by simp [children])]
    | binary id op left right lifted method conversion ty =>
      simp only [tree, treeOption_eq_map]
      rw [ih left (by simp [children]), ih right (by simp [children]),
        option_map_tree_of_forall fun c hc => ih c (by simp [children, hc])]
    | conditional id test ifTrue ifFalse ty =>
      simp [ih test (by simp [children]), ih ifTrue (by simp [children]),
        ih ifFalse (by simp [children])]
    | invoke id target args ty =>
      simp only [tree, treeList_eq_map]
      rw [ih target (by simp [children]),
        map_tree_of_forall fun x hx => ih x (by simp [children, hx])]
    | parameter p => rfl
    | constant id v => rfl
    | default id ty => rfl

/-- The trees of parts have no identities to forget. -/
@[simp] theorem map_tree_map_tree (es : List Expr) : (es.map tree).map tree = es.map tree :=
  map_tree_of_forall fun e _ => tree_tree e

/-- The tree of an optional part has no identities to forget. -/
@[simp] theorem option_map_tree_map_tree (o : Option Expr) :
    (o.map tree).map tree = o.map tree :=
  option_map_tree_of_forall fun e _ => tree_tree e

/-- The tree of a replacement is the replacement without an identity. -/
theorem tree_replacement (s : Substitution) (id : Nat) {e : Expr} (h : e.isLeaf = true) :
    (e.replacement s id).tree = e.replacement s 0 := by
  obtain ⟨p, rfl⟩ | ⟨i, v, rfl⟩ := isLeaf_iff.mp h <;> rfl

end Expr

/-! ## Constructions up to identities -/

namespace Build

open Retarget.Expr (tree)

/-- What a construction from the identity `n` on makes, seen through `f`. It fails as a pass
    does. -/
def outcome {α β : Type} (b : Build α) (f : α → β) (n : Nat) : Except RetargetError β :=
  match b n with
  | .ok (a, _) => .ok (f a)
  | .error err => .error (.build err)

/-- The tree that a construction makes. -/
def made (b : Build Expr) : Except RetargetError Expr := b.outcome tree 0

variable {α β γ δ : Type} {f : α → γ}

/-- The outcome of a construction is what `f` sees of the result with which it succeeds. -/
theorem outcome_eq_ok {b : Build α} {n : Nat} {c : γ} :
    b.outcome f n = .ok c ↔ ∃ a k, b n = .ok (a, k) ∧ f a = c := by
  unfold outcome
  cases b n with
  | error err => simp
  | ok r =>
    obtain ⟨a, k⟩ := r
    simp

/-- A construction makes the trees of the expressions with which it succeeds. -/
theorem made_eq_ok {b : Build Expr} {x : Expr} :
    b.made = .ok x ↔ ∃ e n, b 0 = .ok (e, n) ∧ e.tree = x :=
  outcome_eq_ok

/-- A sequence makes what its rest makes of the first result, or fails as the first part does. -/
theorem outcome_bind (b : Build α) (k : α → Build β) (f : β → γ) (n : Nat) :
    (b >>= k).outcome f n =
      match b n with
      | .ok (a, m) => (k a).outcome f m
      | .error err => .error (.build err) := by
  simp only [outcome, bind, StateT.bind, Except.bind]
  cases b n <;> rfl

/-- What a sequence makes, when it is known what its first part makes and what follows it. -/
theorem outcome_bind_eq {b : Build α} {k : α → Build β} {g : α → δ} {f : β → γ} {n : Nat}
    {x : Except RetargetError δ} {h : δ → Except RetargetError γ} (hb : b.outcome g n = x)
    (hk : ∀ a m, b n = .ok (a, m) → (k a).outcome f m = h (g a)) :
    (b >>= k).outcome f n = x >>= h := by
  subst hb
  rw [outcome_bind, outcome]
  -- What follows is needed only for the first result that there is.
  cases hn : b n with
  | error err => rfl
  | ok r => exact hk r.1 r.2 hn

/-- Two constructions make the same, seen through `f`, whatever identities they take. -/
def Alike (f : α → γ) (b b' : Build α) : Prop := ∀ n n', b.outcome f n = b'.outcome f n'

namespace Alike

/-- Constructions that are alike make the same tree, from whatever identity on. -/
theorem outcome_eq_made {b b' : Build Expr} (h : Alike tree b b') (n : Nat) :
    b.outcome tree n = b'.made :=
  h n 0

/-- Constructions that are alike make the same tree. -/
theorem made_eq_made {b b' : Build Expr} (h : Alike tree b b') : b.made = b'.made := h 0 0

/-- Results that cannot be told apart are alike. -/
theorem pure {a a' : α} (h : f a = f a') : Alike f (Pure.pure a) (Pure.pure a') :=
  fun _ _ => congrArg Except.ok h

/-- Refusals for the same reason are alike. -/
theorem throw (err : BuildError) : Alike f (MonadExcept.throw err) (MonadExcept.throw err) :=
  fun _ _ => rfl

/-- What follows may look at a first result through `g`, and at no identities. -/
theorem bind {g : α → δ} {f : β → γ} {b b' : Build α} {k k' : α → Build β} (hb : Alike g b b')
    (hk : ∀ a a', g a = g a' → Alike f (k a) (k' a')) : Alike f (b >>= k) (b' >>= k') := by
  intro n n'
  have hfirst := hb n n'
  rw [outcome_bind, outcome_bind]
  unfold outcome at hfirst
  generalize b n = r, b' n' = r' at hfirst ⊢
  -- Both fail in the same way, or go on with results that `g` cannot tell apart.
  rcases r with err | ⟨a, m⟩ <;> rcases r' with err' | ⟨a', m'⟩
  · cases hfirst
    rfl
  · cases hfirst
  · cases hfirst
  · exact hk a a' (Except.ok.inj hfirst) m m'

/-- Two parts that do not differ make the same, unless they take identities. -/
theorem unit_bind {f : β → γ} (b : Build Unit) (hb : Alike id b b) {k k' : Unit → Build β}
    (hk : Alike f (k ()) (k' ())) : Alike f (b >>= k) (b >>= k') :=
  hb.bind fun _ _ _ => hk

/-- A check takes no identity. -/
theorem check (c : Bool) (err : BuildError) :
    Alike id (Build.check c err) (Build.check c err) := by
  intro n n'
  cases c <;> rfl

/-- A refusal takes no identity. -/
theorem refuse (fault : Option BuildError) :
    Alike id (Build.refuse fault) (Build.refuse fault) := by
  intro n n'
  cases fault <;> rfl

/-- A new identity is one that nothing looks at. -/
theorem fresh : Alike (fun _ : Nat => ()) Build.fresh Build.fresh := fun _ _ => rfl

/-- A computation without identities, of which `f` sees the same. -/
theorem lift {x x' : Except BuildError α} (h : x.map f = x'.map f) :
    Alike f (liftM x : Build α) (liftM x') := by
  intro n n'
  -- Both fail in the same way, or both have results that `f` sees as the same.
  cases x with
  | error err =>
    cases x' with
    | error err' => cases h; rfl
    | ok a' => cases h
  | ok a =>
    cases x' with
    | error err' => cases h
    | ok a' => exact congrArg Except.ok (Except.ok.inj h)

/-- A computation without identities is like itself. -/
theorem lift_self (x : Except BuildError α) : Alike id (liftM x : Build α) (liftM x) :=
  lift rfl

end Alike

/-! ## The constructors look at trees alone -/

/-- Optional parts of the same tree are there both or not at all, with the same type. -/
private theorem option_map_tree_cases {o o' : Option Expr} (h : o.map tree = o'.map tree) :
    (o = none ∧ o' = none) ∨ ∃ e e', o = some e ∧ o' = some e' ∧ e.tree = e'.tree := by
  cases o with
  | none => cases o' with
    | none => exact .inl ⟨rfl, rfl⟩
    | some e' => cases h
  | some e => cases o' with
    | none => cases h
    | some e' => exact .inr ⟨e, e', rfl, rfl, Option.some.inj h⟩

/-- The fault of an access depends on the type of the object, and on whether there is one. -/
theorem memberFault?_of_tree {object object' : Option Expr} (m : Member)
    (h : object.map tree = object'.map tree) : memberFault? object m = memberFault? object' m := by
  rcases option_map_tree_cases h with ⟨rfl, rfl⟩ | ⟨e, e', rfl, rfl, he⟩
  · rfl
  · cases hstatic : m.isStatic <;> simp [memberFault?, hstatic, Expr.ty_of_tree he]

/-- The fault of a receiver depends on its type, and on whether there is one. -/
theorem receiverFault?_of_tree {receiver receiver' : Option Expr} (m : MethodRef)
    (h : receiver.map tree = receiver'.map tree) :
    receiverFault? receiver m = receiverFault? receiver' m := by
  rcases option_map_tree_cases h with ⟨rfl, rfl⟩ | ⟨e, e', rfl, rfl, he⟩
  · rfl
  · cases hstatic : m.isStatic <;> simp [receiverFault?, hstatic, Expr.ty_of_tree he]

/-- The fault of a conversion depends on its kind, and on whether there is one. -/
theorem conversionFault?_of_tree {conversion conversion' : Option Expr} (op : BinaryOp)
    (h : conversion.map tree = conversion'.map tree) :
    conversionFault? op conversion = conversionFault? op conversion' := by
  rcases option_map_tree_cases h with ⟨rfl, rfl⟩ | ⟨e, e', rfl, rfl, he⟩
  · rfl
  · simp only [conversionFault?, Expr.isLambda_of_tree he, Expr.kind_of_tree he]

/-- The type of a unary node depends on the type and the kind of the operand. -/
theorem unaryType_of_tree {operand operand' : Expr} (op : UnaryOp) (ty : Ty)
    (method : Option MethodRef) (h : operand.tree = operand'.tree) :
    unaryType op operand ty method = unaryType op operand' ty method := by
  simp only [unaryType, Expr.ty_of_tree h, Expr.isLambda_of_tree h, Expr.kind_of_tree h]

/-- The parameters among nodes are those among nodes of the same trees. -/
theorem parametersFrom_map_tree (index : Nat) (es : List Expr) :
    parametersFrom index (es.map tree) =
      (parametersFrom index es).map (List.map Parameter.anonymous) := by
  -- Induction on the nodes. The first that is no parameter ends both lists alike.
  induction es generalizing index with
  | nil => rfl
  | cons e es ih =>
    cases e with
    | parameter p =>
      simp only [List.map_cons, tree, parametersFrom, ih]
      cases parametersFrom (index + 1) es <;> rfl
    | _ => rfl

/-- The parameters among nodes, checked against types, are those among nodes of the same trees. -/
theorem typedParametersFrom_map_tree (index : Nat) (es : List Expr) (types : List Ty) :
    typedParametersFrom index (es.map tree) types =
      (typedParametersFrom index es types).map (List.map Parameter.anonymous) := by
  -- As before, with the types that are still to be compared.
  induction es generalizing index types with
  | nil => rfl
  | cons e es ih =>
    cases types with
    | nil => cases e <;> rfl
    | cons t ts =>
      cases e with
      | parameter p =>
        -- The check of a parameter reads its type.
        simp only [List.map_cons, tree, typedParametersFrom, Parameter.ty_anonymous, ih]
        split
        · cases typedParametersFrom (index + 1) es ts <;> rfl
        · rfl
      | _ => rfl

/-- An access looks at the tree of its object. -/
theorem member_alike {object object' : Option Expr} (m : Member)
    (h : object.map tree = object'.map tree) :
    Alike tree (member object m) (member object' m) := by
  unfold member
  rw [memberFault?_of_tree m h]
  refine .unit_bind _ (.refuse _) (.bind .fresh fun i i' _ => .pure ?_)
  simp [h]

/-- A lambda looks at the trees of its parameters and of its body. -/
theorem lambda_alike {body body' : Expr} {params params' : List Expr} (name : Option String)
    (tailCall : Bool) (hbody : body.tree = body'.tree)
    (hparams : params.map tree = params'.map tree) :
    Alike tree (lambda body name tailCall params) (lambda body' name tailCall params') := by
  unfold lambda
  -- The parameters that are found, up to their identities.
  have hps : (parametersFrom 0 params).map (List.map Parameter.anonymous) =
      (parametersFrom 0 params').map (List.map Parameter.anonymous) := by
    rw [← parametersFrom_map_tree, hparams, parametersFrom_map_tree]
  refine .bind (.lift hps) fun ps ps' hps => .bind .fresh fun i i' _ => .pure ?_
  -- Parameters that differ in their identities alone have the same types.
  have htypes : ps.map (·.ty) = ps'.map (·.ty) := by
    have hmap := congrArg (List.map (·.ty)) hps
    simpa [Function.comp_def] using hmap
  simp only [tree, hps, hbody, htypes, Expr.ty_of_tree hbody]

/-- A lambda whose delegate type is given looks at the trees of its parameters and of its body. -/
theorem typedLambda_alike {body body' : Expr} {params params' : List Expr} (delegate : Ty)
    (name : Option String) (tailCall : Bool) (hbody : body.tree = body'.tree)
    (hparams : params.map tree = params'.map tree) :
    Alike tree (typedLambda delegate body name tailCall params)
      (typedLambda delegate body' name tailCall params') := by
  -- The checks compare numbers and types, which trees keep.
  have hlen : params.length = params'.length := by simpa using congrArg List.length hparams
  unfold typedLambda
  rw [hlen, Expr.ty_of_tree hbody]
  cases delegate.signature? with
  | none => exact .throw _
  | some signature =>
    have hps : (typedParametersFrom 0 params signature.1).map (List.map Parameter.anonymous) =
        (typedParametersFrom 0 params' signature.1).map (List.map Parameter.anonymous) := by
      rw [← typedParametersFrom_map_tree, hparams, typedParametersFrom_map_tree]
    refine .unit_bind _ (.check _ _) (.bind (.lift hps) fun ps ps' hps =>
      .unit_bind _ (.check _ _) (.bind .fresh fun i i' _ => .pure ?_))
    simp only [tree, hps, hbody]

/-- A unary node looks at the tree of its operand. -/
theorem unary_alike {operand operand' : Expr} (op : UnaryOp) (ty : Ty) (method : Option MethodRef)
    (h : operand.tree = operand'.tree) :
    Alike tree (unary op operand ty method) (unary op operand' ty method) := by
  unfold unary
  rw [unaryType_of_tree op ty method h]
  refine .bind (.lift_self _) fun t t' ht => .bind .fresh fun i i' _ => .pure ?_
  obtain rfl : t = t' := ht
  simp only [tree, h]

/-- A binary node looks at the trees of its operands and of its conversion. -/
theorem binary_alike {left left' right right' : Expr} {conversion conversion' : Option Expr}
    (op : BinaryOp) (lifted : Bool) (method : Option MethodRef) (hleft : left.tree = left'.tree)
    (hright : right.tree = right'.tree) (hconversion : conversion.map tree = conversion'.map tree) :
    Alike tree (binary op left right lifted method conversion)
      (binary op left' right' lifted method conversion') := by
  unfold binary
  rw [conversionFault?_of_tree op hconversion, Expr.ty_of_tree hleft, Expr.ty_of_tree hright]
  refine .unit_bind _ (.refuse _) (.bind (.lift_self _) fun t t' ht =>
    .bind .fresh fun i i' _ => .pure ?_)
  obtain rfl : t = t' := ht
  simp [hleft, hright, hconversion]

/-- An argument is taken, quoted or refused by its tree. -/
theorem argument_alike {arg arg' : Expr} (method : MethodRef) (index : Nat) (expected : Ty)
    (h : arg.tree = arg'.tree) :
    Alike tree (argument method index arg expected) (argument method index arg' expected) := by
  unfold argument quote
  rw [Expr.ty_of_tree h, Expr.isLambda_of_tree h]
  -- It converts as it is, or a quotation of it would do, or nothing helps.
  split
  · exact .pure h
  · split
    · exact unary_alike _ _ _ h
    · exact .throw _

/-- Arguments are taken by their trees, from the left. -/
theorem argumentsFrom_alike {args args' : List Expr} (method : MethodRef) (index : Nat)
    (types : List Ty) (h : args.map tree = args'.map tree) :
    Alike (List.map tree) (argumentsFrom method index args types)
      (argumentsFrom method index args' types) := by
  -- Induction on the arguments of both lists, which are equally many.
  induction args generalizing args' index types with
  | nil =>
    obtain rfl : args' = [] := List.map_eq_nil_iff.mp h.symm
    exact .pure rfl
  | cons arg args ih =>
    obtain ⟨arg', args', rfl, harg, hargs⟩ := List.map_eq_cons_iff.mp h.symm
    cases types with
    | nil => exact .pure rfl
    | cons t ts =>
      refine .bind (argument_alike method index t harg.symm) fun first first' hfirst =>
        .bind (ih (index + 1) ts hargs.symm) fun rest rest' hrest => .pure ?_
      rw [List.map_cons, List.map_cons, hfirst, hrest]

/-- A call looks at the trees of its receiver and of its arguments. -/
theorem call_alike {receiver receiver' : Option Expr} {args args' : List Expr} (method : MethodRef)
    (hreceiver : receiver.map tree = receiver'.map tree) (hargs : args.map tree = args'.map tree) :
    Alike tree (call receiver method args) (call receiver' method args') := by
  have hlen : args.length = args'.length := by simpa using congrArg List.length hargs
  unfold call
  rw [receiverFault?_of_tree method hreceiver, hlen]
  -- Three checks without identities, then the arguments, and at last the node.
  refine .unit_bind _ (.check _ _) (.unit_bind _ (.refuse _) (.unit_bind _ (.check _ _)
    (.bind (argumentsFrom_alike method 0 _ hargs) fun as as' has =>
      .bind .fresh fun i i' _ => .pure ?_)))
  simp [hreceiver, has]

/-! ## Retyping of trees -/

/-- A tree retyped to what is wanted of it. All nodes on the way to a lambda are built anew. -/
def coerceTree (need : Ty) : Expr → Except RetargetError Expr
  | .lambda _ _ name tailCall params body =>
    (typedLambda (wantedDelegate need) body name tailCall (params.map .parameter)).made
  | .unary _ op operand ty method => do
    let operand' ← coerceTree need operand
    (unary op operand' ty method).made
  | e => .ok e.tree

/-- Trees retyped from the left. -/
def coerceTrees : List Expr → List Ty → Except RetargetError (List Expr)
  | arg :: args, need :: needs => do
    let first ← coerceTree need arg
    return first :: (← coerceTrees args needs)
  | _, _ => return []

/-- The arguments of a method as trees, retyped to its parameter types. -/
def coerceArguments (method : String) (args : List Expr) (needs : List Ty) :
    Except RetargetError (List Expr) :=
  if args.length = needs.length then coerceTrees args needs
  else throw (.build (.argumentCount method needs.length args.length))

end Build

/-! ## The pass over trees -/

namespace Expr

mutual

/-- One pass over an expression, of which the tree alone matters. -/
def retargetTree (s : Substitution) (cat : Catalog) : Expr → Except RetargetError Expr
  | .call _ receiver method args _ => do
    let args' ← retargetTrees s cat args
    let receiver' ← retargetTreeOption s cat receiver
    if method.isGeneric then
      let method' := s.rebind method
      let args'' ← Build.coerceArguments method'.name args' method'.parameterTypes
      (Build.call receiver' method' args'').made
    else (Build.call receiver' method args').made
  | .lambda _ _ name tailCall params body => do
    let params' := params.map fun p => replacement s 0 (.parameter p)
    let body' ← retargetTree s cat body
    (Build.lambda body' name tailCall params').made
  | .parameter p => return replacement s 0 (.parameter p)
  | .member _ object m => do
    let object' ← retargetTreeOption s cat object
    let m' ← s.resolveMember cat m
    (Build.member object' m').made
  | .constant id v => return replacement s 0 (.constant id v)
  | .unary _ op operand ty method => do
    let operand' ← retargetTree s cat operand
    let ty' := if op = .quote then ty else s.resolve ty
    (Build.unary op operand' ty' (method.map s.rebind)).made
  | .binary _ op left right lifted method conversion _ => do
    let left' ← retargetTree s cat left
    let right' ← retargetTree s cat right
    let conversion' ← retargetTreeOption s cat conversion
    (Build.binary op left' right' lifted (method.map s.rebind) conversion').made
  | .conditional .. => throw (.unsupportedKind .conditional)
  | .invoke .. => throw (.unsupportedKind .invoke)
  | .default .. => throw (.unsupportedKind .default)

/-- The pass over an optional part. -/
def retargetTreeOption (s : Substitution) (cat : Catalog) :
    Option Expr → Except RetargetError (Option Expr)
  | none => return none
  | some e => return some (← retargetTree s cat e)

/-- The pass over parts from the left. -/
def retargetTrees (s : Substitution) (cat : Catalog) :
    List Expr → Except RetargetError (List Expr)
  | [] => return []
  | e :: es => do
    let first ← retargetTree s cat e
    return first :: (← retargetTrees s cat es)

end

variable {s : Substitution} {cat : Catalog}

/-- A leaf becomes its replacement without an identity. -/
theorem retargetTree_of_isLeaf {e : Expr} (h : e.isLeaf = true) :
    retargetTree s cat e = .ok (e.replacement s 0) := by
  obtain ⟨p, rfl⟩ | ⟨i, v, rfl⟩ := isLeaf_iff.mp h
  · rw [retargetTree]
    rfl
  · rw [retargetTree]
    rfl

/-- Parameters become their replacements without identities. -/
theorem retargetTrees_parameters (params : List Parameter) :
    retargetTrees s cat (params.map .parameter) =
      .ok (params.map fun p => replacement s 0 (.parameter p)) := by
  -- Induction on the parameters, each of which is a leaf.
  induction params with
  | nil => rfl
  | cons p ps ih =>
    rw [List.map_cons, retargetTrees, ih, retargetTree]
    rfl

/-- If the pass does not look at the identities in any part, it does not in all together. -/
private theorem retargetTrees_map_of_forall {es : List Expr}
    (h : ∀ e ∈ es, retargetTree s cat e.tree = retargetTree s cat e) :
    retargetTrees s cat (es.map tree) = retargetTrees s cat es := by
  induction es with
  | nil => rfl
  | cons e es ih =>
    rw [List.map_cons, retargetTrees, retargetTrees, h e List.mem_cons_self,
      ih fun x hx => h x (List.mem_cons_of_mem _ hx)]

/-- If the pass does not look at the identities in a part, it does not in an optional one. -/
private theorem retargetTreeOption_map_of_forall {o : Option Expr}
    (h : ∀ e, o = some e → retargetTree s cat e.tree = retargetTree s cat e) :
    retargetTreeOption s cat (o.map tree) = retargetTreeOption s cat o := by
  cases o with
  | none => rfl
  | some e => rw [Option.map_some, retargetTreeOption, retargetTreeOption, h e rfl]

/-- The pass over trees does not look at identities. -/
theorem retargetTree_tree (e : Expr) : retargetTree s cat e.tree = retargetTree s cat e := by
  -- Induction from the parts of a node to the node; the pass never looks at the identity of one.
  induction e using childInduction with
  | node e ih =>
    cases e with
    | call id receiver method args ty =>
      simp only [tree, treeOption_eq_map, treeList_eq_map, retargetTree]
      rw [retargetTreeOption_map_of_forall fun r hr => ih r (by simp [children, hr]),
        retargetTrees_map_of_forall fun x hx => ih x (by simp [children, hx])]
    | lambda id delegate name tailCall params body =>
      simp only [tree, retargetTree, ih body (by simp [children]), List.map_map]
      rfl
    | parameter p => rfl
    | member id object m =>
      simp only [tree, treeOption_eq_map, retargetTree]
      rw [retargetTreeOption_map_of_forall fun o ho => ih o (by simp [children, ho])]
    | constant id v => rfl
    | unary id op operand ty method =>
      simp only [tree, retargetTree, ih operand (by simp [children])]
    | binary id op left right lifted method conversion ty =>
      simp only [tree, treeOption_eq_map, retargetTree]
      rw [ih left (by simp [children]), ih right (by simp [children]),
        retargetTreeOption_map_of_forall fun c hc => ih c (by simp [children, hc])]
    | conditional id test ifTrue ifFalse ty => rfl
    | invoke id target args ty => rfl
    | default id ty => rfl

end Expr

end Retarget
