import Mathlib.Data.List.Forall2
import Retarget.Proofs.Matching
import Retarget.Proofs.Transparency

/-!
# What becomes of a tree

The successful outcomes of the recursion over trees, one equivalence for each kind of node. Every
statement about two passes is derived from these, without a look at the recursion itself. An
argument of a call goes through three steps: the recursion, the retyping of arguments of generic
calls, and the quotation of lambdas that are wanted as data.

## Key results

- `Expr.Becomes`: the recursion makes one tree of another
- `Expr.becomes_iff_run`: what this says of a pass
- `Expr.ArgumentBecomes`: what is made of an argument
- `Expr.becomes_call`, `Expr.becomes_lambda`, ...: the equivalences
- `Expr.becomes_quoted_iff`: what becomes of a quotation
- `Expr.retargetTree_of_retyped`: a pass cannot tell whether a tree was retyped
-/

namespace Retarget

/-! ## Three lists place by place -/

/-- Whether three lists have the same length and a relation holds in each place. -/
inductive Along {α β γ : Type} (R : α → β → γ → Prop) : List α → List β → List γ → Prop where
  | nil : Along R [] [] []
  | cons {a : α} {b : β} {c : γ} {as : List α} {bs : List β} {cs : List γ} (h : R a b c)
      (hs : Along R as bs cs) : Along R (a :: as) (b :: bs) (c :: cs)

namespace Along

variable {α β γ δ : Type}

/-- The first list has as many members as the second. -/
theorem length_eq {R : α → β → γ → Prop} {as : List α} {bs : List β} {cs : List γ}
    (h : Along R as bs cs) : as.length = bs.length := by
  induction h with
  | nil => rfl
  | cons _ _ ih => rw [List.length_cons, List.length_cons, ih]

/-- The first list has as many members as the third. -/
theorem length_eq_right {R : α → β → γ → Prop} {as : List α} {bs : List β} {cs : List γ}
    (h : Along R as bs cs) : as.length = cs.length := by
  induction h with
  | nil => rfl
  | cons _ _ ih => rw [List.length_cons, List.length_cons, ih]

/-- Two relations in turn hold along lists exactly if both do in each place. -/
theorem comp_iff {R : α → β → γ → Prop} {S : α → γ → δ → Prop} {as : List α} {bs : List β}
    {ds : List δ} :
    (∃ cs, Along R as bs cs ∧ Along S as cs ds) ↔
      Along (fun a b d => ∃ c, R a b c ∧ S a c d) as bs ds := by
  constructor
  · intro h
    obtain ⟨cs, hR, hS⟩ := h
    -- Along the first relation, the middle list is cut member by member.
    induction hR generalizing ds with
    | nil =>
      cases hS
      exact .nil
    | cons h _ ih =>
      cases hS with
      | cons h' hS => exact .cons ⟨_, h, h'⟩ (ih hS)
  · intro h
    induction h with
    | nil => exact ⟨[], .nil, .nil⟩
    | cons h _ ih =>
      obtain ⟨c, hR, hS⟩ := h
      obtain ⟨cs, hRs, hSs⟩ := ih
      exact ⟨c :: cs, .cons hR hRs, .cons hS hSs⟩

/-- A relation of the second and third list, followed by one along all three, is one relation along
    the first, second and fourth list. -/
theorem forall₂_iff {P : β → γ → Prop} {S : α → γ → δ → Prop} {as : List α} {bs : List β}
    {ds : List δ} :
    (∃ cs, List.Forall₂ P bs cs ∧ Along S as cs ds) ↔
      Along (fun a b d => ∃ c, P b c ∧ S a c d) as bs ds := by
  constructor
  · intro h
    obtain ⟨cs, hP, hS⟩ := h
    induction hP generalizing as ds with
    | nil =>
      cases hS
      exact .nil
    | cons h _ ih =>
      cases hS with
      | cons h' hS => exact .cons ⟨_, h, h'⟩ (ih hS)
  · intro h
    induction h with
    | nil => exact ⟨[], .nil, .nil⟩
    | cons h _ ih =>
      obtain ⟨c, hP, hS⟩ := h
      obtain ⟨cs, hPs, hSs⟩ := ih
      exact ⟨c :: cs, .cons hP hPs, .cons hS hSs⟩

end Along

/-! ## Trees that are made -/

namespace Build

open Retarget.Expr (tree)

/-- What is built in isolation is a tree, without identities. -/
theorem tree_of_made {b : Build Expr} {x : Expr} (h : b.made = .ok x) : x.tree = x := by
  obtain ⟨e, n, -, rfl⟩ := made_eq_ok.mp h
  exact Expr.tree_tree e

/-- A lambda over parameters is built without fail, with the inferred type. -/
theorem made_lambda (body : Expr) (name : Option String) (tailCall : Bool)
    (params : List Parameter) :
    (lambda body name tailCall (params.map .parameter)).made =
      .ok (.lambda 0 (Ty.func (params.map (·.ty)) body.ty) name tailCall
        (params.map (·.anonymous)) body.tree) :=
  made_eq_ok.mpr ⟨_, _, lambda_eq_ok.mpr ⟨params, rfl, rfl, rfl⟩, rfl⟩

/-- The access of a member is built exactly if its object fits. -/
theorem made_member_eq_ok {object : Option Expr} {m : Member} {x : Expr} :
    (member object m).made = .ok x ↔
      memberFault? object m = none ∧ x = .member 0 (object.map tree) m := by
  simp only [made_eq_ok, member_eq_ok]
  constructor
  · intro h
    obtain ⟨_, _, ⟨hfault, rfl, -⟩, rfl⟩ := h
    exact ⟨hfault, by simp⟩
  · intro h
    obtain ⟨hfault, rfl⟩ := h
    exact ⟨_, _, ⟨hfault, rfl, rfl⟩, by simp⟩

/-- A unary node is built exactly if its type can be derived. -/
theorem made_unary_eq_ok {op : UnaryOp} {operand : Expr} {ty : Ty} {method : Option MethodRef}
    {x : Expr} :
    (unary op operand ty method).made = .ok x ↔
      ∃ t, unaryType op operand ty method = .ok t ∧ x = .unary 0 op operand.tree t method := by
  simp only [made_eq_ok, unary_eq_ok]
  constructor
  · intro h
    obtain ⟨_, _, ⟨t, ht, rfl, -⟩, rfl⟩ := h
    exact ⟨t, ht, rfl⟩
  · intro h
    obtain ⟨t, ht, rfl⟩ := h
    exact ⟨_, _, ⟨t, ht, rfl, rfl⟩, rfl⟩

/-- A binary node is built exactly if its conversion fits and its type can be derived. -/
theorem made_binary_eq_ok {op : BinaryOp} {left right : Expr} {lifted : Bool}
    {method : Option MethodRef} {conversion : Option Expr} {x : Expr} :
    (binary op left right lifted method conversion).made = .ok x ↔
      conversionFault? op conversion = none ∧
      ∃ t, binaryType op left.ty right.ty lifted method = .ok t ∧
        x = .binary 0 op left.tree right.tree lifted method (conversion.map tree) t := by
  simp only [made_eq_ok, binary_eq_ok]
  constructor
  · intro h
    obtain ⟨_, _, ⟨hfault, t, ht, rfl, -⟩, rfl⟩ := h
    exact ⟨hfault, t, ht, by simp⟩
  · intro h
    obtain ⟨hfault, t, ht, rfl⟩ := h
    exact ⟨_, _, ⟨hfault, t, ht, rfl, rfl⟩, by simp⟩

/-- A lambda of a given delegate type, as a tree. -/
theorem made_typedLambda_eq_ok {delegate : Ty} {body : Expr} {name : Option String}
    {tailCall : Bool} {params : List Parameter} {x : Expr} :
    (typedLambda delegate body name tailCall (params.map .parameter)).made = .ok x ↔
      ∃ ret, delegate = Ty.func (params.map (·.ty)) ret ∧ body.ty.assignableTo ret = true ∧
        x = .lambda 0 delegate name tailCall (params.map (·.anonymous)) body.tree := by
  simp only [made_eq_ok, typedLambda_eq_ok]
  constructor
  · intro h
    obtain ⟨_, _, ⟨ps, ret, hps, hdelegate, hassign, rfl, -⟩, rfl⟩ := h
    -- The parameters that were checked are those that were given.
    obtain rfl := List.map_injective_iff.mpr (fun _ _ => Expr.parameter.inj) hps
    exact ⟨ret, hdelegate, hassign, rfl⟩
  · intro h
    obtain ⟨ret, hdelegate, hassign, rfl⟩ := h
    exact ⟨_, _, ⟨params, ret, rfl, hdelegate, hassign, rfl, rfl⟩, rfl⟩

/-! ## Arguments -/

/-- The quotation that a call puts around a lambda. -/
def quoted (l : Expr) : Expr := .unary 0 .quote l (Ty.expression l.ty) none

/-- What a call takes in the place of an argument: the argument itself, if it is accepted, or else
    its quotation, if it is a lambda that is wanted as data. -/
inductive Taken (need : Ty) (y : Expr) : Expr → Prop where
  | plain (h : y.ty.assignableTo need = true) : Taken need y y
  | quoted (h : y.ty.assignableTo need = false) (hlambda : y.isLambda = true)
      (hneed : need = Ty.expression y.ty) : Taken need y (quoted y)

/-- A call takes a tree as an argument exactly as `Taken` says. -/
theorem outcome_argument_eq_ok {method : MethodRef} {index n : Nat} {y z : Expr} {need : Ty}
    (hy : y.tree = y) : (argument method index y need).outcome tree n = .ok z ↔ Taken need y z := by
  simp only [outcome_eq_ok, argument_eq_ok]
  constructor
  · intro h
    -- Taken as it is, or in a quotation whose identity the tree forgets.
    obtain ⟨_, _, ⟨hassign, rfl, -⟩ | ⟨hassign, hlambda, hneed, rfl, -⟩, rfl⟩ := h
    · rw [hy]
      exact .plain hassign
    · rw [tree, hy]
      exact .quoted hassign hlambda hneed
  · intro h
    cases h with
    | plain hassign => exact ⟨y, n, .inl ⟨hassign, rfl, rfl⟩, hy⟩
    | quoted hassign hlambda hneed =>
      refine ⟨_, _, .inr ⟨hassign, hlambda, hneed, rfl, rfl⟩, ?_⟩
      rw [tree, hy]
      rfl

/-- A call takes trees as arguments one by one, in the order of its parameters. -/
theorem outcome_argumentsFrom_eq_ok {method : MethodRef} {index n : Nat} {ys zs : List Expr}
    {needs : List Ty} (hys : ys.map tree = ys) (hlen : needs.length = ys.length) :
    (argumentsFrom method index ys needs).outcome (List.map tree) n = .ok zs ↔
      Along Taken needs ys zs := by
  -- From the left; which identities are taken does not show in the trees.
  induction ys generalizing index n zs needs with
  | nil =>
    obtain rfl := List.length_eq_zero_iff.mp hlen
    constructor
    · intro h
      obtain rfl : [] = zs := Except.ok.inj h
      exact .nil
    · intro h
      cases h
      rfl
  | cons y ys ih =>
    cases needs with
    | nil => cases hlen
    | cons need needs =>
      obtain ⟨hy, hys⟩ := List.cons.inj hys
      have hlen : needs.length = ys.length := Nat.succ.inj hlen
      simp only [argumentsFrom, outcome_eq_ok, bind_eq_ok, pure_eq_ok]
      constructor
      · intro h
        obtain ⟨_, _, ⟨first, k, hfirst, rest, m, hrest, rfl, -⟩, rfl⟩ := h
        exact .cons ((outcome_argument_eq_ok hy).mp (outcome_eq_ok.mpr ⟨_, _, hfirst, rfl⟩))
          ((ih hys hlen).mp (outcome_eq_ok.mpr ⟨_, _, hrest, rfl⟩))
      · intro h
        cases h with
        | cons h hs =>
          obtain ⟨first, k, hfirst, rfl⟩ := outcome_eq_ok.mp
            ((outcome_argument_eq_ok (n := n) hy).mpr h)
          obtain ⟨rest, m, hrest, rfl⟩ := outcome_eq_ok.mp ((ih (n := k) hys hlen).mpr hs)
          exact ⟨_, m, ⟨first, k, hfirst, rest, m, hrest, rfl, rfl⟩, rfl⟩

/-- A call as a tree, over parts that are trees. -/
theorem made_call_eq_ok {receiver : Option Expr} {method : MethodRef} {ys : List Expr} {x : Expr}
    (hys : ys.map tree = ys) :
    (call receiver method ys).made = .ok x ↔
      method.isOpen = false ∧ receiverFault? receiver method = none ∧
      ∃ zs, Along Taken method.parameterTypes ys zs ∧
        x = .call 0 (receiver.map tree) method zs method.returnType := by
  -- A call is checked first, then its arguments are taken, and then it is built.
  simp only [made_eq_ok, call_eq_ok]
  constructor
  · intro h
    obtain ⟨_, _, ⟨hopen, hfault, hlen, args, k, hargs, rfl, -⟩, rfl⟩ := h
    exact ⟨hopen, hfault, args.map tree,
      (outcome_argumentsFrom_eq_ok hys hlen).mp (outcome_eq_ok.mpr ⟨_, _, hargs, rfl⟩),
      by simp⟩
  · intro h
    obtain ⟨hopen, hfault, zs, hzs, rfl⟩ := h
    obtain ⟨args, k, hargs, rfl⟩ := outcome_eq_ok.mp
      ((outcome_argumentsFrom_eq_ok hys hzs.length_eq).mpr hzs)
    exact ⟨_, _, ⟨hopen, hfault, hzs.length_eq, args, k, hargs, rfl, rfl⟩, by simp⟩

/-! ## Retyping -/

variable {need : Ty} {x y : Expr}

/-- A lambda is retyped exactly if it fits into the wanted delegate type, and only its type
    changes. -/
theorem coerceTree_lambda_eq_ok {id : Nat} {delegate : Ty} {name : Option String}
    {tailCall : Bool} {params : List Parameter} {body : Expr} :
    coerceTree need (.lambda id delegate name tailCall params body) = .ok y ↔
      ∃ ret, wantedDelegate need = Ty.func (params.map (·.ty)) ret ∧
        body.ty.assignableTo ret = true ∧
        y = .lambda 0 (wantedDelegate need) name tailCall (params.map (·.anonymous)) body.tree := by
  rw [coerceTree, made_typedLambda_eq_ok]

/-- What retyping makes is a tree. -/
theorem tree_of_coerceTree (h : coerceTree need x = .ok y) : y.tree = y := by
  -- A lambda and a unary node are built anew, and all else is given back as its tree.
  cases x with
  | lambda id delegate name tailCall params body =>
    rw [coerceTree] at h
    exact tree_of_made h
  | unary id op operand ty method =>
    rw [coerceTree, except_bind_eq_ok] at h
    obtain ⟨operand', -, h⟩ := h
    exact tree_of_made h
  | _ =>
    obtain rfl := Except.ok.inj h
    exact Expr.tree_tree _

/-- A unary node is retyped at its operand, and its type is derived again. -/
theorem coerceTree_unary_eq_ok {id : Nat} {op : UnaryOp} {operand : Expr} {ty : Ty}
    {method : Option MethodRef} :
    coerceTree need (.unary id op operand ty method) = .ok y ↔
      ∃ operand' t, coerceTree need operand = .ok operand' ∧
        unaryType op operand' ty method = .ok t ∧ y = .unary 0 op operand' t method := by
  rw [coerceTree, except_bind_eq_ok]
  constructor
  · intro h
    obtain ⟨operand', hoperand, h⟩ := h
    obtain ⟨t, ht, rfl⟩ := made_unary_eq_ok.mp h
    exact ⟨operand', t, hoperand, ht, by rw [tree_of_coerceTree hoperand]⟩
  · intro h
    obtain ⟨operand', t, hoperand, ht, rfl⟩ := h
    exact ⟨operand', hoperand,
      made_unary_eq_ok.mpr ⟨t, ht, by rw [tree_of_coerceTree hoperand]⟩⟩

/-- Retyping reaches nothing but lambdas and unary nodes. -/
theorem coerceTree_of_kind (hlambda : x.kind ≠ .lambda) (hunary : x.kind ≠ .unary) :
    coerceTree need x = .ok x.tree := by
  cases x with
  | lambda id delegate name tailCall params body => exact absurd rfl hlambda
  | unary id op operand ty method => exact absurd rfl hunary
  | _ => rfl

/-- Retyping keeps the kind of a node. -/
theorem kind_of_coerceTree (h : coerceTree need x = .ok y) : y.kind = x.kind := by
  cases x with
  | lambda id delegate name tailCall params body =>
    obtain ⟨ret, -, -, rfl⟩ := coerceTree_lambda_eq_ok.mp h
    rfl
  | unary id op operand ty method =>
    obtain ⟨operand', t, -, -, rfl⟩ := coerceTree_unary_eq_ok.mp h
    rfl
  | _ =>
    obtain rfl := Except.ok.inj h
    exact Expr.kind_tree _

/-- A delegate type is asked for by itself or as data, and in no other way. -/
theorem wantedDelegate_eq_func {need ret : Ty} {params : List Ty} :
    wantedDelegate need = Ty.func params ret ↔
      need = Ty.func params ret ∨ need = Ty.expression (Ty.func params ret) := by
  unfold wantedDelegate
  constructor
  · intro h
    -- Of a type that holds a lambda as data the delegate inside counts.
    cases hquoted : need.quoted? with
    | none =>
      rw [hquoted, Option.getD_none] at h
      exact .inl h
    | some delegate =>
      rw [hquoted, Option.getD_some] at h
      exact .inr (h ▸ Ty.quoted?_eq_some.mp hquoted)
  · intro h
    rcases h with rfl | rfl
    · rw [Ty.quoted?_func, Option.getD_none]
    · rw [Ty.quoted?_expression, Option.getD_some]

/-- What retyping makes of an argument, which is left alone unless the call is generic. -/
def Retyped (generic : Bool) (need : Ty) (x y : Expr) : Prop :=
  if generic then coerceTree need x = .ok y else y = x

/-- What becomes of a tree by retyping is a tree, whether there is any retyping or not. -/
theorem tree_of_retyped {generic : Bool} (hx : x.tree = x) (h : Retyped generic need x y) :
    y.tree = y := by
  cases generic with
  | true => exact tree_of_coerceTree h
  | false =>
    obtain rfl : y = x := h
    exact hx

/-- An argument keeps its kind, retyped or not. -/
theorem kind_of_retyped {generic : Bool} (h : Retyped generic need x y) : y.kind = x.kind := by
  cases generic with
  | true => exact kind_of_coerceTree h
  | false =>
    obtain rfl : y = x := h
    rfl

/-- Exactly lambdas are retyped to lambdas. -/
theorem isLambda_of_retyped {generic : Bool} (h : Retyped generic need x y) :
    y.isLambda = true ↔ x.isLambda = true := by
  rw [Expr.isLambda_iff_kind, Expr.isLambda_iff_kind, kind_of_retyped h]

/-- Retyping reaches a lambda through its quotation. -/
theorem retyped_quoted_iff {generic : Bool} (hx : x.isLambda = true) :
    Retyped generic need (quoted x) y ↔ ∃ l, Retyped generic need x l ∧ y = quoted l := by
  cases generic with
  | true =>
    rw [Retyped, if_pos rfl, quoted, coerceTree_unary_eq_ok]
    constructor
    · intro h
      -- What is quoted is a lambda still, so that the quotation has its type again.
      obtain ⟨l, t, hl, ht, rfl⟩ := h
      have hretyped : Retyped true need x l := hl
      have hlambda : l.isLambda = true := (isLambda_of_retyped hretyped).mpr hx
      rw [unaryType, if_pos hlambda] at ht
      obtain rfl := Except.ok.inj ht
      exact ⟨l, hl, rfl⟩
    · intro h
      obtain ⟨l, hl, rfl⟩ := h
      have hlambda : l.isLambda = true := (isLambda_of_retyped hl).mpr hx
      exact ⟨l, _, hl, by rw [unaryType, if_pos hlambda], rfl⟩
  | false =>
    constructor
    · intro h
      exact ⟨x, rfl, h⟩
    · intro h
      obtain ⟨l, hl, rfl⟩ := h
      obtain rfl : l = x := hl
      rfl

/-- As many trees as there are types are retyped one by one. -/
theorem along_coerceTrees {xs ys : List Expr} {needs : List Ty} :
    (xs.length = needs.length ∧ coerceTrees xs needs = .ok ys) ↔
      Along (Retyped true) needs xs ys := by
  -- Retyping stops with the shorter list, which is why the lengths are asked for.
  induction xs generalizing needs ys with
  | nil =>
    constructor
    · intro h
      obtain ⟨hlen, h⟩ := h
      obtain rfl := List.length_eq_zero_iff.mp hlen.symm
      obtain rfl : [] = ys := Except.ok.inj h
      exact .nil
    · intro h
      cases h
      exact ⟨rfl, rfl⟩
  | cons x xs ih =>
    cases needs with
    | nil =>
      constructor
      · intro h
        cases h.1
      · intro h
        cases h
    | cons need needs =>
      simp only [coerceTrees, except_bind_eq_ok, List.length_cons, Nat.succ.injEq]
      constructor
      · intro h
        obtain ⟨hlen, first, hfirst, rest, hrest, h⟩ := h
        obtain rfl := Except.ok.inj h
        exact .cons hfirst (ih.mp ⟨hlen, hrest⟩)
      · intro h
        cases h with
        | cons h hs =>
          obtain ⟨hlen, hrest⟩ := ih.mpr hs
          exact ⟨hlen, _, h, _, hrest, rfl⟩

/-- The arguments of a generic call are retyped exactly if there are as many as parameters and each
    can be. -/
theorem coerceArguments_eq_ok {method : String} {xs ys : List Expr} {needs : List Ty} :
    coerceArguments method xs needs = .ok ys ↔ Along (Retyped true) needs xs ys := by
  rw [← along_coerceTrees, coerceArguments]
  split
  · rename_i hlen
    simp [hlen]
  · rename_i hlen
    simp [hlen, throw, throwThe, MonadExceptOf.throw]

/-- Without retyping, arguments stay, and only their number counts. -/
theorem along_retyped_false {xs ys : List Expr} {needs : List Ty} :
    Along (Retyped false) needs xs ys ↔ needs.length = xs.length ∧ ys = xs := by
  constructor
  · intro h
    induction h with
    | nil => exact ⟨rfl, rfl⟩
    | cons h _ ih => exact ⟨congrArg Nat.succ ih.1, by rw [ih.2, show _ = _ from h]⟩
  · intro h
    obtain ⟨hlen, rfl⟩ := h
    induction ys generalizing needs with
    | nil =>
      obtain rfl := List.length_eq_zero_iff.mp hlen
      exact .nil
    | cons y ys ih =>
      cases needs with
      | nil => cases hlen
      | cons need needs => exact .cons rfl (ih (Nat.succ.inj hlen))

end Build

/-! ## What the recursion makes of a node -/

/-- A parameter as a pass leaves it, without an identity. -/
def Parameter.retargeted (s : Substitution) (p : Parameter) : Parameter :=
  ⟨0, s.resolve p.ty, p.name, p.byRef⟩

namespace Expr

variable {s : Substitution} {cat : Catalog} {x : Expr}

/-- The recursion over trees makes `x` of `e`. -/
def Becomes (s : Substitution) (cat : Catalog) (e x : Expr) : Prop :=
  retargetTree s cat e = .ok x

/-- A pass over a node of an arena succeeds with what the recursion over trees makes of it. -/
theorem becomes_iff_run {a : Arena} {e : Expr} (he : e ∈ a.nodes) :
    Becomes s cat e x ↔
      ∃ e' st, Pass.run s cat a.supply e = ⟨.ok e', st⟩ ∧ e'.tree = x := by
  rw [Becomes, ← map_tree_result s cat he]
  rcases Pass.run s cat a.supply e with ⟨result, st⟩
  cases result with
  | error err => simp [Except.map]
  | ok e' => simp [Except.map]

/-- What stands in the place of an argument: it is walked over, retyped if the call is generic, and
    quoted if it has to be. -/
def ArgumentBecomes (s : Substitution) (cat : Catalog) (generic : Bool) (need : Ty)
    (e z : Expr) : Prop :=
  ∃ x, Becomes s cat e x ∧ ∃ y, Build.Retyped generic need x y ∧ Build.Taken need y z

/-- What becomes of an expression is a tree. -/
theorem Becomes.tree_eq {e : Expr} (h : Becomes s cat e x) : x.tree = x := by
  unfold Becomes at h
  -- The last step of the recursion builds a node in isolation.
  cases e with
  | call id receiver method args ty =>
    simp only [retargetTree, Build.except_bind_eq_ok] at h
    obtain ⟨args', -, receiver', -, h⟩ := h
    split at h
    · obtain ⟨args'', -, h⟩ := Build.except_bind_eq_ok.mp h
      exact Build.tree_of_made h
    · exact Build.tree_of_made h
  | lambda id delegate name tailCall params body =>
    simp only [retargetTree, Build.except_bind_eq_ok] at h
    obtain ⟨body', -, h⟩ := h
    exact Build.tree_of_made h
  | parameter p =>
    obtain rfl := Except.ok.inj ((retargetTree_of_isLeaf rfl).symm.trans h)
    rfl
  | member id object m =>
    simp only [retargetTree, Build.except_bind_eq_ok] at h
    obtain ⟨object', -, m', -, h⟩ := h
    exact Build.tree_of_made h
  | constant id v =>
    obtain rfl := Except.ok.inj ((retargetTree_of_isLeaf rfl).symm.trans h)
    rfl
  | unary id op operand ty method =>
    simp only [retargetTree, Build.except_bind_eq_ok] at h
    obtain ⟨operand', -, h⟩ := h
    exact Build.tree_of_made h
  | binary id op left right lifted method conversion ty =>
    simp only [retargetTree, Build.except_bind_eq_ok] at h
    obtain ⟨left', -, right', -, conversion', -, h⟩ := h
    exact Build.tree_of_made h
  | conditional id test ifTrue ifFalse ty => cases h
  | invoke id target args ty => cases h
  | default id ty => cases h

/-- The recursion over an optional part succeeds as that over the part does. -/
theorem retargetTreeOption_eq_ok {o o' : Option Expr} :
    retargetTreeOption s cat o = .ok o' ↔ Option.Rel (Becomes s cat) o o' := by
  cases o with
  | none =>
    constructor
    · intro h
      obtain rfl : none = o' := Except.ok.inj h
      exact .none
    · intro h
      cases h
      rfl
  | some e =>
    rw [retargetTreeOption, Build.except_bind_eq_ok]
    constructor
    · intro h
      obtain ⟨x, hx, h⟩ := h
      obtain rfl := Except.ok.inj h
      exact .some hx
    · intro h
      cases h with
      | some h => exact ⟨_, h, rfl⟩

/-- The recursion over parts in a row succeeds place by place. -/
theorem retargetTrees_eq_ok {es xs : List Expr} :
    retargetTrees s cat es = .ok xs ↔ List.Forall₂ (Becomes s cat) es xs := by
  induction es generalizing xs with
  | nil =>
    constructor
    · intro h
      obtain rfl : [] = xs := Except.ok.inj h
      exact .nil
    · intro h
      cases h
      rfl
  | cons e es ih =>
    simp only [retargetTrees, Build.except_bind_eq_ok]
    constructor
    · intro h
      obtain ⟨first, hfirst, rest, hrest, h⟩ := h
      obtain rfl := Except.ok.inj h
      exact .cons hfirst (ih.mp hrest)
    · intro h
      cases h with
      | cons h hs => exact ⟨_, h, _, ih.mpr hs, rfl⟩

/-- What becomes of an optional part is a tree, if anything. -/
theorem option_tree_eq {o o' : Option Expr} (h : Option.Rel (Becomes s cat) o o') :
    o'.map tree = o' := by
  cases h with
  | none => rfl
  | some h => exact congrArg some h.tree_eq

/-- What becomes of parts in a row are trees. -/
theorem trees_eq {es xs : List Expr} (h : List.Forall₂ (Becomes s cat) es xs) :
    xs.map tree = xs := by
  induction h with
  | nil => rfl
  | cons h _ ih => rw [List.map_cons, h.tree_eq, ih]

/-- Trees in a row stay trees by retyping. -/
theorem retyped_trees_eq {generic : Bool} {needs : List Ty} {xs ys : List Expr}
    (hxs : xs.map tree = xs) (h : Along (Build.Retyped generic) needs xs ys) :
    ys.map tree = ys := by
  induction h with
  | nil => rfl
  | cons h _ ih =>
    obtain ⟨hx, hxs⟩ := List.cons.inj hxs
    rw [List.map_cons, Build.tree_of_retyped hx h, ih hxs]

/-- A leaf becomes its replacement, and nothing else. -/
theorem becomes_leaf {e : Expr} (h : e.isLeaf = true) :
    Becomes s cat e x ↔ x = e.replacement s 0 := by
  rw [Becomes, retargetTree_of_isLeaf h]
  exact ⟨fun h => (Except.ok.inj h).symm, fun h => congrArg Except.ok h.symm⟩

/-- A lambda becomes one over the retargeted parameters and what becomes of its body, with the
    inferred type. -/
theorem becomes_lambda {id : Nat} {delegate : Ty} {name : Option String} {tailCall : Bool}
    {params : List Parameter} {body : Expr} :
    Becomes s cat (.lambda id delegate name tailCall params body) x ↔
      ∃ body', Becomes s cat body body' ∧
        x = .lambda 0 (Ty.func (params.map fun p => s.resolve p.ty) body'.ty) name tailCall
          (params.map (Parameter.retargeted s)) body' := by
  -- The parameters that stand for the old ones are nodes over trees already.
  have hmade : ∀ body' : Expr, (Build.lambda body' name tailCall
      (params.map fun p => replacement s 0 (.parameter p))).made =
      .ok (.lambda 0 (Ty.func (params.map fun p => s.resolve p.ty) body'.ty) name tailCall
        (params.map (Parameter.retargeted s)) body'.tree) := by
    intro body'
    have h := Build.made_lambda body' name tailCall (params.map (Parameter.retargeted s))
    simp only [List.map_map] at h
    exact h
  rw [Becomes, retargetTree, Build.except_bind_eq_ok]
  simp only [hmade, Except.ok.injEq]
  constructor
  · intro h
    obtain ⟨body', hbody, rfl⟩ := h
    exact ⟨body', hbody, by rw [Becomes.tree_eq hbody]⟩
  · intro h
    obtain ⟨body', hbody, rfl⟩ := h
    exact ⟨body', hbody, by rw [hbody.tree_eq]⟩

/-- The access of a member becomes that of the resolved member, if the object fits. -/
theorem becomes_member {id : Nat} {object : Option Expr} {m : Member} :
    Becomes s cat (.member id object m) x ↔
      ∃ object' m', Option.Rel (Becomes s cat) object object' ∧ s.resolveMember cat m = .ok m' ∧
        Build.memberFault? object' m' = none ∧ x = .member 0 object' m' := by
  simp only [Becomes, retargetTree, Build.except_bind_eq_ok, Build.made_member_eq_ok,
    retargetTreeOption_eq_ok]
  constructor
  · intro h
    obtain ⟨object', hobject, m', hm, hfault, rfl⟩ := h
    exact ⟨object', m', hobject, hm, hfault, by rw [option_tree_eq hobject]⟩
  · intro h
    obtain ⟨object', m', hobject, hm, hfault, rfl⟩ := h
    exact ⟨object', hobject, m', hm, hfault, by rw [option_tree_eq hobject]⟩

/-- A unary node becomes one over what becomes of its operand, if its type can be derived. -/
theorem becomes_unary {id : Nat} {op : UnaryOp} {operand : Expr} {ty : Ty}
    {method : Option MethodRef} :
    Becomes s cat (.unary id op operand ty method) x ↔
      ∃ operand' t, Becomes s cat operand operand' ∧
        Build.unaryType op operand' (if op = .quote then ty else s.resolve ty)
          (method.map s.rebind) = .ok t ∧
        x = .unary 0 op operand' t (method.map s.rebind) := by
  simp only [Becomes, retargetTree, Build.except_bind_eq_ok, Build.made_unary_eq_ok]
  constructor
  · intro h
    obtain ⟨operand', hoperand, t, ht, rfl⟩ := h
    exact ⟨operand', t, hoperand, ht, by rw [Becomes.tree_eq hoperand]⟩
  · intro h
    obtain ⟨operand', t, hoperand, ht, rfl⟩ := h
    exact ⟨operand', hoperand, t, ht, by rw [Becomes.tree_eq hoperand]⟩

/-- A binary node becomes one over what becomes of its operands and its conversion, if these fit. -/
theorem becomes_binary {id : Nat} {op : BinaryOp} {left right : Expr} {lifted : Bool}
    {method : Option MethodRef} {conversion : Option Expr} {ty : Ty} :
    Becomes s cat (.binary id op left right lifted method conversion ty) x ↔
      ∃ left' right' conversion' t, Becomes s cat left left' ∧ Becomes s cat right right' ∧
        Option.Rel (Becomes s cat) conversion conversion' ∧
        Build.conversionFault? op conversion' = none ∧
        Build.binaryType op left'.ty right'.ty lifted (method.map s.rebind) = .ok t ∧
        x = .binary 0 op left' right' lifted (method.map s.rebind) conversion' t := by
  simp only [Becomes, retargetTree, Build.except_bind_eq_ok, Build.made_binary_eq_ok,
    retargetTreeOption_eq_ok]
  constructor
  · intro h
    obtain ⟨left', hleft, right', hright, conversion', hconversion, hfault, t, ht, rfl⟩ := h
    exact ⟨left', right', conversion', t, hleft, hright, hconversion, hfault, ht, by
      rw [Becomes.tree_eq hleft, Becomes.tree_eq hright, option_tree_eq hconversion]⟩
  · intro h
    obtain ⟨left', right', conversion', t, hleft, hright, hconversion, hfault, ht, rfl⟩ := h
    exact ⟨left', hleft, right', hright, conversion', hconversion, hfault, t, ht, by
      rw [Becomes.tree_eq hleft, Becomes.tree_eq hright, option_tree_eq hconversion]⟩

/-- A call is built over the method closed anew, which changes nothing if it is not generic. -/
theorem becomes_call {id : Nat} {receiver : Option Expr} {method : MethodRef} {args : List Expr}
    {ty : Ty} :
    Becomes s cat (.call id receiver method args ty) x ↔
      ∃ receiver' args', Option.Rel (Becomes s cat) receiver receiver' ∧
        Along (ArgumentBecomes s cat method.isGeneric) (s.rebind method).parameterTypes args args' ∧
        (s.rebind method).isOpen = false ∧
        Build.receiverFault? receiver' (s.rebind method) = none ∧
        x = .call 0 receiver' (s.rebind method) args' (s.rebind method).returnType := by
  -- The steps that the arguments go through, first one by one and then for all arguments.
  have hsteps : ∀ args', Along (ArgumentBecomes s cat method.isGeneric)
      (s.rebind method).parameterTypes args args' ↔
      ∃ xs, List.Forall₂ (Becomes s cat) args xs ∧
        ∃ ys, Along (Build.Retyped method.isGeneric) (s.rebind method).parameterTypes xs ys ∧
          Along Build.Taken (s.rebind method).parameterTypes ys args' := by
    intro args'
    simp only [Along.comp_iff, Along.forall₂_iff]
    rfl
  have hbuild : ∀ {receiver' : Option Expr} {xs : List Expr},
      Option.Rel (Becomes s cat) receiver receiver' → List.Forall₂ (Becomes s cat) args xs →
      ((if method.isGeneric then do
          let ys ← Build.coerceArguments (s.rebind method).name xs (s.rebind method).parameterTypes
          (Build.call receiver' (s.rebind method) ys).made
        else (Build.call receiver' method xs).made) = .ok x ↔
        ∃ ys, Along (Build.Retyped method.isGeneric) (s.rebind method).parameterTypes xs ys ∧
          (s.rebind method).isOpen = false ∧
          Build.receiverFault? receiver' (s.rebind method) = none ∧
          ∃ zs, Along Build.Taken (s.rebind method).parameterTypes ys zs ∧
            x = .call 0 receiver' (s.rebind method) zs (s.rebind method).returnType) := by
    -- A generic call is retyped and built over the rebound method; any other is built over its own
    -- method, which rebinding keeps.
    intro receiver' xs hreceiver hxs
    have htrees := trees_eq hxs
    cases hgeneric : method.isGeneric with
    | true =>
      rw [if_pos rfl, Build.except_bind_eq_ok]
      refine exists_congr fun ys => ?_
      rw [Build.coerceArguments_eq_ok]
      refine and_congr_right fun hys => ?_
      rw [Build.made_call_eq_ok (retyped_trees_eq htrees hys), option_tree_eq hreceiver]
    | false =>
      rw [if_neg (by simp), s.rebind_eq_self hgeneric, Build.made_call_eq_ok htrees,
        option_tree_eq hreceiver]
      simp only [Build.along_retyped_false]
      constructor
      · intro h
        obtain ⟨hopen, hfault, zs, hzs, rfl⟩ := h
        exact ⟨xs, ⟨hzs.length_eq, rfl⟩, hopen, hfault, zs, hzs, rfl⟩
      · intro h
        obtain ⟨_, ⟨-, rfl⟩, h⟩ := h
        exact h
  simp only [Becomes, retargetTree, Build.except_bind_eq_ok, retargetTrees_eq_ok,
    retargetTreeOption_eq_ok, hsteps]
  constructor
  · intro h
    obtain ⟨xs, hxs, receiver', hreceiver, h⟩ := h
    obtain ⟨ys, hys, hopen, hfault, zs, hzs, rfl⟩ := (hbuild hreceiver hxs).mp h
    exact ⟨receiver', zs, hreceiver, ⟨xs, hxs, ys, hys, hzs⟩, hopen, hfault, rfl⟩
  · intro h
    obtain ⟨receiver', zs, hreceiver, ⟨xs, hxs, ys, hys, hzs⟩, hopen, hfault, rfl⟩ := h
    exact ⟨xs, hxs, receiver', hreceiver,
      (hbuild hreceiver hxs).mpr ⟨ys, hys, hopen, hfault, zs, hzs, rfl⟩⟩

/-- The recursion succeeds on no node of another kind. -/
theorem Becomes.supported {e : Expr} (h : Becomes s cat e x) : e.Supported := by
  cases e with
  | conditional id test ifTrue ifFalse ty => cases h
  | invoke id target args ty => cases h
  | default id ty => cases h
  | _ => simp [Supported, kind]

/-- A node becomes one of its kind. -/
theorem Becomes.kind_eq {e : Expr} (h : Becomes s cat e x) : x.kind = e.kind := by
  cases e with
  | call id receiver method args ty =>
    obtain ⟨_, _, -, -, -, -, rfl⟩ := becomes_call.mp h
    rfl
  | lambda id delegate name tailCall params body =>
    obtain ⟨_, -, rfl⟩ := becomes_lambda.mp h
    rfl
  | parameter p =>
    obtain rfl := (becomes_leaf rfl).mp h
    rfl
  | member id object m =>
    obtain ⟨_, _, -, -, -, rfl⟩ := becomes_member.mp h
    rfl
  | constant id v =>
    obtain rfl := (becomes_leaf rfl).mp h
    rfl
  | unary id op operand ty method =>
    obtain ⟨_, _, -, -, rfl⟩ := becomes_unary.mp h
    rfl
  | binary id op left right lifted method conversion ty =>
    obtain ⟨_, _, _, _, -, -, -, -, -, rfl⟩ := becomes_binary.mp h
    rfl
  | conditional id test ifTrue ifFalse ty => cases h
  | invoke id target args ty => cases h
  | default id ty => cases h

/-- Exactly lambdas become lambdas. -/
theorem Becomes.isLambda_iff {e : Expr} (h : Becomes s cat e x) :
    x.isLambda = true ↔ e.isLambda = true := by
  rw [isLambda_iff_kind, isLambda_iff_kind, h.kind_eq]

/-- A quotation comes through a pass around what becomes of its lambda. -/
theorem becomes_quoted_iff {y : Expr} :
    Becomes s cat (Build.quoted y) x ↔
      ∃ l, Becomes s cat y l ∧ l.isLambda = true ∧ x = Build.quoted l := by
  rw [Build.quoted, becomes_unary]
  constructor
  · intro h
    obtain ⟨l, t, hl, ht, rfl⟩ := h
    rw [Build.unaryType] at ht
    -- The quotation has a type exactly if what it is around is a lambda.
    split at ht
    · rename_i hlambda
      obtain rfl := Except.ok.inj ht
      exact ⟨l, hl, hlambda, rfl⟩
    · cases ht
  · intro h
    obtain ⟨l, hl, hlambda, rfl⟩ := h
    exact ⟨l, _, hl, by rw [Build.unaryType, if_pos hlambda], rfl⟩

/-! ## Retyping is not seen -/

/-- Only a conversion depends on the type that a unary node is given. -/
theorem unary_of_given {op : UnaryOp} {ty t : Ty} (h : op = .convert ∨ op = .typeAs → t = ty)
    (operand : Expr) (method : Option MethodRef) :
    Build.unary op operand t method = Build.unary op operand ty method := by
  cases op with
  | convert => rw [h (.inl rfl)]
  | typeAs => rw [h (.inr rfl)]
  | not | negate | quote => rfl

/-- The type of a conversion is the one that it is given. -/
theorem eq_of_unaryType {op : UnaryOp} {operand : Expr} {ty t : Ty} {method : Option MethodRef}
    (h : Build.unaryType op operand ty method = .ok t) (hop : op = .convert ∨ op = .typeAs) :
    t = ty := by
  rcases hop with rfl | rfl <;> exact (Except.ok.inj h).symm

/-- A pass derives what retyping changes, so it makes the same of a tree that was retyped. -/
theorem retargetTree_of_coerceTree {need : Ty} {y : Expr} (h : Build.coerceTree need x = .ok y) :
    retargetTree s cat y = retargetTree s cat x := by
  -- By induction over the tree, through unary nodes down to the lambda.
  induction x using childInduction generalizing y with
  | node x ih =>
    cases x with
    | lambda id delegate name tailCall params body =>
      obtain ⟨ret, -, -, rfl⟩ := Build.coerceTree_lambda_eq_ok.mp h
      -- The delegate type of a lambda is not read: only its parameters and its body are, and these
      -- are kept.
      simp only [retargetTree, retargetTree_tree, List.map_map]
      rfl
    | unary id op operand ty method =>
      obtain ⟨operand', t, hoperand, ht, rfl⟩ := Build.coerceTree_unary_eq_ok.mp h
      rw [retargetTree, retargetTree, ih operand (by simp [children]) hoperand]
      -- The type of a conversion is not derived, but retyping does not change it.
      have hgiven : ∀ operand'' : Expr,
          Build.unary op operand'' (if op = .quote then t else s.resolve t)
            (method.map s.rebind) =
          Build.unary op operand'' (if op = .quote then ty else s.resolve ty)
            (method.map s.rebind) := by
        intro operand''
        refine unary_of_given (fun hop => ?_) operand'' _
        rw [eq_of_unaryType ht hop]
      simp only [hgiven]
    | _ =>
      obtain rfl := Except.ok.inj h
      exact retargetTree_tree _

/-- A pass cannot tell whether an argument was retyped, be the call generic or not. -/
theorem retargetTree_of_retyped {generic : Bool} {need : Ty} {y : Expr}
    (h : Build.Retyped generic need x y) : retargetTree s cat y = retargetTree s cat x := by
  cases generic with
  | true => exact retargetTree_of_coerceTree h
  | false =>
    obtain rfl : y = x := h
    rfl

/-- A lambda has a delegate type when a pass has made it. -/
theorem Becomes.exists_func {e : Expr} (h : Becomes s cat e x) (hlambda : x.isLambda = true) :
    ∃ params ret, x.ty = Ty.func params ret := by
  obtain ⟨id, delegate, name, tailCall, params, body, rfl⟩ :=
    Expr.isLambda_iff.mp (h.isLambda_iff.mp hlambda)
  obtain ⟨body', -, rfl⟩ := becomes_lambda.mp h
  exact ⟨_, _, rfl⟩

end Expr

end Retarget
