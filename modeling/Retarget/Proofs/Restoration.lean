import Retarget.Proofs.Stale
import Retarget.Proofs.TreeWalk

/-!
# Passes with nothing to replace

A pass that has nothing to replace in an expression gives it back, identities aside, exactly if the
pass can derive the types of all lambdas. A pass infers the delegate type of a lambda from its
parameters and its body, and retyping restores what a parameter of a generic call wants. A lambda
that was given a wider type in any other place comes back with the inferred one, or cannot be
passed on where the wider type was wanted.

## Key results

- `Expr.Untouched`: the nodes in which a pass has nothing to replace
- `Expr.restores`: the recursion gives an expression back exactly if its lambdas fit
- `Expr.Constructed.restored_iff`: the statement for whole passes
- `Sample.widened_not_restored`: a lambda of a wider type stands in the way
-/

namespace Retarget

namespace Expr

variable {s : Substitution} {cat : Catalog} {a : Arena}

/-- Whether a pass has nothing to replace in a node itself. -/
def Untouched (s : Substitution) (cat : Catalog) : Expr → Prop
  | .parameter p => s.resolve p.ty = p.ty
  | .constant _ v => s.transform v = v
  | .member _ _ m => s.resolveMember cat m = .ok m
  | e => (∀ t, e.target? = some t → s.resolve t = t) ∧ ∀ m ∈ e.methods, s.rebind m = m

/-- A table that matches nothing in the types of a node has nothing to replace in it. -/
theorem untouched_of_avoids (htransform : s.constantTransform = none)
    (hoverride : s.memberOverride = none) {e : Expr} (h : ∀ t ∈ e.givenTypes, s.Avoids t) :
    e.Untouched s cat := by
  -- Of most nodes, the target and the methods are all that is given.
  have hother : (∀ t ∈ e.target?.toList ++ e.methods.flatMap (·.typeArgs), s.Avoids t) →
      (∀ t, e.target? = some t → s.resolve t = t) ∧ ∀ m ∈ e.methods, s.rebind m = m := by
    intro h
    refine ⟨fun t ht => ?_, fun m hm => ?_⟩
    · exact Substitution.resolve_of_avoids (h t (by simp [ht]))
    · refine MethodRef.mapTypeArgs_eq_self fun t ht => ?_
      exact Substitution.resolve_of_avoids
        (h t (List.mem_append_right _ (List.mem_flatMap.mpr ⟨m, hm, ht⟩)))
  cases e with
  | parameter p => exact Substitution.resolve_of_avoids (h p.ty (List.mem_singleton_self _))
  | member id object m =>
    refine Substitution.resolveMember_of_resolve_eq hoverride ?_
    exact Substitution.resolve_of_avoids (h m.declaringType (List.mem_singleton_self _))
  | constant id v =>
    show s.transform v = v
    rw [Substitution.transform, htransform]
  | _ => exact hother h

/-! ## Lambdas that fit -/

/-- A lambda fits if it has the delegate type that is inferred for it, and all inside its body
    fits. -/
theorem lambdasFit_lambda_iff {id : Nat} {delegate : Ty} {name : Option String} {tailCall : Bool}
    {params : List Parameter} {body : Expr} :
    LambdasFit (.lambda id delegate name tailCall params body) ↔
      delegate = Ty.func (params.map (·.ty)) body.ty ∧ body.LambdasFit := by
  constructor
  · intro h
    cases h with
    | leaf he => cases he
    | lambda hbody => exact ⟨rfl, hbody⟩
  · intro h
    obtain ⟨rfl, hbody⟩ := h
    exact .lambda hbody

/-- The access of a member fits if its object does. -/
theorem lambdasFit_member_iff {id : Nat} {object : Option Expr} {m : Member} :
    LambdasFit (.member id object m) ↔ ∀ o, object = some o → o.LambdasFit := by
  constructor
  · intro h
    cases h with
    | leaf he => cases he
    | member hobject => exact hobject
  · exact .member

/-- A unary node fits if its operand does. -/
theorem lambdasFit_unary_iff {id : Nat} {op : UnaryOp} {operand : Expr} {ty : Ty}
    {method : Option MethodRef} :
    LambdasFit (.unary id op operand ty method) ↔ operand.LambdasFit := by
  constructor
  · intro h
    cases h with
    | leaf he => cases he
    | unary hoperand => exact hoperand
  · exact .unary

/-- A binary node fits if its operands and its conversion do. -/
theorem lambdasFit_binary_iff {id : Nat} {op : BinaryOp} {left right : Expr} {lifted : Bool}
    {method : Option MethodRef} {conversion : Option Expr} {ty : Ty} :
    LambdasFit (.binary id op left right lifted method conversion ty) ↔
      left.LambdasFit ∧ right.LambdasFit ∧ ∀ c, conversion = some c → c.LambdasFit := by
  constructor
  · intro h
    cases h with
    | leaf he => cases he
    | binary hleft hright hconversion => exact ⟨hleft, hright, hconversion⟩
  · intro h
    exact .binary h.1 h.2.1 h.2.2

/-- A call fits if its receiver does, and its arguments do: on their own, or where a generic method
    wants them. -/
theorem lambdasFit_call_iff {id : Nat} {receiver : Option Expr} {method : MethodRef}
    {args : List Expr} {ty : Ty} :
    LambdasFit (.call id receiver method args ty) ↔
      (∀ r, receiver = some r → r.LambdasFit) ∧
        if method.isGeneric then List.Forall₂ ArgumentFits method.parameterTypes args
        else ∀ arg ∈ args, arg.LambdasFit := by
  constructor
  · intro h
    cases h with
    | leaf he => cases he
    | call hmethod hreceiver hargs =>
      rw [hmethod, if_neg Bool.false_ne_true]
      exact ⟨hreceiver, hargs⟩
    | genericCall hmethod hreceiver hargs =>
      rw [hmethod, if_pos rfl]
      exact ⟨hreceiver, hargs⟩
  · intro h
    obtain ⟨hreceiver, hargs⟩ := h
    -- Generic or not, as the two constructors have it.
    split at hargs
    · rename_i hmethod
      exact .genericCall hmethod hreceiver hargs
    · rename_i hmethod
      exact .call (Bool.eq_false_iff.mpr hmethod) hreceiver hargs

/-- A lambda fits where its delegate type is wanted, or the lambda as data. -/
theorem argumentFits_lambda_iff {need delegate : Ty} {id : Nat} {name : Option String}
    {tailCall : Bool} {params : List Parameter} {body : Expr} :
    ArgumentFits need (.lambda id delegate name tailCall params body) ↔
      (need = delegate ∨ need = Ty.expression delegate) ∧ body.LambdasFit := by
  constructor
  · intro h
    cases h with
    | lambda hneed hbody => exact ⟨hneed, hbody⟩
    | other hlambda _ _ => exact absurd rfl hlambda
  · intro h
    exact .lambda h.1 h.2

/-- What is wanted of a unary node is wanted of its operand. -/
theorem argumentFits_unary_iff {need : Ty} {id : Nat} {op : UnaryOp} {operand : Expr} {ty : Ty}
    {method : Option MethodRef} :
    ArgumentFits need (.unary id op operand ty method) ↔ ArgumentFits need operand := by
  constructor
  · intro h
    cases h with
    | unary hoperand => exact hoperand
    | other _ hunary _ => exact absurd rfl hunary
  · exact .unary

/-- Nothing is wanted of the other nodes. -/
theorem argumentFits_iff_of_kind {need : Ty} {e : Expr} (hlambda : e.kind ≠ .lambda)
    (hunary : e.kind ≠ .unary) : ArgumentFits need e ↔ e.LambdasFit := by
  constructor
  · intro h
    cases h with
    | lambda _ _ => exact absurd rfl hlambda
    | unary _ => exact absurd rfl hunary
    | other _ _ h => exact h
  · exact .other hlambda hunary

/-! ## What comes back -/

/-- An expression comes back from the recursion exactly if its lambdas fit, and comes back from the
    recursion and the retyping to a wanted type exactly if its lambdas fit an argument of it. -/
structure Restores (s : Substitution) (cat : Catalog) (e : Expr) : Prop where
  whole : Becomes s cat e e.tree ↔ e.LambdasFit
  argument : ∀ need, (∃ x, Becomes s cat e x ∧ Build.coerceTree need x = .ok e.tree) ↔
    ArgumentFits need e

/-- Optional parts come back exactly if they do where they are there. -/
theorem option_restores {o : Option Expr} (h : ∀ e, o = some e → Restores s cat e) :
    Option.Rel (Becomes s cat) o (o.map tree) ↔ ∀ e, o = some e → e.LambdasFit := by
  cases o with
  | none => exact ⟨fun _ _ he => (by cases he), fun _ => .none⟩
  | some e =>
    constructor
    · intro hrel
      cases hrel with
      | some he =>
        rintro _ ⟨rfl⟩
        exact (h e rfl).whole.mp he
    · intro hfit
      exact .some ((h e rfl).whole.mpr (hfit e rfl))

/-- An argument of the kind that it had is not a quotation that was added. -/
theorem eq_of_taken {need : Ty} {y e : Expr} (hkind : y.kind = e.kind)
    (h : Build.Taken need y e.tree) : y = e.tree := by
  generalize hz : e.tree = z at h
  cases h with
  | plain _ => rfl
  | quoted _ hlambda _ =>
    -- The quotation of a lambda is itself no lambda.
    have hunary : e.kind = .unary := by rw [← kind_tree, hz]; rfl
    rw [isLambda_iff_kind, hkind, hunary] at hlambda
    cases hlambda

/-- An argument comes back where its type converts: retyped by a generic call, as it is by any
    other. -/
theorem argument_restores {need : Ty} {e : Expr} (h : Restores s cat e)
    (hassign : e.ty.assignableTo need = true) :
    (ArgumentBecomes s cat true need e e.tree ↔ ArgumentFits need e) ∧
      (ArgumentBecomes s cat false need e e.tree ↔ e.LambdasFit) := by
  have htaken : Build.Taken need e.tree e.tree := .plain (by rwa [ty_tree])
  rw [← h.argument need, ← h.whole]
  -- With retyping the argument comes back through the wanted type, without it as the node is.
  refine ⟨⟨?_, ?_⟩, ⟨?_, ?_⟩⟩
  · intro hbecomes
    obtain ⟨x, hx, y, hy, htaken⟩ := hbecomes
    have hkind : y.kind = e.kind := (Build.kind_of_coerceTree hy).trans hx.kind_eq
    rw [eq_of_taken hkind htaken] at hy
    exact ⟨x, hx, hy⟩
  · intro hbecomes
    obtain ⟨x, hx, hcoerce⟩ := hbecomes
    exact ⟨x, hx, e.tree, hcoerce, htaken⟩
  · intro hbecomes
    obtain ⟨x, hx, y, hy, htaken⟩ := hbecomes
    obtain rfl : y = x := hy
    rwa [eq_of_taken hx.kind_eq htaken] at hx
  · intro hbecomes
    exact ⟨e.tree, hbecomes, e.tree, rfl, htaken⟩

/-- The arguments of a call come back exactly if their lambdas fit. -/
theorem arguments_restore (generic : Bool) {needs : List Ty} {args : List Expr}
    (h : ∀ e ∈ args, Restores s cat e) (haccepts : Accepts args needs) :
    Along (ArgumentBecomes s cat generic) needs args (args.map tree) ↔
      if generic then List.Forall₂ ArgumentFits needs args else ∀ arg ∈ args, arg.LambdasFit := by
  -- Place by place along the types that the arguments convert to.
  induction haccepts with
  | nil =>
    cases generic with
    | true => exact ⟨fun _ => .nil, fun _ => .nil⟩
    | false => exact ⟨fun _ e he => (by cases he), fun _ => .nil⟩
  | cons hassign _ ih =>
    rename_i arg need args needs _
    have harg := argument_restores (h arg List.mem_cons_self) hassign
    have hrest := ih fun e he => h e (List.mem_cons_of_mem _ he)
    have hcons : Along (ArgumentBecomes s cat generic) (need :: needs) (arg :: args)
        ((arg :: args).map tree) ↔ ArgumentBecomes s cat generic need arg arg.tree ∧
          Along (ArgumentBecomes s cat generic) needs args (args.map tree) := by
      constructor
      · intro h
        cases h with
        | cons h hs => exact ⟨h, hs⟩
      · intro h
        exact .cons h.1 h.2
    rw [hcons, hrest]
    cases generic with
    | true => simp only [if_true, harg.1, List.forall₂_cons]
    | false => simp only [Bool.false_eq_true, if_false, harg.2, List.forall_mem_cons]

/-! The nodes one kind at a time. Everything but the lambdas is rebuilt as it was, because the node
was well-typed and the pass leaves alone what is given in it. -/

/-- A leaf with nothing to replace comes back. -/
theorem leaf_restores {e : Expr} (hleaf : e.isLeaf = true) (huntouched : e.Untouched s cat) :
    Becomes s cat e e.tree ↔ e.LambdasFit := by
  -- The replacement is the leaf itself without its identity.
  have htree : e.tree = e.replacement s 0 := by
    obtain ⟨p, rfl⟩ | ⟨id, v, rfl⟩ := isLeaf_iff.mp hleaf
    · have hty : s.resolve p.ty = p.ty := huntouched
      rw [replacement, hty]
      rfl
    · have hvalue : s.transform v = v := huntouched
      rw [replacement, hvalue]
      rfl
  rw [becomes_leaf hleaf]
  exact ⟨fun _ => .leaf hleaf, fun _ => htree⟩

/-- A call whose method stays comes back exactly if its parts do. -/
theorem call_restores {id : Nat} {receiver : Option Expr} {method : MethodRef} {args : List Expr}
    {ty : Ty} (ih : ∀ c ∈ (call id receiver method args ty).children, Restores s cat c)
    (htyped : (call id receiver method args ty).TypingRule)
    (huntouched : (call id receiver method args ty).Untouched s cat) :
    Becomes s cat (call id receiver method args ty) (call id receiver method args ty).tree ↔
      (call id receiver method args ty).LambdasFit := by
  obtain ⟨hclosed, hsome, hassign, haccepts, rfl⟩ := htyped
  have hrebind : s.rebind method = method := huntouched.2 method List.mem_cons_self
  have hreceiver := option_restores (s := s) (o := receiver)
    fun r hr => ih r (by simp [children, hr])
  have hargs := arguments_restore method.isGeneric (fun x hx => ih x (by simp [children, hx]))
    haccepts
  rw [becomes_call, hrebind, lambdasFit_call_iff, ← hreceiver, ← hargs]
  constructor
  · intro h
    obtain ⟨receiver', args', hreceiver, hargs, -, -, heq⟩ := h
    simp only [tree, treeOption_eq_map, treeList_eq_map, call.injEq] at heq
    obtain ⟨-, rfl, -, rfl, -⟩ := heq
    exact ⟨hreceiver, hargs⟩
  · intro h
    -- The receiver and the method were accepted before.
    have hfault : Build.receiverFault? (receiver.map tree) method = none := by
      rw [Build.receiverFault?_of_tree method (option_map_tree_map_tree receiver)]
      exact Build.receiverFault?_eq_none.mpr ⟨hsome, hassign⟩
    exact ⟨_, _, h.1, h.2, MethodRef.isOpen_eq_false hclosed, hfault, by simp⟩

/-- The parameters of a lambda come back. -/
private theorem parameters_untouched {params : List Parameter}
    (h : ∀ p ∈ params, s.resolve p.ty = p.ty) :
    params.map (Parameter.retargeted s) = params.map (·.anonymous) ∧
      (params.map fun p => s.resolve p.ty) = params.map (·.ty) := by
  refine ⟨List.map_congr_left fun p hp => ?_, List.map_congr_left h⟩
  rw [Parameter.retargeted, h p hp]
  rfl

/-- A lambda comes back by itself exactly if it has the inferred type. -/
theorem lambda_restores {id : Nat} {delegate : Ty} {name : Option String} {tailCall : Bool}
    {params : List Parameter} {body : Expr} (ih : Restores s cat body)
    (hparams : ∀ p ∈ params, s.resolve p.ty = p.ty) :
    Becomes s cat (lambda id delegate name tailCall params body)
        (lambda id delegate name tailCall params body).tree ↔
      (lambda id delegate name tailCall params body).LambdasFit := by
  obtain ⟨hretargeted, htypes⟩ := parameters_untouched hparams
  rw [becomes_lambda, hretargeted, htypes, lambdasFit_lambda_iff, ← ih.whole]
  constructor
  · intro h
    obtain ⟨body', hbody, heq⟩ := h
    simp only [tree, lambda.injEq, true_and] at heq
    obtain ⟨rfl, rfl⟩ := heq
    exact ⟨by rw [ty_tree], hbody⟩
  · intro h
    obtain ⟨rfl, hbody⟩ := h
    exact ⟨body.tree, hbody, by rw [ty_tree]; rfl⟩

/-- A lambda that is an argument of a generic call is given its type by retyping. -/
theorem lambda_restoresAs {need : Ty} {id : Nat} {delegate : Ty} {name : Option String}
    {tailCall : Bool} {params : List Parameter} {body : Expr} (ih : Restores s cat body)
    (htyped : (lambda id delegate name tailCall params body).TypingRule)
    (hparams : ∀ p ∈ params, s.resolve p.ty = p.ty) :
    (∃ x, Becomes s cat (lambda id delegate name tailCall params body) x ∧
        Build.coerceTree need x = .ok (lambda id delegate name tailCall params body).tree) ↔
      ArgumentFits need (lambda id delegate name tailCall params body) := by
  obtain ⟨hretargeted, htypes⟩ := parameters_untouched hparams
  obtain ⟨ret, rfl, hassign⟩ := htyped
  have htypes' : (params.map (·.anonymous)).map (·.ty) = params.map (·.ty) := by
    rw [List.map_map]
    rfl
  rw [argumentFits_lambda_iff, ← Build.wantedDelegate_eq_func, ← ih.whole]
  constructor
  · intro h
    obtain ⟨x, hx, hcoerce⟩ := h
    -- The retyped lambda has the wanted type, which therefore is the old one.
    obtain ⟨body', hbody, rfl⟩ := becomes_lambda.mp hx
    obtain ⟨ret', -, -, heq⟩ := Build.coerceTree_lambda_eq_ok.mp hcoerce
    simp only [tree, lambda.injEq, true_and] at heq
    obtain ⟨hdelegate, -, htree⟩ := heq
    rw [hbody.tree_eq] at htree
    exact ⟨hdelegate.symm, htree ▸ hbody⟩
  · intro h
    obtain ⟨hwanted, hbody⟩ := h
    -- The inferred type may differ from the old one, to which retyping leads back.
    refine ⟨_, becomes_lambda.mpr ⟨body.tree, hbody, rfl⟩, ?_⟩
    rw [hretargeted]
    refine Build.coerceTree_lambda_eq_ok.mpr ⟨ret, ?_, ?_, ?_⟩
    · rw [hwanted, htypes']
    · rwa [ty_tree]
    · rw [hwanted, tree_tree, List.map_map]
      rfl

/-- The access of a member that stays comes back exactly if its object does. -/
theorem member_restores {id : Nat} {object : Option Expr} {m : Member}
    (ih : ∀ c ∈ (member id object m).children, Restores s cat c)
    (htyped : (member id object m).TypingRule)
    (huntouched : (member id object m).Untouched s cat) :
    Becomes s cat (member id object m) (member id object m).tree ↔
      (member id object m).LambdasFit := by
  have hmember : s.resolveMember cat m = .ok m := huntouched
  rw [becomes_member, lambdasFit_member_iff,
    ← option_restores (s := s) fun o ho => ih o (by simp [children, ho])]
  constructor
  · intro h
    obtain ⟨object', m', hobject, -, -, heq⟩ := h
    simp only [tree, treeOption_eq_map, member.injEq] at heq
    obtain ⟨-, rfl, -⟩ := heq
    exact hobject
  · intro h
    -- The new object is the old one up to identities, and was accepted before.
    have hfault : Build.memberFault? (object.map tree) m = none := by
      rw [Build.memberFault?_of_tree m (option_map_tree_map_tree object)]
      exact Build.memberFault?_eq_none.mpr htyped
    exact ⟨_, m, h, hmember, hfault, by simp⟩

/-- The type that a pass gives to a unary node over the operand that it had. -/
theorem unaryType_of_untouched {id : Nat} {op : UnaryOp} {operand : Expr} {ty : Ty}
    {method : Option MethodRef} (htyped : (unary id op operand ty method).TypingRule)
    (huntouched : (unary id op operand ty method).Untouched s cat) {given : Ty}
    (hgiven : op = .convert ∨ op = .typeAs → given = s.resolve ty) :
    Build.unaryType op operand.tree given (method.map s.rebind) = .ok ty ∧
      method.map s.rebind = method := by
  have hmethod : method.map s.rebind = method := by
    cases method with
    | none => rfl
    | some m => exact congrArg some (huntouched.2 m (by simp [methods]))
  refine ⟨?_, hmethod⟩
  rw [hmethod, Build.unaryType_of_tree op given method (tree_tree operand)]
  have hrule := Build.unaryType_of_unaryRule htyped
  -- Conversions are given their type, which the pass leaves alone; all others derive it.
  cases op with
  | convert => rw [hgiven (.inl rfl), huntouched.1 ty rfl]; rfl
  | typeAs => rw [hgiven (.inr rfl), huntouched.1 ty rfl]; rfl
  | not | negate | quote => exact hrule

/-- What a conversion is given is its resolved target. -/
private theorem given_of_conversion {op : UnaryOp} {ty : Ty} (hop : op = .convert ∨ op = .typeAs) :
    (if op = .quote then ty else s.resolve ty) = s.resolve ty := by
  rcases hop with rfl | rfl <;> rfl

/-- A unary node comes back exactly if its operand does. -/
theorem unary_restores {id : Nat} {op : UnaryOp} {operand : Expr} {ty : Ty}
    {method : Option MethodRef} (ih : Restores s cat operand)
    (htyped : (unary id op operand ty method).TypingRule)
    (huntouched : (unary id op operand ty method).Untouched s cat) :
    Becomes s cat (unary id op operand ty method) (unary id op operand ty method).tree ↔
      (unary id op operand ty method).LambdasFit := by
  obtain ⟨htype, hmethod⟩ := unaryType_of_untouched htyped huntouched given_of_conversion
  rw [becomes_unary, lambdasFit_unary_iff, ← ih.whole]
  constructor
  · intro h
    obtain ⟨operand', t, hoperand, -, heq⟩ := h
    simp only [tree, unary.injEq, true_and] at heq
    obtain ⟨rfl, -⟩ := heq
    exact hoperand
  · intro h
    exact ⟨operand.tree, ty, h, htype, by rw [hmethod]; rfl⟩

/-- Retyping reaches the operand, around which the node is then built as it was. -/
theorem unary_restoresAs {need : Ty} {id : Nat} {op : UnaryOp} {operand : Expr} {ty : Ty}
    {method : Option MethodRef} (ih : Restores s cat operand)
    (htyped : (unary id op operand ty method).TypingRule)
    (huntouched : (unary id op operand ty method).Untouched s cat) :
    (∃ x, Becomes s cat (unary id op operand ty method) x ∧
        Build.coerceTree need x = .ok (unary id op operand ty method).tree) ↔
      ArgumentFits need (unary id op operand ty method) := by
  rw [argumentFits_unary_iff, ← ih.argument need]
  constructor
  · intro h
    obtain ⟨x, hx, hcoerce⟩ := h
    obtain ⟨operand', t, hoperand, -, rfl⟩ := becomes_unary.mp hx
    obtain ⟨operand'', t', hcoerce', -, heq⟩ := Build.coerceTree_unary_eq_ok.mp hcoerce
    simp only [tree, unary.injEq, true_and] at heq
    obtain ⟨rfl, -⟩ := heq
    exact ⟨operand', hoperand, hcoerce'⟩
  · intro h
    obtain ⟨operand', hoperand, hcoerce⟩ := h
    -- Over the operand that is still to be retyped, the node has some type.
    obtain ⟨t, ht, hconversion⟩ := Build.exists_unaryType htyped hoperand.kind_eq
      (if op = .quote then ty else s.resolve ty) (method.map s.rebind)
    have hgiven : op = .convert ∨ op = .typeAs → t = s.resolve ty := fun hop =>
      (hconversion hop).trans (given_of_conversion hop)
    obtain ⟨htype, hmethod⟩ := unaryType_of_untouched htyped huntouched hgiven
    exact ⟨_, becomes_unary.mpr ⟨operand', t, hoperand, ht, rfl⟩,
      Build.coerceTree_unary_eq_ok.mpr ⟨operand.tree, ty, hcoerce, htype, by rw [hmethod]; rfl⟩⟩

/-- A binary node comes back exactly if its parts do. -/
theorem binary_restores {id : Nat} {op : BinaryOp} {left right : Expr} {lifted : Bool}
    {method : Option MethodRef} {conversion : Option Expr} {ty : Ty}
    (ih : ∀ c ∈ (binary id op left right lifted method conversion ty).children, Restores s cat c)
    (htyped : (binary id op left right lifted method conversion ty).TypingRule)
    (huntouched : (binary id op left right lifted method conversion ty).Untouched s cat) :
    Becomes s cat (binary id op left right lifted method conversion ty)
        (binary id op left right lifted method conversion ty).tree ↔
      (binary id op left right lifted method conversion ty).LambdasFit := by
  obtain ⟨hlambda, hrule⟩ := htyped
  have hmethod : method.map s.rebind = method := by
    cases method with
    | none => rfl
    | some m => exact congrArg some (huntouched.2 m (by simp [methods]))
  rw [becomes_binary, hmethod, lambdasFit_binary_iff, ← (ih left (by simp [children])).whole,
    ← (ih right (by simp [children])).whole,
    ← option_restores (s := s) fun c hc => ih c (by simp [children, hc])]
  constructor
  · intro h
    obtain ⟨left', right', conversion', t, hleft, hright, hconversion, -, -, heq⟩ := h
    simp only [tree, treeOption_eq_map, binary.injEq, true_and] at heq
    obtain ⟨rfl, rfl, rfl, -⟩ := heq
    exact ⟨hleft, hright, hconversion⟩
  · intro h
    obtain ⟨hleft, hright, hconversion⟩ := h
    -- The conversion is the old one up to identities, and was accepted before.
    have hfault : Build.conversionFault? op (conversion.map tree) = none := by
      rw [Build.conversionFault?_of_tree op (option_map_tree_map_tree conversion)]
      exact Build.conversionFault?_eq_none.mpr hlambda
    refine ⟨_, _, _, ty, hleft, hright, hconversion, hfault, ?_, by simp⟩
    rw [ty_tree, ty_tree]
    exact Build.binaryRule_iff.mp hrule

/-- Only what a pass handles is said to fit. -/
theorem LambdasFit.supported {e : Expr} (h : e.LambdasFit) : e.Supported := by
  cases h with
  | leaf he => cases e <;> simp_all [isLeaf, Supported, kind]
  | _ => simp [Supported, kind]

/-- A node of a kind that is not handled neither comes back nor fits. -/
theorem restores_of_not_supported {e : Expr} (h : ¬e.Supported) : Restores s cat e where
  whole := ⟨fun hbecomes => absurd hbecomes.supported h, fun hfit => absurd hfit.supported h⟩
  argument := by
    intro need
    constructor
    · intro hbecomes
      obtain ⟨x, hx, -⟩ := hbecomes
      exact absurd hx.supported h
    · intro hfit
      cases hfit with
      | lambda _ _ => exact absurd (by simp [Supported, kind]) h
      | unary _ => exact absurd (by simp [Supported, kind]) h
      | other _ _ hfit => exact absurd hfit.supported h

/-- What is neither a lambda nor a unary node comes back as an argument exactly if it does by
    itself. -/
theorem restoresAs_of_kind {need : Ty} {e : Expr} (hlambda : e.kind ≠ .lambda)
    (hunary : e.kind ≠ .unary) (h : Becomes s cat e e.tree ↔ e.LambdasFit) :
    (∃ x, Becomes s cat e x ∧ Build.coerceTree need x = .ok e.tree) ↔ ArgumentFits need e := by
  rw [argumentFits_iff_of_kind hlambda hunary, ← h]
  constructor
  · intro h
    obtain ⟨x, hx, hcoerce⟩ := h
    rw [← hx.kind_eq] at hlambda hunary
    rw [Build.coerceTree_of_kind hlambda hunary, hx.tree_eq] at hcoerce
    exact Except.ok.inj hcoerce ▸ hx
  · intro h
    refine ⟨e.tree, h, ?_⟩
    rw [← kind_tree] at hlambda hunary
    rw [Build.coerceTree_of_kind hlambda hunary, tree_tree]

/-- Of the nodes of an arena in which a pass has nothing to replace, exactly those come back whose
    lambdas fit. -/
theorem restores (e : Expr) (he : e ∈ a.nodes)
    (huntouched : ∀ n : Expr, n.Within e → n.Untouched s cat) : Restores s cat e := by
  -- By induction over parts: each node for itself, and as the argument of a call.
  induction e using childInduction with
  | node e ih =>
    have hparts : ∀ c ∈ e.children, Restores s cat c := fun c hc =>
      ih c hc (a.closed e he c hc) fun n hn => huntouched n (.part hc hn)
    have htyped := a.typed e he
    have hself := huntouched e .self
    cases e with
    | call id receiver method args ty =>
      have hwhole := call_restores hparts htyped hself
      exact ⟨hwhole, fun _ => restoresAs_of_kind (by simp [kind]) (by simp [kind]) hwhole⟩
    | lambda id delegate name tailCall params body =>
      have hbody := hparts body (by simp [children])
      have hparams : ∀ p ∈ params, s.resolve p.ty = p.ty := fun p hp =>
        huntouched (.parameter p) (.part (by simp [children, hp]) .self)
      exact ⟨lambda_restores hbody hparams, fun _ => lambda_restoresAs hbody htyped hparams⟩
    | parameter p =>
      have hwhole := leaf_restores rfl hself
      exact ⟨hwhole, fun _ => restoresAs_of_kind (by simp [kind]) (by simp [kind]) hwhole⟩
    | member id object m =>
      have hwhole := member_restores hparts htyped hself
      exact ⟨hwhole, fun _ => restoresAs_of_kind (by simp [kind]) (by simp [kind]) hwhole⟩
    | constant id v =>
      have hwhole := leaf_restores rfl hself
      exact ⟨hwhole, fun _ => restoresAs_of_kind (by simp [kind]) (by simp [kind]) hwhole⟩
    | unary id op operand ty method =>
      have hoperand := hparts operand (by simp [children])
      exact ⟨unary_restores hoperand htyped hself,
        fun _ => unary_restoresAs hoperand htyped hself⟩
    | binary id op left right lifted method conversion ty =>
      have hwhole := binary_restores hparts htyped hself
      exact ⟨hwhole, fun _ => restoresAs_of_kind (by simp [kind]) (by simp [kind]) hwhole⟩
    -- The other kinds are not handled, and nothing is said to fit.
    | conditional id test ifTrue ifFalse ty =>
      exact restores_of_not_supported (by simp [Supported, kind])
    | invoke id target args ty => exact restores_of_not_supported (by simp [Supported, kind])
    | default id ty => exact restores_of_not_supported (by simp [Supported, kind])

/-- A pass without a transformation and an override, whose table matches nothing in the types that
    are given in a graph, gives the graph back exactly if its lambdas fit: each has the delegate
    type that is inferred for it, or is an argument of a generic call whose parameter asks for the
    type that it has. -/
theorem Constructed.restored_iff {supply : Nat} {e : Expr} (h : e.Constructed supply)
    (htransform : s.constantTransform = none) (hoverride : s.memberOverride = none)
    (havoids : ∀ n : Expr, n.Within e → ∀ t ∈ n.givenTypes, s.Avoids t) :
    (∃ e', (Pass.run s cat supply e).result = .ok e' ∧ e'.tree = e.tree) ↔ e.LambdasFit := by
  obtain ⟨a, rfl, he⟩ := h.exists_arena
  have hrestores : Restores s cat e := restores e he fun n hn =>
    untouched_of_avoids htransform hoverride (havoids n hn)
  -- Coming back from the recursion is coming back from the pass, identities aside.
  rw [← hrestores.whole, Becomes, ← map_tree_result s cat he]
  cases (Pass.run s cat a.supply e).result with
  | error err => simp [Except.map]
  | ok e' => simp [Except.map]

end Expr

namespace Sample

/-- The groups do not occur in the query over items, whose lambda has a wider type than the one
    inferred for it. -/
theorem selection_avoids_groups :
    ∀ n : Expr, n.Within (selection itemFrom 7 0 5) → ∀ t ∈ n.givenTypes, groups.Avoids t := by
  intro n hn
  have hmem := mem_of_within_selection hn
  simp only [selectionHistory, List.mem_cons, List.not_mem_nil, or_false] at hmem
  rcases hmem with rfl | rfl | rfl | rfl | rfl | rfl | rfl | rfl <;> decide

/-- A table of other types gives the query back. -/
theorem selection_restored :
    groups.constantTransform = none ∧ groups.memberOverride = none ∧
      (∀ n : Expr, n.Within (selection itemFrom 7 0 5) → ∀ t ∈ n.givenTypes, groups.Avoids t) ∧
      (selection itemFrom 7 0 5).LambdasFit ∧
      ∃ e', (Pass.run groups catalog 8 (selection itemFrom 7 0 5)).result = .ok e' ∧
        e'.tree = (selection itemFrom 7 0 5).tree :=
  ⟨rfl, rfl, selection_avoids_groups, selection_lambdasFit,
    (Expr.Constructed.restored_iff (selection_built.constructed List.mem_cons_self) rfl rfl
      selection_avoids_groups).mpr selection_lambdasFit⟩

/-- The body of a lambda without parameters. -/
def truth : Expr := .constant 0 (.bool true)

/-- The lambda `() => true`, whose result is taken as an object. -/
def widened : Expr := .lambda 1 (Ty.func [] Ty.object) none false [] truth

/-- The lambda is built over its body with a delegate type that is given. -/
theorem widened_built : Built 2 [widened, truth] :=
  .extend (.typedLambda (Ty.func [] Ty.object) truth none false [])
    (.extend (.constant (.bool true)) (.start 0) (by simp [Operation.operands]) rfl)
    (by simp [Operation.operands]) rfl

/-- A lambda of a wider type does not come back from a pass that replaces nothing: the pass infers
    the type of its body as the type of the result. -/
theorem widened_not_restored :
    widened.Constructed 2 ∧ (∀ n : Expr, n.Within widened → n.Supported) ∧
      (∀ t, ({} : Substitution).Avoids t) ∧
      ¬∃ e', (Pass.run {} Catalog.empty 2 widened).result = .ok e' ∧ e'.tree = widened.tree := by
  refine ⟨widened_built.constructed List.mem_cons_self, fun n hn => ?_, fun t u _ => rfl, ?_⟩
  · have hmem : n ∈ [widened, truth] :=
      hn.mem_of_closed List.mem_cons_self (by simp [widened, truth, Expr.children])
    simp only [List.mem_cons, List.not_mem_nil, or_false] at hmem
    rcases hmem with rfl | rfl <;> decide
  · rintro ⟨e', hrun, htree⟩
    -- The pass succeeds, with the delegate type that is inferred.
    have hresult : (Pass.run {} Catalog.empty 2 widened).result =
        .ok (.lambda 3 (Ty.func [] Ty.bool) none false [] (.constant 2 (.bool true))) := rfl
    rw [hresult] at hrun
    obtain rfl := Except.ok.inj hrun
    have hdelegate : Ty.func [] Ty.bool = Ty.func [] Ty.object := (Expr.lambda.inj htree).2.1
    revert hdelegate
    decide

end Sample

end Retarget
