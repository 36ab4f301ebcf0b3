import Retarget.Proofs.Pointwise
import Retarget.Proofs.Resolution
import Retarget.Proofs.Simulation

/-!
# Compatible passes succeed

A pass succeeds, and gives every node the resolved form of the type it had, when the table keeps
the shape of types and what the catalog, the methods and the constants say agrees with it. The
lambdas need most care: a pass infers their types anew, so that a lambda has to have the inferred
type unless it is an argument of a generic call, where retyping restores the type that the
parameter wants.

## Key results

- `Expr.Fits`, `Expr.LambdasFit`: what an expression has to satisfy
- `Expr.TypesMapped`: same paths, same kinds and resolved types
- `Build.call_mapped`: a call can be built over parts of resolved types
- `Expr.retarget_progress`: every walk succeeds
- `Expr.Constructed.run_succeeds`: the statement for whole passes
-/

namespace Retarget

/-- A method whose signature over resolved type arguments is its resolved signature. -/
structure Substitution.Carries (s : Substitution) (m : MethodRef) : Prop where
  parameterTypes : (s.rebind m).parameterTypes = m.parameterTypes.map s.resolve
  returnType : (s.rebind m).returnType = s.resolve m.returnType
  declaringType : s.resolve m.declaringType = m.declaringType

namespace Expr

/-! ## Expressions that can be retargeted -/

/-- The methods that a node itself refers to. -/
def methods : Expr → List MethodRef
  | .call _ _ method _ _ => [method]
  | .unary _ _ _ _ method => method.toList
  | .binary _ _ _ _ _ method _ _ => method.toList
  | _ => []

/-- What a pass needs of the nodes of an expression, lambdas apart: their kinds are handled, their
    members and methods have counterparts of the resolved types, and so have their constants. -/
structure Fits (s : Substitution) (cat : Catalog) (e : Expr) : Prop where
  supported : ∀ n : Expr, n.Within e → n.Supported
  members : ∀ id object m, (member id object m).Within e →
    ∃ m', s.resolveMember cat m = .ok m' ∧ m'.declaringType = s.resolve m.declaringType ∧
      m'.ty = s.resolve m.ty ∧ m'.isStatic = m.isStatic
  methods : ∀ n : Expr, n.Within e → ∀ m ∈ n.methods, s.Carries m
  constants : ∀ id v, (constant id v).Within e → (s.transform v).ty = s.resolve v.ty

mutual

/-- Whether a pass gives the lambdas of an expression back their types. A lambda has the type that
    is inferred for it, or stands as an argument of a generic call. -/
inductive LambdasFit : Expr → Prop where
  | leaf {e : Expr} (he : e.isLeaf = true) : LambdasFit e
  | call {id : Nat} {receiver : Option Expr} {method : MethodRef} {args : List Expr} {ty : Ty}
      (hmethod : method.isGeneric = false) (hreceiver : ∀ r, receiver = some r → LambdasFit r)
      (hargs : ∀ arg ∈ args, LambdasFit arg) : LambdasFit (.call id receiver method args ty)
  | genericCall {id : Nat} {receiver : Option Expr} {method : MethodRef} {args : List Expr}
      {ty : Ty} (hmethod : method.isGeneric = true)
      (hreceiver : ∀ r, receiver = some r → LambdasFit r)
      (hargs : List.Forall₂ ArgumentFits method.parameterTypes args) :
    LambdasFit (.call id receiver method args ty)
  | lambda {id : Nat} {name : Option String} {tailCall : Bool} {params : List Parameter}
      {body : Expr} (hbody : LambdasFit body) :
    LambdasFit (.lambda id (Ty.func (params.map (·.ty)) body.ty) name tailCall params body)
  | member {id : Nat} {object : Option Expr} {m : Member}
      (hobject : ∀ o, object = some o → LambdasFit o) : LambdasFit (.member id object m)
  | unary {id : Nat} {op : UnaryOp} {operand : Expr} {ty : Ty} {method : Option MethodRef}
      (hoperand : LambdasFit operand) : LambdasFit (.unary id op operand ty method)
  | binary {id : Nat} {op : BinaryOp} {left right : Expr} {lifted : Bool}
      {method : Option MethodRef} {conversion : Option Expr} {ty : Ty} (hleft : LambdasFit left)
      (hright : LambdasFit right) (hconversion : ∀ c, conversion = some c → LambdasFit c) :
    LambdasFit (.binary id op left right lifted method conversion ty)

/-- The same for an argument of a generic call whose parameter has a given type. A lambda, reached
    directly or through unary nodes, has that type, or the parameter wants it as data. -/
inductive ArgumentFits : Ty → Expr → Prop where
  | lambda {need delegate : Ty} {id : Nat} {name : Option String} {tailCall : Bool}
      {params : List Parameter} {body : Expr}
      (hneed : need = delegate ∨ need = Ty.expression delegate) (hbody : LambdasFit body) :
    ArgumentFits need (.lambda id delegate name tailCall params body)
  | unary {need : Ty} {id : Nat} {op : UnaryOp} {operand : Expr} {ty : Ty}
      {method : Option MethodRef} (hoperand : ArgumentFits need operand) :
    ArgumentFits need (.unary id op operand ty method)
  | other {need : Ty} {e : Expr} (hlambda : e.kind ≠ .lambda) (hunary : e.kind ≠ .unary)
      (h : LambdasFit e) : ArgumentFits need e

end

variable {s : Substitution} {cat : Catalog}

/-- What a pass needs of an expression it has in every part. -/
theorem Fits.part {e c : Expr} (h : Fits s cat e) (hc : c ∈ e.children) : Fits s cat c where
  supported := fun n hn => h.supported n (.part hc hn)
  members := fun id object m hm => h.members id object m (.part hc hm)
  methods := fun n hn => h.methods n (.part hc hn)
  constants := fun id v hv => h.constants id v (.part hc hv)

/-! ## Parts in the same places

A relation that holds between the parts of two nodes of one kind holds place by place. -/

section Places

variable {R : Expr → Expr → Prop}

/-- Calls with related receivers and arguments have related parts in all places. -/
theorem rel_child?_call {id id' : Nat} {receiver receiver' : Option Expr}
    {method method' : MethodRef} {args args' : List Expr} {ty ty' : Ty}
    (hreceiver : Option.Rel R receiver receiver') (hargs : List.Forall₂ R args args')
    (p : Position) :
    Option.Rel R ((call id receiver method args ty).child? p)
      ((call id' receiver' method' args' ty').child? p) := by
  cases p with
  | object => exact hreceiver
  | arg i => exact hargs.getElem? i
  | _ => exact .none

/-- Lambdas with related parameters and bodies have related parts in all places. -/
theorem rel_child?_lambda {id id' : Nat} {delegate delegate' : Ty} {name name' : Option String}
    {tailCall tailCall' : Bool} {params params' : List Parameter} {body body' : Expr}
    (hparams : List.Forall₂ (fun p p' => R (.parameter p) (.parameter p')) params params')
    (hbody : R body body') (p : Position) :
    Option.Rel R ((lambda id delegate name tailCall params body).child? p)
      ((lambda id' delegate' name' tailCall' params' body').child? p) := by
  cases p with
  | param i =>
    show Option.Rel _ (params[i]?.map Expr.parameter) (params'[i]?.map Expr.parameter)
    have hparam := hparams.getElem? i
    -- Parameters are looked up in their list before they count as parts.
    generalize params[i]? = q, params'[i]? = q' at hparam ⊢
    cases hparam with
    | none => exact .none
    | some h => exact .some h
  | body => exact .some hbody
  | _ => exact .none

/-- Accesses with related objects have related parts in all places. -/
theorem rel_child?_member {id id' : Nat} {object object' : Option Expr} {m m' : Member}
    (hobject : Option.Rel R object object') (p : Position) :
    Option.Rel R ((member id object m).child? p) ((member id' object' m').child? p) := by
  cases p with
  | object => exact hobject
  | _ => exact .none

/-- Unary nodes with related operands have related parts in all places. -/
theorem rel_child?_unary {id id' : Nat} {op op' : UnaryOp} {operand operand' : Expr}
    {ty ty' : Ty} {method method' : Option MethodRef} (hoperand : R operand operand')
    (p : Position) :
    Option.Rel R ((unary id op operand ty method).child? p)
      ((unary id' op' operand' ty' method').child? p) := by
  cases p with
  | operand => exact .some hoperand
  | _ => exact .none

/-- Binary nodes with related operands and conversions have related parts in all places. -/
theorem rel_child?_binary {id id' : Nat} {op op' : BinaryOp} {left left' right right' : Expr}
    {lifted lifted' : Bool} {method method' : Option MethodRef}
    {conversion conversion' : Option Expr} {ty ty' : Ty} (hleft : R left left')
    (hright : R right right') (hconversion : Option.Rel R conversion conversion')
    (p : Position) :
    Option.Rel R ((binary id op left right lifted method conversion ty).child? p)
      ((binary id' op' left' right' lifted' method' conversion' ty').child? p) := by
  cases p with
  | left => exact .some hleft
  | right => exact .some hright
  | conversion => exact hconversion
  | _ => exact .none

end Places

/-! ## Mapped types -/

/-- Two expressions with the same paths, where each node of the second has the kind and the
    resolved type of the node of the first in its place. -/
def TypesMapped (s : Substitution) (e e' : Expr) : Prop :=
  ∀ path, (e'.descend? path).map (fun n => (n.kind, n.ty)) =
    (e.descend? path).map fun n => (n.kind, s.resolve n.ty)

namespace TypesMapped

/-- The kind of the node itself, at the end of the empty path. -/
theorem kind_eq {e e' : Expr} (h : TypesMapped s e e') : e'.kind = e.kind :=
  (Prod.mk.inj (Option.some.inj (h []))).1

/-- The type of the node itself, at the end of the empty path. -/
theorem ty_eq {e e' : Expr} (h : TypesMapped s e e') : e'.ty = s.resolve e.ty :=
  (Prod.mk.inj (Option.some.inj (h []))).2

/-- A lambda is mapped to a lambda. -/
theorem isLambda {e e' : Expr} (h : TypesMapped s e e') (he : e.isLambda = true) :
    e'.isLambda = true := by
  rw [isLambda_iff_kind] at he ⊢
  exact h.kind_eq.trans he

/-- Types are mapped when those of the node and of all its parts are. -/
theorem of_parts {e e' : Expr} (hkind : e'.kind = e.kind) (hty : e'.ty = s.resolve e.ty)
    (hparts : ∀ p, Option.Rel (TypesMapped s) (e.child? p) (e'.child? p)) :
    TypesMapped s e e' := by
  intro path
  cases path with
  -- The empty path leads to the node itself.
  | nil => simp [descend?, hkind, hty]
  | cons p ps =>
    -- Both have a part at `p`, with mapped types, or neither has.
    rw [descend?, descend?]
    have hpart := hparts p
    generalize e.child? p = c, e'.child? p = c' at hpart ⊢
    cases hpart with
    | none => rfl
    | some h => exact h ps

/-- Calls of which the type and the parts are mapped. -/
theorem call {id id' : Nat} {receiver receiver' : Option Expr} {method method' : MethodRef}
    {args args' : List Expr} {ty ty' : Ty} (hty : ty' = s.resolve ty)
    (hreceiver : Option.Rel (TypesMapped s) receiver receiver')
    (hargs : List.Forall₂ (TypesMapped s) args args') :
    TypesMapped s (.call id receiver method args ty) (.call id' receiver' method' args' ty') :=
  of_parts rfl hty (rel_child?_call hreceiver hargs)

/-- Lambdas of which the type and the parts are mapped. -/
theorem lambda {id id' : Nat} {delegate delegate' : Ty} {name name' : Option String}
    {tailCall tailCall' : Bool} {params params' : List Parameter} {body body' : Expr}
    (hty : delegate' = s.resolve delegate)
    (hparams : List.Forall₂ (fun p p' => p'.ty = s.resolve p.ty) params params')
    (hbody : TypesMapped s body body') :
    TypesMapped s (.lambda id delegate name tailCall params body)
      (.lambda id' delegate' name' tailCall' params' body') := by
  have hparam : ∀ p p' : Parameter, p'.ty = s.resolve p.ty →
      TypesMapped s (.parameter p) (.parameter p') := fun _ _ h =>
    of_parts rfl h fun p => by cases p <;> exact .none
  exact of_parts rfl hty (rel_child?_lambda (hparams.imp hparam) hbody)

/-- Accesses of which the type and the object are mapped. -/
theorem member {id id' : Nat} {object object' : Option Expr} {m m' : Member}
    (hty : m'.ty = s.resolve m.ty) (hobject : Option.Rel (TypesMapped s) object object') :
    TypesMapped s (.member id object m) (.member id' object' m') :=
  of_parts rfl hty (rel_child?_member hobject)

/-- Unary nodes of which the type and the operand are mapped. -/
theorem unary {id id' : Nat} {op op' : UnaryOp} {operand operand' : Expr} {ty ty' : Ty}
    {method method' : Option MethodRef} (hty : ty' = s.resolve ty)
    (hoperand : TypesMapped s operand operand') :
    TypesMapped s (.unary id op operand ty method) (.unary id' op' operand' ty' method') :=
  of_parts rfl hty (rel_child?_unary hoperand)

/-- Binary nodes of which the type and the parts are mapped. -/
theorem binary {id id' : Nat} {op op' : BinaryOp} {left left' right right' : Expr}
    {lifted lifted' : Bool} {method method' : Option MethodRef}
    {conversion conversion' : Option Expr} {ty ty' : Ty} (hty : ty' = s.resolve ty)
    (hleft : TypesMapped s left left') (hright : TypesMapped s right right')
    (hconversion : Option.Rel (TypesMapped s) conversion conversion') :
    TypesMapped s (.binary id op left right lifted method conversion ty)
      (.binary id' op' left' right' lifted' method' conversion' ty') :=
  of_parts rfl hty (rel_child?_binary hleft hright hconversion)

/-- The replacement of a leaf has the resolved type. -/
theorem replacement {e : Expr} (hfits : Fits s cat e) (he : e.isLeaf = true) (id : Nat) :
    TypesMapped s e (e.replacement s id) := by
  obtain ⟨q, rfl⟩ | ⟨i, v, rfl⟩ := isLeaf_iff.mp he
  · exact of_parts rfl rfl fun p => by cases p <;> exact .none
  · exact of_parts rfl (hfits.constants i v .self) fun p => by cases p <;> exact .none

end TypesMapped

end Expr

/-! ## Building over mapped parts -/

/-- A method with an argument for each of its type parameters is closed. -/
theorem MethodRef.isOpen_eq_false {m : MethodRef}
    (h : m.typeArgs.length = m.definition.typeParams.length) : m.isOpen = false := by
  simp only [isOpen, isGeneric]
  cases hp : m.definition.typeParams with
  | nil => rfl
  | cons p ps =>
    cases ha : m.typeArgs with
    | nil => simp [hp, ha] at h
    | cons a as => rfl

namespace Build

open Retarget.Expr (TypesMapped)

variable {s : Substitution} {cat : Catalog}

/-- An object of the resolved type is accepted where the object was. -/
theorem accepted_of_rel (hs : s.KeepsShape) {o o' : Option Expr} {isStatic : Bool} {t t' : Ty}
    (hsome : o.isSome = true ↔ isStatic = false)
    (haccepts : ∀ r, o = some r → r.ty.assignableTo t = true)
    (hrel : Option.Rel (TypesMapped s) o o') (ht : t' = s.resolve t) :
    (o'.isSome = true ↔ isStatic = false) ∧
      ∀ r, o' = some r → r.ty.assignableTo t' = true := by
  cases hrel with
  | none => exact ⟨hsome, by simp⟩
  | some h =>
    refine ⟨hsome, ?_⟩
    rintro r ⟨rfl⟩
    rw [h.ty_eq, ht]
    exact hs.assignableTo (haccepts _ rfl)

/-- Arguments of the resolved types are accepted where the arguments were. -/
theorem accepts_resolved (hs : s.KeepsShape) {args args' : List Expr} {types : List Ty}
    (haccepts : Expr.Accepts args types) (hargs : List.Forall₂ (TypesMapped s) args args') :
    Expr.Accepts args' (types.map s.resolve) := by
  -- Induction on the arguments, along with the types that they are accepted for.
  induction hargs generalizing types with
  | nil =>
    cases haccepts
    exact .nil
  | cons h _ ih =>
    cases haccepts with
    | cons hfirst hrest =>
      refine .cons ?_ (ih hrest)
      rw [h.ty_eq]
      exact hs.assignableTo hfirst

/-- Accepted arguments are taken as they are. -/
theorem argumentsFrom_of_accepts {method : MethodRef} {index n : Nat} {args : List Expr}
    {types : List Ty} (h : Expr.Accepts args types) :
    argumentsFrom method index args types n = .ok (args, n) := by
  induction h generalizing index with
  | nil => exact argumentsFrom_nil_eq_ok.mpr ⟨rfl, rfl⟩
  | cons hfirst _ ih =>
    exact argumentsFrom_cons_eq_ok.mpr
      ⟨_, _, n, argument_eq_ok.mpr (.inl ⟨hfirst, rfl, rfl⟩), ih, rfl⟩

/-- A call can be built over parts of the resolved types. -/
theorem call_mapped (hs : s.KeepsShape) {id n : Nat} {receiver receiver' : Option Expr}
    {method : MethodRef} {args args' : List Expr} {ty : Ty}
    (htyped : (Expr.call id receiver method args ty).TypingRule) (hmethod : s.Carries method)
    (hreceiver : Option.Rel (TypesMapped s) receiver receiver')
    (hargs : List.Forall₂ (TypesMapped s) args args') :
    ∃ e' n', call receiver' (s.rebind method) args' n = .ok (e', n') ∧
      TypesMapped s (.call id receiver method args ty) e' := by
  obtain ⟨hclosed, hsome, hassign, haccepts, rfl⟩ := htyped
  -- The signature over resolved type arguments asks for the resolved types.
  have haccepts' : Expr.Accepts args' (s.rebind method).parameterTypes := by
    rw [hmethod.parameterTypes]
    exact accepts_resolved hs haccepts hargs
  refine ⟨.call n receiver' (s.rebind method) args' (s.rebind method).returnType, n + 1, ?_, ?_⟩
  · refine call_eq_ok.mpr ⟨?_, receiverFault?_eq_none.mpr ?_, haccepts'.length_eq.symm, args', n,
      argumentsFrom_of_accepts haccepts', rfl, rfl⟩
    · exact MethodRef.isOpen_eq_false (by simpa [Substitution.rebind, MethodRef.mapTypeArgs])
    · exact accepted_of_rel hs hsome hassign hreceiver hmethod.declaringType.symm
  · exact .call hmethod.returnType hreceiver hargs

/-- A unary node can be built over any operand of the same kind; a conversion has the type that it
    is given. -/
theorem exists_unaryType {op : UnaryOp} {operand operand' : Expr} {ty : Ty}
    {method : Option MethodRef} (hrule : Expr.unaryRule op operand ty method)
    (hkind : operand'.kind = operand.kind) (given : Ty) (method' : Option MethodRef) :
    ∃ t, unaryType op operand' given method' = .ok t ∧
      (op = .convert ∨ op = .typeAs → t = given) := by
  cases op with
  | quote =>
    -- Only a quotation looks at the kind of its operand.
    have hlambda : operand'.isLambda = true := by
      rw [Expr.isLambda_iff_kind, hkind]
      exact Expr.isLambda_iff_kind.mp hrule.1
    exact ⟨Ty.expression operand'.ty, by simp [unaryType, hlambda], by simp⟩
  | convert => exact ⟨given, rfl, fun _ => rfl⟩
  | typeAs => exact ⟨given, rfl, fun _ => rfl⟩
  | not => cases method' <;> exact ⟨_, rfl, by simp⟩
  | negate => cases method' <;> exact ⟨_, rfl, by simp⟩

/-- Over an operand of the resolved type, a unary node has the resolved type. -/
theorem unaryType_mapped (hs : s.KeepsShape) {op : UnaryOp} {operand operand' : Expr}
    {ty given : Ty} {method : Option MethodRef} (hrule : Expr.unaryRule op operand ty method)
    (hmethod : ∀ m, method = some m → s.Carries m) (hoperand : TypesMapped s operand operand')
    (hgiven : op = .convert ∨ op = .typeAs → given = s.resolve ty) :
    unaryType op operand' given (method.map s.rebind) = .ok (s.resolve ty) := by
  cases op with
  | quote =>
    obtain ⟨hlambda, rfl⟩ := hrule
    rw [hs.plain.resolve_expression, ← hoperand.ty_eq]
    simp [unaryType, hoperand.isLambda hlambda]
  | convert => rw [unaryType, hgiven (.inl rfl)]
  | typeAs => rw [unaryType, hgiven (.inr rfl)]
  | not | negate =>
    -- Without an overload the type is that of the operand, otherwise what the method returns.
    cases method with
    | none =>
      obtain rfl : ty = operand.ty := hrule
      exact congrArg Except.ok hoperand.ty_eq
    | some m =>
      obtain rfl : ty = m.returnType := hrule
      exact congrArg Except.ok (hmethod m rfl).returnType

/-- Over operands of the resolved types, a binary node has the resolved type. -/
theorem binaryType_mapped (hs : s.KeepsShape) {op : BinaryOp} {left right ty : Ty} {lifted : Bool}
    {method : Option MethodRef} (hrule : Expr.binaryRule op left right lifted method ty)
    (hmethod : ∀ m, method = some m → s.Carries m) :
    binaryType op (s.resolve left) (s.resolve right) lifted (method.map s.rebind) =
      .ok (s.resolve ty) := by
  rw [← binaryRule_iff]
  cases method with
  | some m =>
    obtain rfl : ty = m.returnType := hrule
    exact (hmethod m rfl).returnType.symm
  | none =>
    simp only [Expr.binaryRule, Option.map_none] at hrule ⊢
    split at hrule
    · -- A `coalesce` has the type of its left operand.
      rename_i hop
      rw [if_pos hop, hrule]
    · rename_i hop
      obtain ⟨rfl, rfl⟩ := hrule
      rw [if_neg hop]
      exact ⟨rfl, (hs.operatorType op left lifted).symm⟩

end Build

namespace Expr

/-! ## The walk -/

variable {s : Substitution} {cat : Catalog} {a : Arena} {st : PassState}

/-- A walk over `e` succeeds from every faithful state, with mapped types. -/
def Succeeds (s : Substitution) (cat : Catalog) (a : Arena) (e : Expr) : Prop :=
  ∀ ⦃st : PassState⦄, st.Faithful s a →
    ∃ e' st', (retarget s cat e).Returns st e' st' ∧ TypesMapped s e e'

/-- From the identity `n` on, retyping `e'` to what is wanted of `e` succeeds with mapped types,
    and what comes back is new or `e'` itself. -/
structure AdaptsTo (s : Substitution) (need : Ty) (e e' : Expr) (n : Nat) : Prop where
  kind_eq : e'.kind = e.kind
  coerces : ∀ k, n ≤ k → ∃ e'' k', Build.coerce (s.resolve need) e' k = .ok (e'', k') ∧
    TypesMapped s e e'' ∧ (e''.id = e'.id → e'' = e')

/-- A walk over `e` succeeds from every faithful state, with something that adapts to what is
    wanted of `e`. -/
def SucceedsAs (s : Substitution) (cat : Catalog) (a : Arena) (need : Ty) (e : Expr) : Prop :=
  ∀ ⦃st : PassState⦄, st.Faithful s a →
    ∃ e' st', (retarget s cat e).Returns st e' st' ∧ AdaptsTo s need e e' st'.supply

/-- A walk over an optional part succeeds, when one over the part does. -/
theorem option_succeeds {o : Option Expr} (h : ∀ e, o = some e → Succeeds s cat a e)
    (hf : st.Faithful s a) :
    ∃ o' st', (retargetOption s cat o).Returns st o' st' ∧ Option.Rel (TypesMapped s) o o' := by
  cases o with
  | none => exact ⟨none, st, returns_option_none.mpr ⟨rfl, rfl⟩, .none⟩
  | some e =>
    obtain ⟨e', st', hrun, hmapped⟩ := h e rfl hf
    exact ⟨some e', st', returns_option_some.mpr ⟨e', hrun, rfl⟩, .some hmapped⟩

/-- A walk over a list of parts succeeds, when those over the parts do. -/
theorem list_succeeds {es : List Expr} (h : ∀ e ∈ es, Succeeds s cat a e)
    (hes : ∀ e ∈ es, e ∈ a.nodes) (hf : st.Faithful s a) :
    ∃ es' st', (retargetList s cat es).Returns st es' st' ∧
      List.Forall₂ (TypesMapped s) es es' := by
  induction es generalizing st with
  | nil => exact ⟨[], st, returns_list_nil.mpr ⟨rfl, rfl⟩, .nil⟩
  | cons e es ih =>
    obtain ⟨first, st₁, hfirst, hmapped⟩ := h e List.mem_cons_self hf
    -- The state behind the first part is faithful, so the walk can go on.
    have hfollows := retarget_follows s cat a e (hes e List.mem_cons_self) hf hfirst
    obtain ⟨rest, st₂, hrest, hmapped'⟩ := ih (fun x hx => h x (List.mem_cons_of_mem _ hx))
      (fun x hx => hes x (List.mem_cons_of_mem _ hx)) hfollows.visits.faithful
    exact ⟨first :: rest, st₂, returns_list_cons.mpr ⟨first, st₁, rest, hfirst, hrest, rfl⟩,
      .cons hmapped hmapped'⟩

/-- The arguments of a generic call are walked over and then retyped. -/
theorem arguments_succeed {needs : List Ty} {es : List Expr}
    (h : List.Forall₂ (SucceedsAs s cat a) needs es) (hes : ∀ e ∈ es, e ∈ a.nodes)
    (hf : st.Faithful s a) :
    ∃ es' st', (retargetList s cat es).Returns st es' st' ∧ es'.length = needs.length ∧
      ∀ k, st'.supply ≤ k → ∃ es'' k',
        Build.coerceEach es' (needs.map s.resolve) k = .ok (es'', k') ∧
        List.Forall₂ (TypesMapped s) es es'' := by
  induction h generalizing st with
  | nil =>
    exact ⟨[], st, returns_list_nil.mpr ⟨rfl, rfl⟩, rfl, fun k _ => ⟨[], k, rfl, .nil⟩⟩
  | cons h _ ih =>
    rename_i need e needs es _
    obtain ⟨first, st₁, hfirst, hadapts⟩ := h hf
    have hfollows := retarget_follows s cat a e (hes e List.mem_cons_self) hf hfirst
    -- All arguments are walked over before the first of them is retyped.
    obtain ⟨rest, st₂, hrest, hlen, hcoerce⟩ := ih
      (fun x hx => hes x (List.mem_cons_of_mem _ hx)) hfollows.visits.faithful
    have hsupply : st₁.supply ≤ st₂.supply := (retargetList_follows
      (fun x hx => hes x (List.mem_cons_of_mem _ hx)) hfollows.visits.faithful hrest).visits.supply
    refine ⟨first :: rest, st₂, returns_list_cons.mpr ⟨first, st₁, rest, hfirst, hrest, rfl⟩,
      by simp [hlen], fun k hk => ?_⟩
    -- Now they are retyped from the left, each from the identity behind the one before.
    obtain ⟨first', k₁, hfirst', hmapped, -⟩ := hadapts.coerces k (by omega)
    have hk₁ := Build.coerce_le hfirst'
    obtain ⟨rest', k₂, hrest', hmapped'⟩ := hcoerce k₁ (by omega)
    exact ⟨first' :: rest', k₂,
      Build.coerceEach_cons_eq_ok.mpr ⟨first', rest', k₁, hfirst', hrest', rfl⟩,
      .cons hmapped hmapped'⟩

/-- A walk over a leaf succeeds: it is replaced, or has been. -/
theorem leaf_succeeds {e : Expr} (he : e ∈ a.nodes) (hleaf : e.isLeaf = true)
    (hfits : Fits s cat e) : Succeeds s cat a e := by
  intro st hf
  cases h : st.memo.lookup? e with
  | some r =>
    -- What is remembered was made as a new replacement would be.
    refine ⟨r, st, (returns_leaf hleaf).mpr (.inl ⟨h, rfl⟩), ?_⟩
    rw [hf.eq_replacement he h]
    exact .replacement hfits hleaf r.id
  | none =>
    -- Otherwise a replacement is made and recorded.
    exact ⟨_, _, (returns_leaf hleaf).mpr (.inr ⟨h, rfl, rfl⟩),
      .replacement hfits hleaf st.supply⟩

/-- A walk over a call of a method that is not generic succeeds: the call comes back, or it is
    built anew over parts of the resolved types. -/
theorem call_succeeds (hs : s.KeepsShape) {id : Nat} {receiver : Option Expr} {method : MethodRef}
    {args : List Expr} {ty : Ty} (he : call id receiver method args ty ∈ a.nodes)
    (hgeneric : method.isGeneric = false) (hmethod : s.Carries method)
    (hreceiver : ∀ r, receiver = some r → Succeeds s cat a r)
    (hargs : ∀ arg ∈ args, Succeeds s cat a arg) :
    Succeeds s cat a (call id receiver method args ty) := by
  intro st hf
  have htyped := a.typed _ he
  have hrebind := s.rebind_eq_self hgeneric
  have hargsmem := a.args_mem he
  have hreceivermem := a.receiver_mem he
  obtain ⟨args', st₁, hrun₁, hmapped₁⟩ := list_succeeds hargs hargsmem hf
  have h₁ := retargetList_follows hargsmem hf hrun₁
  obtain ⟨receiver', st₂, hrun₂, hmapped₂⟩ := option_succeeds hreceiver h₁.visits.faithful
  have h₂ := retargetOption_follows hreceivermem h₁.visits.faithful hrun₂
  cases hsame : Build.sameOption receiver receiver' && Build.sameList args args' with
  | true =>
    refine ⟨call id receiver method args ty, st₂, returns_call.mpr ⟨args', st₁, receiver', st₂,
      hrun₁, hrun₂, .inr ⟨hgeneric, st₂.supply,
        Build.updateCall_eq_ok.mpr (.inl ⟨hsame, rfl, rfl⟩), rfl⟩⟩, ?_⟩
    -- The parts are the nodes they were, so their types are resolved as they stand.
    rw [Bool.and_eq_true] at hsame
    obtain rfl := eq_of_sameOption hreceivermem h₂.kept hsame.1
    obtain rfl := eq_of_sameList hargsmem h₁.kept hsame.2
    have hty : ty = s.resolve ty := by
      rw [htyped.2.2.2.2, ← hmethod.returnType, hrebind]
    exact .call hty hmapped₂ hmapped₁
  | false =>
    -- Some part is new, so the call is built over the new parts.
    obtain ⟨e', n, hcall, hmapped⟩ := Build.call_mapped hs (n := st₂.supply) htyped hmethod
      hmapped₂ hmapped₁
    rw [hrebind] at hcall
    exact ⟨e', _, returns_call.mpr ⟨args', st₁, receiver', st₂, hrun₁, hrun₂,
      .inr ⟨hgeneric, n, Build.updateCall_eq_ok.mpr (.inr ⟨hsame, hcall⟩), rfl⟩⟩, hmapped⟩

/-- A walk over a call of a generic method succeeds: its arguments are retyped to the resolved
    parameter types. -/
theorem genericCall_succeeds (hs : s.KeepsShape) {id : Nat} {receiver : Option Expr}
    {method : MethodRef} {args : List Expr} {ty : Ty}
    (he : call id receiver method args ty ∈ a.nodes) (hgeneric : method.isGeneric = true)
    (hmethod : s.Carries method) (hreceiver : ∀ r, receiver = some r → Succeeds s cat a r)
    (hargs : List.Forall₂ (SucceedsAs s cat a) method.parameterTypes args) :
    Succeeds s cat a (call id receiver method args ty) := by
  intro st hf
  have hargsmem := a.args_mem he
  obtain ⟨args', st₁, hrun₁, hlen, hcoerce⟩ := arguments_succeed hargs hargsmem hf
  have h₁ := retargetList_follows hargsmem hf hrun₁
  obtain ⟨receiver', st₂, hrun₂, hmapped₂⟩ := option_succeeds hreceiver h₁.visits.faithful
  have h₂ := retargetOption_follows (a.receiver_mem he) h₁.visits.faithful hrun₂
  -- The receiver is walked over before the arguments are retyped.
  obtain ⟨args'', k, hcoerced, hmapped₁⟩ := hcoerce st₂.supply h₂.visits.supply
  obtain ⟨e', n, hcall, hmapped⟩ := Build.call_mapped hs (n := k) (a.typed _ he) hmethod
    hmapped₂ hmapped₁
  rw [← hmethod.parameterTypes] at hcoerced
  refine ⟨e', _, returns_call.mpr ⟨args', st₁, receiver', st₂, hrun₁, hrun₂,
    .inl ⟨hgeneric, args'', k, n, Build.coerceAll_eq_ok.mpr ⟨?_, hcoerced⟩, hcall, rfl⟩⟩, hmapped⟩
  rw [hlen, hmethod.parameterTypes, List.length_map]

/-- What replaces the parameters of a lambda are parameters of the resolved types. -/
theorem exists_parameters {ps : List Parameter} {es : List Expr}
    (h : List.Forall₂ (TypesMapped s) (ps.map .parameter) es) :
    ∃ ps' : List Parameter, es = ps'.map .parameter ∧
      List.Forall₂ (fun p p' => p'.ty = s.resolve p.ty) ps ps' := by
  induction ps generalizing es with
  | nil =>
    cases h
    exact ⟨[], rfl, .nil⟩
  | cons p ps ih =>
    cases h with
    | cons hfirst hrest =>
      rename_i e es
      obtain ⟨ps', rfl, hps⟩ := ih hrest
      -- What has the kind of a parameter is one.
      have hkind := hfirst.kind_eq
      cases e with
      | parameter p' => exact ⟨p' :: ps', rfl, .cons hfirst.ty_eq hps⟩
      | _ => cases hkind

/-- The types of parameters that are mapped one by one. -/
theorem map_ty_eq {ps ps' : List Parameter}
    (h : List.Forall₂ (fun p p' => p'.ty = s.resolve p.ty) ps ps') :
    ps'.map (·.ty) = (ps.map (·.ty)).map s.resolve := by
  induction h with
  | nil => rfl
  | cons h _ ih => simp [h, ih]

/-- A walk over a lambda succeeds, with the type inferred for it. -/
theorem lambda_returns {id : Nat} {delegate : Ty} {name : Option String} {tailCall : Bool}
    {params : List Parameter} {body : Expr}
    (he : lambda id delegate name tailCall params body ∈ a.nodes)
    (hfits : Fits s cat (lambda id delegate name tailCall params body))
    (hbody : Succeeds s cat a body) (hf : st.Faithful s a) :
    ∃ id' params' body' st', (retarget s cat (lambda id delegate name tailCall params body)).Returns
        st (.lambda id' (Ty.func (params'.map (·.ty)) body'.ty) name tailCall params' body') st' ∧
      id' < st'.supply ∧ List.Forall₂ (fun p p' => p'.ty = s.resolve p.ty) params params' ∧
      TypesMapped s body body' := by
  have hparamsmem : ∀ x ∈ params.map parameter, x ∈ a.nodes := fun x hx =>
    a.closed _ he x (List.mem_append_left _ hx)
  -- The parameters are leaves, walked over before the body.
  have hparams : ∀ x ∈ params.map parameter, Succeeds s cat a x := by
    intro x hx
    have hleaf : x.isLeaf = true := by
      obtain ⟨p, -, rfl⟩ := List.mem_map.mp hx
      rfl
    exact leaf_succeeds (hparamsmem x hx) hleaf (hfits.part (List.mem_append_left _ hx))
  obtain ⟨es, st₁, hrun₁, hmapped₁⟩ := list_succeeds hparams hparamsmem hf
  have h₁ := retargetList_follows hparamsmem hf hrun₁
  obtain ⟨params', rfl, hparams'⟩ := exists_parameters hmapped₁
  obtain ⟨body', st₂, hrun₂, hmapped₂⟩ := hbody h₁.visits.faithful
  exact ⟨st₂.supply, params', body', { st₂ with supply := st₂.supply + 1 },
    returns_lambda.mpr ⟨_, st₁, body', st₂, st₂.supply + 1, hrun₁, hrun₂,
      Build.lambda_eq_ok.mpr ⟨params', rfl, rfl, rfl⟩, rfl⟩,
    Nat.lt_succ_self _, hparams', hmapped₂⟩

/-- A lambda of the inferred type keeps it. -/
theorem lambda_succeeds (hs : s.KeepsShape) {id : Nat} {delegate : Ty} {name : Option String}
    {tailCall : Bool} {params : List Parameter} {body : Expr}
    (he : lambda id delegate name tailCall params body ∈ a.nodes)
    (hfits : Fits s cat (lambda id delegate name tailCall params body))
    (hdelegate : delegate = Ty.func (params.map (·.ty)) body.ty) (hbody : Succeeds s cat a body) :
    Succeeds s cat a (lambda id delegate name tailCall params body) := by
  intro st hf
  obtain ⟨id', params', body', st', hrun, -, hparams, hmapped⟩ := lambda_returns he hfits hbody hf
  -- The type inferred from resolved parts is the resolved type.
  refine ⟨_, st', hrun, .lambda ?_ hparams hmapped⟩
  rw [hdelegate, hs.plain.resolve_func, map_ty_eq hparams, hmapped.ty_eq]

/-- A lambda that is an argument of a generic call is given its type by retyping. -/
theorem lambda_succeedsAs (hs : s.KeepsShape) {need delegate : Ty} {id : Nat}
    {name : Option String} {tailCall : Bool} {params : List Parameter} {body : Expr}
    (he : lambda id delegate name tailCall params body ∈ a.nodes)
    (hfits : Fits s cat (lambda id delegate name tailCall params body))
    (hneed : need = delegate ∨ need = Ty.expression delegate) (hbody : Succeeds s cat a body) :
    SucceedsAs s cat a need (lambda id delegate name tailCall params body) := by
  intro st hf
  obtain ⟨ret, rfl, hassign⟩ := a.typed _ he
  obtain ⟨id', params', body', st', hrun, hid, hparams, hmapped⟩ :=
    lambda_returns he hfits hbody hf
  -- Whichever way the parameter asks for it, the lambda has to take the resolved delegate type.
  have hwanted : Build.wantedDelegate (s.resolve need) =
      Ty.func (params'.map (·.ty)) (s.resolve ret) := by
    rw [map_ty_eq hparams, ← hs.plain.resolve_func]
    rcases hneed with rfl | rfl
    · rw [Build.wantedDelegate, hs.plain.resolve_func, Ty.quoted?_func, Option.getD_none]
    · rw [Build.wantedDelegate, hs.plain.resolve_expression, Ty.quoted?_expression,
        Option.getD_some]
  have hresolved : Ty.func (params'.map (·.ty)) (s.resolve ret) =
      s.resolve (Ty.func (params.map (·.ty)) ret) := by
    rw [map_ty_eq hparams, hs.plain.resolve_func]
  have hassign' : body'.ty.assignableTo (s.resolve ret) = true := by
    rw [hmapped.ty_eq]
    exact hs.assignableTo hassign
  refine ⟨_, st', hrun, rfl, fun k hk => ?_⟩
  -- Retyping does nothing if the body has the return type already, and widens it otherwise.
  by_cases hsame : Build.wantedDelegate (s.resolve need) =
      Ty.func (params'.map (·.ty)) body'.ty
  · refine ⟨_, k, Build.coerce_lambda_eq_ok.mpr (.inl ⟨hsame, rfl, rfl⟩),
      .lambda ?_ hparams hmapped, fun _ => rfl⟩
    rw [← hsame, hwanted, hresolved]
  · refine ⟨_, k + 1, Build.coerce_lambda_eq_ok.mpr (.inr ⟨hsame, s.resolve ret, hwanted, hassign',
      rfl, rfl⟩), .lambda ?_ hparams hmapped, fun heq => ?_⟩
    · rw [hwanted, hresolved]
    · -- A lambda that is built anew has an identity beyond that of the one retyped.
      have heq' : k = id' := heq
      omega

/-- A walk over an access succeeds, as its member has a counterpart that the object is accepted
    for. -/
theorem member_succeeds (hs : s.KeepsShape) {id : Nat} {object : Option Expr} {m : Member}
    (he : member id object m ∈ a.nodes) (hfits : Fits s cat (member id object m))
    (hobject : ∀ o, object = some o → Succeeds s cat a o) :
    Succeeds s cat a (member id object m) := by
  intro st hf
  obtain ⟨hsome, hassign⟩ := a.typed _ he
  obtain ⟨m', hm', hdeclaring, hty, hstatic⟩ := hfits.members id object m .self
  obtain ⟨object', st₁, hrun, hmapped⟩ := option_succeeds hobject hf
  -- The object is accepted for the counterpart as it was for the member.
  have haccepted := Build.accepted_of_rel hs hsome hassign hmapped hdeclaring
  rw [← hstatic] at haccepted
  exact ⟨_, _, returns_memberAccess.mpr ⟨object', st₁, m', st₁.supply + 1, hrun, hm',
    Build.member_eq_ok.mpr ⟨Build.memberFault?_eq_none.mpr haccepted, rfl, rfl⟩, rfl⟩,
    .member hty hmapped⟩

/-- A walk over a unary node succeeds, over an operand of the resolved type. -/
theorem unary_succeeds (hs : s.KeepsShape) {id : Nat} {op : UnaryOp} {operand : Expr} {ty : Ty}
    {method : Option MethodRef} (he : unary id op operand ty method ∈ a.nodes)
    (hmethod : ∀ m, method = some m → s.Carries m) (hoperand : Succeeds s cat a operand) :
    Succeeds s cat a (unary id op operand ty method) := by
  intro st hf
  obtain ⟨operand', st₁, hrun, hmapped⟩ := hoperand hf
  have hty : Build.unaryType op operand' (if op = .quote then ty else s.resolve ty)
      (method.map s.rebind) = .ok (s.resolve ty) := by
    refine Build.unaryType_mapped hs (a.typed _ he) hmethod hmapped ?_
    intro h
    rcases h with rfl | rfl <;> rfl
  exact ⟨_, _, returns_unary.mpr ⟨operand', st₁, st₁.supply + 1, hrun,
    Build.unary_eq_ok.mpr ⟨_, hty, rfl, rfl⟩, rfl⟩, .unary rfl hmapped⟩

/-- Retyping reaches a lambda through unary nodes, which then derive their types from it. -/
theorem unary_succeedsAs (hs : s.KeepsShape) {need : Ty} {id : Nat} {op : UnaryOp} {operand : Expr}
    {ty : Ty} {method : Option MethodRef} (he : unary id op operand ty method ∈ a.nodes)
    (hmethod : ∀ m, method = some m → s.Carries m)
    (hoperand : SucceedsAs s cat a need operand) :
    SucceedsAs s cat a need (unary id op operand ty method) := by
  intro st hf
  have hrule : unaryRule op operand ty method := a.typed _ he
  obtain ⟨operand', st₁, hrun, hadapts⟩ := hoperand hf
  obtain ⟨t, ht, hconversion⟩ := Build.exists_unaryType hrule hadapts.kind_eq
    (if op = .quote then ty else s.resolve ty) (method.map s.rebind)
  -- A conversion is given the resolved target; a quotation derives its type.
  have hgiven : op = .convert ∨ op = .typeAs →
      (if op = .quote then ty else s.resolve ty) = s.resolve ty := by
    intro h
    rcases h with rfl | rfl <;> rfl
  refine ⟨_, _, returns_unary.mpr ⟨operand', st₁, st₁.supply + 1, hrun,
    Build.unary_eq_ok.mpr ⟨t, ht, rfl, rfl⟩, rfl⟩, rfl, fun k hk => ?_⟩
  have hk' : st₁.supply < k := hk
  obtain ⟨operand'', k', hcoerce, hmapped, hself⟩ := hadapts.coerces k (by omega)
  have hle := Build.coerce_le hcoerce
  by_cases hsame : operand'.id = operand''.id
  · -- The operand is left alone, so its type was the resolved one already.
    obtain rfl := hself hsame.symm
    have ht' : t = s.resolve ty := Except.ok.inj
      (ht.symm.trans (Build.unaryType_mapped hs hrule hmethod hmapped hgiven))
    exact ⟨_, k', Build.coerce_unary_eq_ok.mpr ⟨_, k', hcoerce,
      Build.updateUnary_eq_ok.mpr (.inl ⟨rfl, rfl, rfl⟩)⟩, .unary ht' hmapped, fun _ => rfl⟩
  · -- The node is built around the retyped operand; a conversion keeps the type it was given.
    have ht' := Build.unaryType_mapped hs hrule hmethod hmapped
      (fun hop => (hconversion hop).trans (hgiven hop))
    refine ⟨_, k' + 1, Build.coerce_unary_eq_ok.mpr ⟨operand'', k', hcoerce,
      Build.updateUnary_eq_ok.mpr (.inr ⟨hsame, Build.unary_eq_ok.mpr ⟨_, ht', rfl, rfl⟩⟩)⟩,
      .unary rfl hmapped, fun heq => ?_⟩
    have heq' : k' = st₁.supply := heq
    omega

/-- A walk over a binary node succeeds, over operands of the resolved types. -/
theorem binary_succeeds (hs : s.KeepsShape) {id : Nat} {op : BinaryOp} {left right : Expr}
    {lifted : Bool} {method : Option MethodRef} {conversion : Option Expr} {ty : Ty}
    (he : binary id op left right lifted method conversion ty ∈ a.nodes)
    (hmethod : ∀ m, method = some m → s.Carries m) (hleft : Succeeds s cat a left)
    (hright : Succeeds s cat a right)
    (hconversion : ∀ c, conversion = some c → Succeeds s cat a c) :
    Succeeds s cat a (binary id op left right lifted method conversion ty) := by
  intro st hf
  obtain ⟨hlambda, hrule⟩ := a.typed _ he
  obtain ⟨left', st₁, hrun₁, hmapped₁⟩ := hleft hf
  have h₁ := retarget_follows s cat a left (a.closed _ he _ (by simp [children])) hf hrun₁
  obtain ⟨right', st₂, hrun₂, hmapped₂⟩ := hright h₁.visits.faithful
  have h₂ := retarget_follows s cat a right (a.closed _ he _ (by simp [children]))
    h₁.visits.faithful hrun₂
  obtain ⟨conversion', st₃, hrun₃, hmapped₃⟩ := option_succeeds hconversion h₂.visits.faithful
  -- What the conversion becomes is a lambda as it was.
  have hfault : Build.conversionFault? op conversion' = none := by
    refine Build.conversionFault?_eq_none.mpr ?_
    cases hmapped₃ with
    | none => simp
    | some h =>
      rintro c ⟨rfl⟩
      exact ⟨(hlambda _ rfl).1, h.isLambda (hlambda _ rfl).2⟩
  have hty := Build.binaryType_mapped hs hrule hmethod
  rw [← hmapped₁.ty_eq, ← hmapped₂.ty_eq] at hty
  exact ⟨_, _, returns_binary.mpr ⟨left', st₁, right', st₂, conversion', st₃, st₃.supply + 1, hrun₁,
    hrun₂, hrun₃, Build.binary_eq_ok.mpr ⟨hfault, _, hty, rfl, rfl⟩, rfl⟩,
    .binary rfl hmapped₁ hmapped₂ hmapped₃⟩

/-- What is to be shown of every expression: a walk over it succeeds, as a whole or as an argument
    of a generic call. -/
structure Progresses (s : Substitution) (cat : Catalog) (a : Arena) (e : Expr) : Prop where
  whole : e.LambdasFit → Succeeds s cat a e
  argument : ∀ need, ArgumentFits need e → SucceedsAs s cat a need e

/-- All arguments of a generic call adapt to what is wanted of them. -/
private theorem forall₂_succeedsAs {needs : List Ty} {args : List Expr}
    (h : ∀ arg ∈ args, Progresses s cat a arg) (hargs : List.Forall₂ ArgumentFits needs args) :
    List.Forall₂ (SucceedsAs s cat a) needs args := by
  induction hargs with
  | nil => exact .nil
  | cons hfirst _ ih =>
    exact .cons ((h _ List.mem_cons_self).argument _ hfirst)
      (ih fun x hx => h x (List.mem_cons_of_mem _ hx))

/-- Every walk over an expression that fits succeeds. -/
theorem retarget_progress (hs : s.KeepsShape) (e : Expr) (he : e ∈ a.nodes)
    (hfits : Fits s cat e) : Progresses s cat a e := by
  induction e using childInduction with
  | node e ih =>
    have hparts : ∀ c ∈ e.children, Progresses s cat a c := fun c hc =>
      ih c hc (a.closed e he c hc) (hfits.part hc)
    have hmethods : ∀ m ∈ e.methods, s.Carries m := hfits.methods e .self
    -- First the walk over the expression as a whole, one lemma for each kind.
    have hwhole : e.LambdasFit → Succeeds s cat a e := by
      intro h
      cases h with
      | leaf hleaf => exact leaf_succeeds he hleaf hfits
      | call hmethod hreceiver hargs =>
        exact call_succeeds hs he hmethod (hmethods _ List.mem_cons_self)
          (fun r hr => (hparts r (by simp [children, hr])).whole (hreceiver r hr))
          (fun x hx => (hparts x (List.mem_append_right _ hx)).whole (hargs x hx))
      | genericCall hmethod hreceiver hargs =>
        exact genericCall_succeeds hs he hmethod (hmethods _ List.mem_cons_self)
          (fun r hr => (hparts r (by simp [children, hr])).whole (hreceiver r hr))
          (forall₂_succeedsAs (fun x hx => hparts x (List.mem_append_right _ hx)) hargs)
      | lambda hbody =>
        exact lambda_succeeds hs he hfits rfl ((hparts _ (by simp [children])).whole hbody)
      | member hobject =>
        exact member_succeeds hs he hfits
          (fun o ho => (hparts o (by simp [children, ho])).whole (hobject o ho))
      | unary hoperand =>
        exact unary_succeeds hs he (fun m hm => hmethods m (by simp [methods, hm]))
          ((hparts _ (by simp [children])).whole hoperand)
      | binary hleft hright hconversion =>
        exact binary_succeeds hs he (fun m hm => hmethods m (by simp [methods, hm]))
          ((hparts _ (by simp [children])).whole hleft)
          ((hparts _ (by simp [children])).whole hright)
          (fun c hc => (hparts c (by simp [children, hc])).whole (hconversion c hc))
    refine ⟨hwhole, fun need h => ?_⟩
    cases h with
    | lambda hneed hbody =>
      -- Then the walk over it as an argument: lambdas are retyped, directly or through unary nodes.
      exact lambda_succeedsAs hs he hfits hneed ((hparts _ (by simp [children])).whole hbody)
    | unary hoperand =>
      exact unary_succeedsAs hs he (fun m hm => hmethods m (by simp [methods, hm]))
        ((hparts _ (by simp [children])).argument need hoperand)
    | other hlambda hunary h =>
      -- Retyping leaves everything else alone.
      intro st hf
      obtain ⟨e', st', hrun, hmapped⟩ := hwhole h hf
      rw [← hmapped.kind_eq] at hlambda hunary
      exact ⟨e', st', hrun, hmapped.kind_eq, fun k _ =>
        ⟨e', k, Build.coerce_of_kind hlambda hunary k, hmapped, fun _ => rfl⟩⟩

/-- A pass over a graph that fits its substitution succeeds. The result has the paths of the graph,
    and each of its nodes has the kind and the resolved type of the node in its place. -/
theorem Constructed.run_succeeds {supply : Nat} {e : Expr} (h : e.Constructed supply)
    (hs : s.KeepsShape) (hfits : Fits s cat e) (hlambdas : e.LambdasFit) :
    ∃ e', (Pass.run s cat supply e).result = .ok e' ∧ TypesMapped s e e' := by
  obtain ⟨a, rfl, he⟩ := h.exists_arena
  -- A pass starts from the empty memo, which is faithful.
  obtain ⟨e', st', hrun, hmapped⟩ :=
    (retarget_progress hs e he hfits).whole hlambdas (PassState.Faithful.start s a)
  exact ⟨e', congrArg Pass.Report.result (Pass.run_eq_iff.mpr hrun), hmapped⟩

end Expr

namespace Sample

/-- The table moves a class and a number, and no type that the rules single out. -/
theorem renumber_keepsShape : renumber.KeepsShape where
  plain := by decide
  reserved := by decide
  targets := by decide

/-- The nodes of the query, the quotation included. -/
theorem mem_of_within_selection {n : Expr} (h : n.Within (selection itemFrom 7 0 5)) :
    n ∈ quotation itemFrom 7 0 5 :: selectionHistory := by
  refine h.mem_of_closed (by simp [selectionHistory]) ?_
  simp [selectionHistory, Expr.children, selection, quotation, selector, comparison, identifier,
    number, source]

/-- The method of the query takes its type argument wherever it stands. -/
theorem select_carries : renumber.Carries (select itemFrom) := ⟨rfl, rfl, rfl⟩

/-- All nodes of the query can be handled. -/
theorem selection_fits : (selection itemFrom 7 0 5).Fits renumber catalog where
  supported := by
    intro n hn
    have hmem := mem_of_within_selection hn
    simp only [selectionHistory, List.mem_cons, List.not_mem_nil, or_false] at hmem
    rcases hmem with rfl | rfl | rfl | rfl | rfl | rfl | rfl | rfl <;> decide
  members := by
    intro id object m hm
    have hmem := mem_of_within_selection hm
    simp [selectionHistory, selection, quotation, selector, comparison, identifier, number,
      source] at hmem
    obtain ⟨-, -, rfl⟩ := hmem
    exact ⟨Member.property itemTo "Id" Ty.long, rfl, rfl, rfl, rfl⟩
  methods := by
    intro n hn m hm
    have hmem := mem_of_within_selection hn
    simp only [selectionHistory, List.mem_cons, List.not_mem_nil, or_false] at hmem
    rcases hmem with rfl | rfl | rfl | rfl | rfl | rfl | rfl | rfl
    · cases hm
    · exact List.mem_singleton.mp hm ▸ select_carries
    all_goals cases hm
  constants := by
    intro id v hv
    have hmem := mem_of_within_selection hv
    simp [selectionHistory, selection, quotation, selector, comparison, identifier, number,
      source] at hmem
    obtain ⟨-, rfl⟩ := hmem
    rfl

/-- The lambda of the query stands, quoted, as an argument of a generic call. -/
theorem selection_lambdasFit : (selection itemFrom 7 0 5).LambdasFit := by
  have hcomparison : (comparison itemFrom 7 0).LambdasFit :=
    .binary (.member fun o ho => Option.some.inj ho ▸ .leaf rfl) (.leaf rfl) (by simp)
  exact .genericCall rfl (by simp) (.cons (.other (by decide) (by decide) (.leaf rfl))
    (.cons (.unary (.lambda (.inr rfl) hcomparison)) .nil))

/-- A query whose lambda has a wider type than the one inferred for it. -/
theorem selection_succeeds :
    renumber.KeepsShape ∧ (selection itemFrom 7 0 5).Fits renumber catalog ∧
      (selection itemFrom 7 0 5).LambdasFit ∧
      ∃ e', (Pass.run renumber catalog 8 (selection itemFrom 7 0 5)).result = .ok e' ∧
        Expr.TypesMapped renumber (selection itemFrom 7 0 5) e' :=
  ⟨renumber_keepsShape, selection_fits, selection_lambdasFit,
    Expr.Constructed.run_succeeds (selection_built.constructed List.mem_cons_self)
      renumber_keepsShape selection_fits selection_lambdasFit⟩

end Sample

end Retarget
