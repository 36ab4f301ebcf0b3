import Mathlib.Data.List.Forall2
import Retarget.Expr.Basic

/-!
# Well-typed graphs

A node is well-typed when it obeys the typing rule of its kind, which speaks of the node and of
its direct parts. An `Arena` is a stock of nodes that is closed under parts, in which every node
is well-typed and no two nodes share an identity; all three are carried as proof fields, so that
whatever is shown to build its nodes into an arena needs no further argument.

## Key results

- `Expr.childInduction`: induction over an expression, from all its parts to the whole
- `Expr.TypingRule`: the typing rule of every kind of node
- `Arena.push`: an arena with one more node, made of nodes that it has
- `Arena.mem_of_within`: an arena holds all that is reachable from its nodes
-/

namespace Retarget

namespace Ty

/-- A type splits into a signature exactly if it is the delegate type of it. -/
theorem signature?_eq_some {t ret : Ty} {params : List Ty} :
    t.signature? = some (params, ret) ↔ t = func params ret := by
  constructor
  · intro h
    cases t with
    | named n => simp [signature?] at h
    | param n => simp [signature?] at h
    | generic d as =>
      simp only [signature?] at h
      split at h
      · -- The return type is the last argument and the parameter types are the others.
        rename_i hd
        obtain ⟨last, hlast, heq⟩ := Option.map_eq_some_iff.mp h
        obtain ⟨rfl, rfl⟩ := Prod.mk.inj heq
        obtain ⟨front, rfl⟩ := List.getLast?_eq_some_iff.mp hlast
        simp [func, hd]
      · cases h
  · rintro rfl
    exact signature?_func params ret

/-- A delegate type is not the type of a lambda as data. -/
@[simp] theorem quoted?_func (params : List Ty) (ret : Ty) : (func params ret).quoted? = none := by
  cases params with
  | nil => simp [func, quoted?]
  | cons p ps => cases ps <;> simp [func, quoted?]

/-- A lambda as data holds its delegate type as the one argument of `Expression`. -/
@[simp] theorem quoted?_expression (delegate : Ty) :
    (expression delegate).quoted? = some delegate := by
  simp [expression, quoted?]

/-- A type is that of a lambda as data exactly if it is `Expression` over the delegate type. -/
theorem quoted?_eq_some {t delegate : Ty} :
    t.quoted? = some delegate ↔ t = expression delegate := by
  constructor
  · intro h
    unfold quoted? at h
    split at h
    · rename_i d f
      split at h
      · rename_i hd
        rw [Option.some.inj h, hd, expression]
      · cases h
    · cases h
  · rintro rfl
    exact quoted?_expression delegate

/-- What a delegate type converts to: itself and `object`. -/
theorem func_assignableTo {params : List Ty} {ret target : Ty}
    (h : (func params ret).assignableTo target = true) :
    target = func params ret ∨ target = object := by
  simp only [assignableTo, Bool.or_eq_true, decide_eq_true_eq, isObject] at h
  -- The three disjuncts of the conversion: the same type, `object`, and queries to sequences.
  rcases h with (h | h) | h
  · exact .inl h.symm
  · exact .inr h
  · -- The conversion from queries to sequences does not start at a delegate type.
    cases target <;> simp [func] at h

end Ty

namespace Expr

/-! ## Parts -/

/-- Parts are smaller than the whole. -/
theorem sizeOf_lt_of_mem_children {c e : Expr} (h : c ∈ e.children) : sizeOf c < sizeOf e := by
  cases e with
  | call id receiver method args ty =>
    simp only [children, List.mem_append, Option.mem_toList] at h
    rcases h with h | h
    · subst h
      simp only [call.sizeOf_spec, Option.some.sizeOf_spec]
      omega
    · have := List.sizeOf_lt_of_mem h
      simp only [call.sizeOf_spec]
      omega
  | lambda id delegate name tailCall params body =>
    -- The parts of a lambda are its parameters, as nodes, and its body.
    simp only [children, List.mem_append, List.mem_map, List.mem_singleton] at h
    rcases h with ⟨p, hp, rfl⟩ | rfl
    · have := List.sizeOf_lt_of_mem hp
      simp only [lambda.sizeOf_spec, parameter.sizeOf_spec]
      omega
    · simp only [lambda.sizeOf_spec]
      omega
  | member id object m =>
    simp only [children, Option.mem_toList] at h
    subst h
    simp only [member.sizeOf_spec, Option.some.sizeOf_spec]
    omega
  | unary id op operand ty method =>
    simp only [children, List.mem_singleton] at h
    subst h
    simp only [unary.sizeOf_spec]
    omega
  | binary id op left right lifted method conversion ty =>
    -- Two operands, and the conversion where there is one.
    simp only [children, List.mem_cons, Option.mem_toList] at h
    rcases h with rfl | rfl | h
    · simp only [binary.sizeOf_spec]
      omega
    · simp only [binary.sizeOf_spec]
      omega
    · subst h
      simp only [binary.sizeOf_spec, Option.some.sizeOf_spec]
      omega
  | conditional id test ifTrue ifFalse ty =>
    simp only [children, List.mem_cons, List.not_mem_nil, or_false] at h
    rcases h with rfl | rfl | rfl <;> simp only [conditional.sizeOf_spec] <;> omega
  | invoke id target args ty =>
    simp only [children, List.mem_cons] at h
    rcases h with rfl | h
    · simp only [invoke.sizeOf_spec]
      omega
    · have := List.sizeOf_lt_of_mem h
      simp only [invoke.sizeOf_spec]
      omega
  | parameter p => simp [children] at h
  | constant id v => simp [children] at h
  | default id ty => simp [children] at h

/-- What passes from all parts of a node to the node holds of every expression. -/
theorem childInduction {motive : Expr → Prop}
    (node : ∀ e, (∀ c ∈ e.children, motive c) → motive e) (e : Expr) : motive e :=
  node e fun c hc =>
    have := sizeOf_lt_of_mem_children hc
    childInduction node c
termination_by sizeOf e

/-- `n` is reachable from `e`: it is `e` or a part of a part of `e`. -/
inductive Within (n : Expr) : Expr → Prop where
  | self : Within n n
  | part {c e : Expr} (hc : c ∈ e.children) (hn : Within n c) : Within n e

/-- Whatever is reachable from a node of a stock that has all parts of its nodes is in the stock. -/
theorem Within.mem_of_closed {n e : Expr} {nodes : List Expr} (h : n.Within e) (he : e ∈ nodes)
    (hclosed : ∀ e ∈ nodes, ∀ c ∈ e.children, c ∈ nodes) : n ∈ nodes := by
  -- Along the path from the node down to the part, one part at a time.
  induction h with
  | self => exact he
  | part hc _ ih => exact ih (hclosed _ he _ hc)

/-! ## Typing -/

/-- Whether each argument converts to the type that stands in its place, with no argument and no
    type left over. -/
def Accepts (args : List Expr) (types : List Ty) : Prop :=
  List.Forall₂ (fun arg t => arg.ty.assignableTo t = true) args types

/-- The type that a unary node has to have. -/
def unaryRule (op : UnaryOp) (operand : Expr) (ty : Ty) (method : Option MethodRef) : Prop :=
  match op with
  | .quote => operand.isLambda = true ∧ ty = Ty.expression operand.ty
  | .convert | .typeAs => True
  | .not | .negate =>
    match method with
    | some m => ty = m.returnType
    | none => ty = operand.ty

/-- The type of a binary node without overload over operands of one type. -/
def operatorType (op : BinaryOp) (operand : Ty) (lifted : Bool) : Ty :=
  if op.isComparison then
    if lifted && operand.isNullable then Ty.nullable Ty.bool else Ty.bool
  else if op.isLogical then Ty.bool
  else operand

/-- The type that a binary node has to have. -/
def binaryRule (op : BinaryOp) (left right : Ty) (lifted : Bool) (method : Option MethodRef)
    (ty : Ty) : Prop :=
  match method with
  | some m => ty = m.returnType
  | none =>
    if op = .coalesce then ty = right
    else left = right ∧ ty = operatorType op left lifted

/-- The typing rule of each kind of node. -/
def TypingRule : Expr → Prop
  | .call _ receiver method args ty =>
    method.typeArgs.length = method.definition.typeParams.length ∧
    (receiver.isSome = true ↔ method.isStatic = false) ∧
    (∀ r, receiver = some r → r.ty.assignableTo method.declaringType = true) ∧
    Accepts args method.parameterTypes ∧
    ty = method.returnType
  | .lambda _ delegate _ _ params body =>
    ∃ ret, delegate = Ty.func (params.map (·.ty)) ret ∧ body.ty.assignableTo ret = true
  | .parameter _ => True
  | .member _ object m =>
    (object.isSome = true ↔ m.isStatic = false) ∧
    (∀ o, object = some o → o.ty.assignableTo m.declaringType = true)
  | .constant .. => True
  | .unary _ op operand ty method => unaryRule op operand ty method
  | .binary _ op left right lifted method conversion ty =>
    (∀ c, conversion = some c → op = .coalesce ∧ c.isLambda = true) ∧
    binaryRule op left.ty right.ty lifted method ty
  | .conditional _ test ifTrue ifFalse ty =>
    test.ty = Ty.bool ∧ ifTrue.ty = ifFalse.ty ∧ ty = ifTrue.ty
  | .invoke _ target args ty =>
    ∃ types, target.ty = Ty.func types ty ∧ Accepts args types
  | .default .. => True

end Expr

/-! ## Arenas -/

/-- A stock of well-typed nodes with all their parts, told apart by identity. The identities from
    `supply` on are not in use. -/
structure Arena where
  supply : Nat
  nodes : List Expr
  closed : ∀ e ∈ nodes, ∀ c ∈ e.children, c ∈ nodes
  bounded : ∀ e ∈ nodes, e.id < supply
  coherent : ∀ a ∈ nodes, ∀ b ∈ nodes, a.id = b.id → a = b
  typed : ∀ e ∈ nodes, e.TypingRule

namespace Arena

/-- The arena without nodes. -/
def empty (supply : Nat) : Arena where
  supply := supply
  nodes := []
  closed := by simp
  bounded := by simp
  coherent := by simp
  typed := by simp

/-- The arena with a node whose identity is the next one and whose parts are there already. -/
def push (a : Arena) (e : Expr) (hid : e.id = a.supply) (hparts : ∀ c ∈ e.children, c ∈ a.nodes)
    (htyped : e.TypingRule) : Arena where
  supply := a.supply + 1
  nodes := e :: a.nodes
  closed := by
    intro n hn c hc
    rcases List.mem_cons.mp hn with rfl | hn
    · exact List.mem_cons_of_mem _ (hparts c hc)
    · exact List.mem_cons_of_mem _ (a.closed n hn c hc)
  bounded := by
    intro n hn
    rcases List.mem_cons.mp hn with rfl | hn
    · -- The new node has the identity that was next, and the supply is one further.
      omega
    · have := a.bounded n hn
      omega
  coherent := by
    intro m hm n hn h
    -- All nodes that were there have identities below the new one.
    rcases List.mem_cons.mp hm with hm | hm <;> rcases List.mem_cons.mp hn with hn | hn
    · rw [hm, hn]
    · have := a.bounded n hn
      subst hm
      omega
    · have := a.bounded m hm
      subst hn
      omega
    · exact a.coherent m hm n hn h
  typed := by
    intro n hn
    rcases List.mem_cons.mp hn with rfl | hn
    · exact htyped
    · exact a.typed n hn

/-- The arena with the same nodes when identities have been used elsewhere. -/
def advance (a : Arena) (later : Nat) (h : a.supply ≤ later) : Arena :=
  { a with
    supply := later
    bounded := fun e he => Nat.lt_of_lt_of_le (a.bounded e he) h }

/-- One arena extends another when it has all its nodes. -/
structure Extends (b a : Arena) : Prop where
  nodes : ∀ e ∈ a.nodes, e ∈ b.nodes
  supply : a.supply ≤ b.supply

theorem Extends.refl (a : Arena) : a.Extends a := ⟨fun _ h => h, Nat.le_refl _⟩

/-- Extending is transitive, so a history of many steps only has to look at each of them. -/
theorem Extends.trans {a b c : Arena} (hcb : c.Extends b) (hba : b.Extends a) : c.Extends a :=
  ⟨fun e h => hcb.nodes e (hba.nodes e h), Nat.le_trans hba.supply hcb.supply⟩

/-- One more node leaves all nodes that were there and takes one identity. -/
theorem push_extends (a : Arena) (e : Expr) (hid : e.id = a.supply)
    (hparts : ∀ c ∈ e.children, c ∈ a.nodes) (htyped : e.TypingRule) :
    (a.push e hid hparts htyped).Extends a :=
  ⟨fun _ h => List.mem_cons_of_mem _ h, Nat.le_succ _⟩

/-- Whatever is reachable from a node of an arena is in the arena. -/
theorem mem_of_within (a : Arena) {n e : Expr} (h : n.Within e) (he : e ∈ a.nodes) :
    n ∈ a.nodes :=
  h.mem_of_closed he a.closed

/-- An arena that has a call has its arguments. -/
theorem args_mem (a : Arena) {id : Nat} {receiver : Option Expr} {method : MethodRef}
    {args : List Expr} {ty : Ty} (he : .call id receiver method args ty ∈ a.nodes) :
    ∀ x ∈ args, x ∈ a.nodes :=
  fun x hx => a.closed _ he x (List.mem_append_right _ hx)

/-- An arena that has a call has its receiver. -/
theorem receiver_mem (a : Arena) {id : Nat} {receiver : Option Expr} {method : MethodRef}
    {args : List Expr} {ty : Ty} (he : .call id receiver method args ty ∈ a.nodes) :
    ∀ x, receiver = some x → x ∈ a.nodes :=
  fun x hx => a.closed _ he x (by simp [Expr.children, hx])

end Arena

end Retarget
