import Retarget.Pass.Basic
import Retarget.Proofs.Construction

/-!
# Successful passes

What the parts of a pass return and what they do to its state when they succeed. Every later
statement about a pass is derived from these equivalences, one for each kind of node, and none
looks at the definition of the walk again.

## Key results

- `Pass.Returns`: a part of a pass succeeds with a result and a state
- `Expr.returns_leaf`: a parameter or constant is found in the memo, or replaced and recorded
- `Expr.returns_call`, `Expr.returns_lambda`, ...: the walk over the other kinds of nodes
- `Pass.run_eq_iff`: a pass succeeds exactly if the walk does from the empty memo
-/

namespace Retarget

namespace Pass

/-- A part of a pass, run from `st`: what it returns or how it fails, and the state after it. -/
def exec {α : Type} (p : Pass α) (st : PassState) : Except RetargetError α × PassState :=
  Id.run (StateT.run (ExceptT.run p) st)

/-- A part of a pass, run from `st`, succeeds with `a` and leaves `st'`. -/
def Returns {α : Type} (p : Pass α) (st : PassState) (a : α) (st' : PassState) : Prop :=
  p.exec st = (.ok a, st')

variable {α β : Type} {st st' : PassState} {s : Substitution} {cat : Catalog}

/-! ## Sequences -/

/-- Running a sequence runs the rest on what the first part returns, or stops where that fails. -/
theorem exec_bind (p : Pass α) (f : α → Pass β) :
    (p >>= f).exec st =
      match p.exec st with
      | (.ok a, st₁) => (f a).exec st₁
      | (.error err, st₁) => (.error err, st₁) := by
  rcases h : p.exec st with ⟨r, st₁⟩
  -- The state is threaded below the failure, so it is there in both branches.
  simp only [exec, ExceptT.run_bind, StateT.run_bind, Id.run_bind] at h ⊢
  rw [h]
  cases r with
  | ok a => rfl
  | error err => rfl

/-- A sequence succeeds exactly if its first part does, and the rest on what that returns. -/
theorem returns_bind {p : Pass α} {f : α → Pass β} {b : β} :
    (p >>= f).Returns st b st' ↔ ∃ a st₁, p.Returns st a st₁ ∧ (f a).Returns st₁ b st' := by
  simp only [Returns, exec_bind]
  rcases p.exec st with ⟨r, st₁⟩
  cases r with
  | ok a => simp
  | error err => simp

/-- A part that returns at once leaves the state alone. -/
theorem returns_pure {a b : α} : (pure a : Pass α).Returns st b st' ↔ b = a ∧ st' = st := by
  have h : (pure a : Pass α).exec st = (.ok a, st) := rfl
  simp [Returns, h, eq_comm]

/-- A part that fails returns nothing. -/
theorem returns_throw {err : RetargetError} {a : α} :
    (throw err : Pass α).Returns st a st' ↔ False := by
  have h : (throw err : Pass α).exec st = (.error err, st) := rfl
  simp [Returns, h]

/-- What is said to the history comes at its end. -/
theorem returns_emit {ev : Event} {u : Unit} :
    (emit ev).Returns st u st' ↔ st' = { st with events := st.events ++ [ev] } := by
  have h : (emit ev).exec st = (.ok (), { st with events := st.events ++ [ev] }) := rfl
  simp [Returns, h, eq_comm]

/-- Looking at the state leaves it alone. -/
private theorem returns_get_bind {f : PassState → Pass β} {b : β} :
    (get >>= f).Returns st b st' ↔ (f st).Returns st b st' := by
  have h : (get >>= f).exec st = (f st).exec st := rfl
  simp [Returns, h]

/-- A change of the state returns nothing else. -/
private theorem returns_modify {f : PassState → PassState} {u : PUnit} :
    (modify f : Pass PUnit).Returns st u st' ↔ st' = f st := by
  have h : (modify f : Pass PUnit).exec st = (.ok (), f st) := rfl
  simp [Returns, h, eq_comm]

/-- Building a node within a pass takes identities from the supply and changes nothing else. -/
theorem returns_build {b : Build α} {a : α} :
    (build b).Returns st a st' ↔
      ∃ n, b st.supply = .ok (a, n) ∧ st' = { st with supply := n } := by
  rw [build, returns_get_bind]
  cases h : b st.supply with
  | ok r =>
    -- A success only moves the supply.
    have hexec : (set { st with supply := r.2 } >>= fun _ => pure r.1 : Pass α).exec st =
        (.ok r.1, { st with supply := r.2 }) := rfl
    show Pass.exec (set { st with supply := r.2 } >>= fun _ => pure r.1 : Pass α) st = _ ↔ _
    rw [hexec]
    simp [Prod.ext_iff, eq_comm]
  | error err => simp [returns_throw]

/-! ## Leaves -/

/-- A node that is replaced once is found in the memo, or else replaced and recorded. -/
theorem returns_once {node r : Expr} {replace : Pass Expr} :
    (once node replace).Returns st r st' ↔
      (st.memo.lookup? node = some r ∧ st' = st) ∨
      (st.memo.lookup? node = none ∧ ∃ st₁, replace.Returns st r st₁ ∧
        st' = { st₁ with memo := st₁.memo.record node r }) := by
  simp only [once, returns_get_bind]
  -- The memo decides whether the replacement is run at all.
  cases hm : st.memo.lookup? node with
  | some seen => simp [returns_pure, eq_comm]
  | none =>
    simp only [returns_bind, returns_pure, returns_modify]
    constructor
    · intro h
      obtain ⟨_, st₁, hr, _, _, rfl, rfl, rfl⟩ := h
      exact .inr ⟨trivial, st₁, hr, rfl⟩
    · intro h
      rcases h with ⟨h, -⟩ | ⟨-, st₁, hr, rfl⟩
      · cases h
      · exact ⟨r, st₁, hr, (), _, rfl, rfl, rfl⟩

/-- A parameter is found in the memo, or replaced by one of the resolved type and recorded. -/
private theorem returns_parameter {p : Parameter} {r : Expr} :
    (parameter s p).Returns st r st' ↔
      (st.memo.lookup? (.parameter p) = some r ∧ st' = st) ∨
      (st.memo.lookup? (.parameter p) = none ∧
        r = .parameter ⟨st.supply, s.resolve p.ty, p.name, p.byRef⟩ ∧
        st' = ⟨st.supply + 1, st.memo.record (.parameter p) r,
          st.events ++ [.parameterReplaced p (s.resolve p.ty)]⟩) := by
  rw [parameter, returns_once]
  -- Only the case of a new replacement says something about parameters.
  refine or_congr Iff.rfl (and_congr Iff.rfl ?_)
  simp only [returns_bind, returns_build, Build.parameter_eq_ok, returns_emit, returns_pure]
  constructor
  · intro h
    obtain ⟨_, ⟨_, _, ⟨_, ⟨rfl, rfl⟩, rfl⟩, _, _, rfl, rfl, rfl⟩, rfl⟩ := h
    exact ⟨rfl, rfl⟩
  · intro h
    obtain ⟨rfl, rfl⟩ := h
    exact ⟨_, ⟨_, _, ⟨_, ⟨rfl, rfl⟩, rfl⟩, (), _, rfl, rfl, rfl⟩, rfl⟩

/-- A constant is found in the memo, or replaced by one of the transformed value and recorded. -/
private theorem returns_constant {id : Nat} {v : Value} {r : Expr} :
    (constant s id v).Returns st r st' ↔
      (st.memo.lookup? (.constant id v) = some r ∧ st' = st) ∨
      (st.memo.lookup? (.constant id v) = none ∧
        r = .constant st.supply (s.transform v) ∧
        st' = ⟨st.supply + 1, st.memo.record (.constant id v) r,
          st.events ++ [.constantReplaced v (s.transform v)]⟩) := by
  rw [constant, returns_once]
  -- Only the case of a new replacement says something about constants.
  refine or_congr Iff.rfl (and_congr Iff.rfl ?_)
  simp only [returns_bind, returns_build, Build.constant_eq_ok, returns_emit, returns_pure]
  constructor
  · intro h
    obtain ⟨_, ⟨_, _, ⟨_, ⟨rfl, rfl⟩, rfl⟩, _, _, rfl, rfl, rfl⟩, rfl⟩ := h
    exact ⟨rfl, rfl⟩
  · intro h
    obtain ⟨rfl, rfl⟩ := h
    exact ⟨_, ⟨_, _, ⟨_, ⟨rfl, rfl⟩, rfl⟩, (), _, rfl, rfl, rfl⟩, rfl⟩

/-! ## Methods and members -/

/-- What the history says about a method: that it was closed anew, if it is closed. -/
def methodEvents (s : Substitution) (m : MethodRef) : List Event :=
  if m.typeArgs.isEmpty then [] else [.methodRebound m (s.rebind m)]

/-- What the history says about a member: that the override was asked, and that it answered. -/
def memberEvents (s : Substitution) (m : Member) : List Event :=
  (if s.memberOverride.isSome then [.overrideConsulted m] else []) ++
    match s.override? m with
    | some overriding => [.memberOverridden m overriding]
    | none => []

/-- A method is closed anew, and the history says so if it has type arguments. -/
theorem returns_method {m m' : MethodRef} :
    (method s m).Returns st m' st' ↔
      m' = s.rebind m ∧ st' = { st with events := st.events ++ methodEvents s m } := by
  simp only [method, methodEvents]
  cases m.typeArgs.isEmpty with
  | true => simp [returns_pure]
  | false =>
    simp only [Bool.not_false, if_true, returns_bind, returns_emit, returns_pure]
    simp

/-- The overload of an operator is rebound with the events of its method, and none if it has no
    overload. -/
theorem returns_overload {m m' : Option MethodRef} :
    (overload s m).Returns st m' st' ↔
      m' = m.map s.rebind ∧
      st' = { st with events := st.events ++ (m.map (methodEvents s)).getD [] } := by
  cases m with
  -- Most operators have no overload, and nothing is said of them.
  | none => simp [overload, returns_pure]
  | some m =>
    simp only [overload, returns_bind, returns_method, returns_pure]
    simp

/-- A member is resolved, and the history says whether the override was asked and whether it
    answered. -/
theorem returns_member {m m' : Member} :
    (member s cat m).Returns st m' st' ↔
      s.resolveMember cat m = .ok m' ∧
      st' = { st with events := st.events ++ memberEvents s m } := by
  simp only [member, memberEvents]
  -- The history depends on the override alone, the result on the resolution alone.
  cases s.memberOverride.isSome <;> cases s.override? m <;> cases s.resolveMember cat m <;>
    simp [-bind_pure_comp, returns_bind, returns_emit, returns_pure, returns_throw, @eq_comm _ m']

end Pass

namespace Expr

open Pass (returns_bind returns_pure returns_throw returns_build returns_method returns_overload
  returns_member)

variable {s : Substitution} {cat : Catalog} {st st' : PassState} {e' : Expr}

/-! ## The walk -/

-- The equations of the walk, off which all statements below are read.
attribute [local simp] retarget retargetOption retargetList

/-- Whether a node is replaced once and remembered: a parameter or a constant. -/
def isLeaf : Expr → Bool
  | .parameter _ => true
  | .constant .. => true
  | _ => false

/-- The leaves are the parameters and the constants. -/
theorem isLeaf_iff {e : Expr} :
    e.isLeaf = true ↔ (∃ p, e = .parameter p) ∨ ∃ id v, e = .constant id v := by
  cases e <;> simp [isLeaf]

/-- The kind of a node shows whether it is a leaf. -/
theorem isLeaf_iff_kind {e : Expr} :
    e.isLeaf = true ↔ e.kind = .parameter ∨ e.kind = .constant := by
  cases e <;> simp [isLeaf, kind]

/-- The node of a given identity that replaces a leaf. -/
def replacement (s : Substitution) (id : Nat) : Expr → Expr
  | .parameter p => .parameter ⟨id, s.resolve p.ty, p.name, p.byRef⟩
  | .constant _ v => .constant id (s.transform v)
  | e => e

/-- What the history says about the replacement of a leaf. -/
def replacementEvents (s : Substitution) : Expr → List Event
  | .parameter p => [.parameterReplaced p (s.resolve p.ty)]
  | .constant _ v => [.constantReplaced v (s.transform v)]
  | _ => []

/-- A leaf is found in the memo, or else replaced and recorded. -/
theorem returns_leaf {e : Expr} (hleaf : e.isLeaf = true) :
    (retarget s cat e).Returns st e' st' ↔
      (st.memo.lookup? e = some e' ∧ st' = st) ∨
      (st.memo.lookup? e = none ∧ e' = e.replacement s st.supply ∧
        st' = ⟨st.supply + 1, st.memo.record e e', st.events ++ e.replacementEvents s⟩) := by
  obtain ⟨p, rfl⟩ | ⟨id, v, rfl⟩ := isLeaf_iff.mp hleaf
  · rw [retarget, Pass.returns_parameter]
    rfl
  · rw [retarget, Pass.returns_constant]
    rfl

/-- A part that is missing stays missing. -/
theorem returns_option_none {r : Option Expr} :
    (retargetOption s cat none).Returns st r st' ↔ r = none ∧ st' = st := by
  rw [retargetOption, returns_pure]

/-- A part that is there is walked over. -/
theorem returns_option_some {e : Expr} {r : Option Expr} :
    (retargetOption s cat (some e)).Returns st r st' ↔
      ∃ e', (retarget s cat e).Returns st e' st' ∧ r = some e' := by
  simp only [retargetOption, returns_bind, returns_pure]
  constructor
  · intro h
    obtain ⟨e', _, he, rfl, rfl⟩ := h
    exact ⟨e', he, rfl⟩
  · intro h
    obtain ⟨e', he, rfl⟩ := h
    exact ⟨e', st', he, rfl, rfl⟩

/-- Where no part is left, the walk is over. -/
theorem returns_list_nil {es : List Expr} :
    (retargetList s cat []).Returns st es st' ↔ es = [] ∧ st' = st := by
  rw [retargetList, returns_pure]

/-- Several parts are walked over from the left, each from the state behind the one before. -/
theorem returns_list_cons {e : Expr} {es es' : List Expr} :
    (retargetList s cat (e :: es)).Returns st es' st' ↔
      ∃ first st₁ rest, (retarget s cat e).Returns st first st₁ ∧
        (retargetList s cat es).Returns st₁ rest st' ∧ es' = first :: rest := by
  simp only [retargetList, returns_bind, returns_pure]
  constructor
  · intro h
    obtain ⟨first, st₁, hfirst, rest, _, hrest, rfl, rfl⟩ := h
    exact ⟨first, st₁, rest, hfirst, hrest, rfl⟩
  · intro h
    obtain ⟨first, st₁, rest, hfirst, hrest, rfl⟩ := h
    exact ⟨first, st₁, hfirst, rest, st', hrest, rfl, rfl⟩

/-- A call of a generic method is built over the method closed anew, with its arguments retyped;
    one of any other method is updated. -/
theorem returns_call {id : Nat} {receiver : Option Expr} {method : MethodRef} {args : List Expr}
    {ty : Ty} :
    (retarget s cat (.call id receiver method args ty)).Returns st e' st' ↔
      ∃ args' st₁ receiver' st₂,
        (retargetList s cat args).Returns st args' st₁ ∧
        (retargetOption s cat receiver).Returns st₁ receiver' st₂ ∧
        ((method.isGeneric = true ∧ ∃ args'' k n,
            Build.coerceAll (s.rebind method).name args' (s.rebind method).parameterTypes st₂.supply
              = .ok (args'', k) ∧
            Build.call receiver' (s.rebind method) args'' k = .ok (e', n) ∧
            st' = ⟨n, st₂.memo, st₂.events ++ Pass.methodEvents s method⟩) ∨
          (method.isGeneric = false ∧ ∃ n,
            Build.updateCall (.call id receiver method args ty) receiver' args' st₂.supply
              = .ok (e', n) ∧
            st' = { st₂ with supply := n })) := by
  simp only [retarget, returns_bind]
  constructor
  · intro h
    obtain ⟨args', st₁, hargs, receiver', st₂, hreceiver, h⟩ := h
    refine ⟨args', st₁, receiver', st₂, hargs, hreceiver, ?_⟩
    cases hg : method.isGeneric with
    | true =>
      -- The method is closed anew before the arguments are retyped to its parameters.
      simp only [hg, if_true, returns_bind, returns_method, returns_build] at h
      obtain ⟨_, _, ⟨rfl, rfl⟩, args'', _, ⟨k, hcoerce, rfl⟩, n, hcall, rfl⟩ := h
      exact .inl ⟨rfl, args'', k, n, hcoerce, hcall, rfl⟩
    | false =>
      simp only [hg, Bool.false_eq_true, if_false, returns_build] at h
      exact .inr ⟨rfl, h⟩
  · intro h
    obtain ⟨args', st₁, receiver', st₂, hargs, hreceiver, h⟩ := h
    refine ⟨args', st₁, hargs, receiver', st₂, hreceiver, ?_⟩
    rcases h with ⟨hg, args'', k, n, hcoerce, hcall, rfl⟩ | ⟨hg, h⟩
    · simp only [hg, if_true, returns_bind, returns_method, returns_build]
      exact ⟨_, _, ⟨rfl, rfl⟩, args'', _, ⟨k, hcoerce, rfl⟩, n, hcall, rfl⟩
    · simpa only [hg, Bool.false_eq_true, if_false, returns_build] using h

/-- The parameters of a lambda are walked over like other parts. -/
theorem mapM_parameter (s : Substitution) (cat : Catalog) (params : List Parameter) :
    params.mapM (Pass.parameter s) = retargetList s cat (params.map .parameter) := by
  -- Induction on the parameters; a parameter is a leaf, and the walk over it is its replacement.
  induction params with
  | nil => rfl
  | cons p ps ih => rw [List.mapM_cons, ih]; rfl

/-- A lambda is built over its walked parameters and its walked body. Its delegate type is not
    carried over, but that of the new parts. -/
theorem returns_lambda {id : Nat} {delegate : Ty} {name : Option String} {tailCall : Bool}
    {params : List Parameter} {body : Expr} :
    (retarget s cat (.lambda id delegate name tailCall params body)).Returns st e' st' ↔
      ∃ params' st₁ body' st₂ n,
        (retargetList s cat (params.map .parameter)).Returns st params' st₁ ∧
        (retarget s cat body).Returns st₁ body' st₂ ∧
        Build.lambda body' name tailCall params' st₂.supply = .ok (e', n) ∧
        st' = { st₂ with supply := n } := by
  simp only [retarget, mapM_parameter s cat, returns_bind, returns_build]
  constructor
  · intro h
    obtain ⟨params', st₁, hparams, body', st₂, hbody, n, h, rfl⟩ := h
    exact ⟨params', st₁, body', st₂, n, hparams, hbody, h, rfl⟩
  · intro h
    obtain ⟨params', st₁, body', st₂, n, hparams, hbody, h, rfl⟩ := h
    exact ⟨params', st₁, hparams, body', st₂, hbody, n, h, rfl⟩

/-- An access is built over its walked object and the resolved member. -/
theorem returns_memberAccess {id : Nat} {object : Option Expr} {m : Member} :
    (retarget s cat (.member id object m)).Returns st e' st' ↔
      ∃ object' st₁ m' n,
        (retargetOption s cat object).Returns st object' st₁ ∧
        s.resolveMember cat m = .ok m' ∧
        Build.member object' m' st₁.supply = .ok (e', n) ∧
        st' = ⟨n, st₁.memo, st₁.events ++ Pass.memberEvents s m⟩ := by
  simp only [retarget, returns_bind, returns_member, returns_build]
  constructor
  · intro h
    obtain ⟨object', st₁, hobject, m', _, ⟨hm, rfl⟩, n, h, rfl⟩ := h
    exact ⟨object', st₁, m', n, hobject, hm, h, rfl⟩
  · intro h
    obtain ⟨object', st₁, m', n, hobject, hm, h, rfl⟩ := h
    exact ⟨object', st₁, hobject, m', _, ⟨hm, rfl⟩, n, h, rfl⟩

/-- A unary node is built over its walked operand, with its type resolved unless it is a quotation,
    and with its overload closed anew. -/
theorem returns_unary {id : Nat} {op : UnaryOp} {operand : Expr} {ty : Ty}
    {method : Option MethodRef} :
    (retarget s cat (.unary id op operand ty method)).Returns st e' st' ↔
      ∃ operand' st₁ n,
        (retarget s cat operand).Returns st operand' st₁ ∧
        Build.unary op operand' (if op = .quote then ty else s.resolve ty) (method.map s.rebind)
          st₁.supply = .ok (e', n) ∧
        st' = ⟨n, st₁.memo, st₁.events ++ (method.map (Pass.methodEvents s)).getD []⟩ := by
  simp only [retarget, returns_bind, returns_overload, returns_build]
  constructor
  · intro h
    obtain ⟨operand', st₁, hoperand, _, _, ⟨rfl, rfl⟩, n, h, rfl⟩ := h
    exact ⟨operand', st₁, n, hoperand, h, rfl⟩
  · intro h
    obtain ⟨operand', st₁, n, hoperand, h, rfl⟩ := h
    exact ⟨operand', st₁, hoperand, _, _, ⟨rfl, rfl⟩, n, h, rfl⟩

/-- A binary node is built over its walked operands and its walked conversion, from the left, with
    its overload closed anew. -/
theorem returns_binary {id : Nat} {op : BinaryOp} {left right : Expr} {lifted : Bool}
    {method : Option MethodRef} {conversion : Option Expr} {ty : Ty} :
    (retarget s cat (.binary id op left right lifted method conversion ty)).Returns st e' st' ↔
      ∃ left' st₁ right' st₂ conversion' st₃ n,
        (retarget s cat left).Returns st left' st₁ ∧
        (retarget s cat right).Returns st₁ right' st₂ ∧
        (retargetOption s cat conversion).Returns st₂ conversion' st₃ ∧
        Build.binary op left' right' lifted (method.map s.rebind) conversion' st₃.supply
          = .ok (e', n) ∧
        st' = ⟨n, st₃.memo, st₃.events ++ (method.map (Pass.methodEvents s)).getD []⟩ := by
  simp only [retarget, returns_bind, returns_overload, returns_build]
  constructor
  · intro h
    obtain ⟨left', st₁, hleft, right', st₂, hright, conversion', st₃, hconversion, _, _, ⟨rfl,
      rfl⟩, n, h, rfl⟩ := h
    exact ⟨left', st₁, right', st₂, conversion', st₃, n, hleft, hright, hconversion, h, rfl⟩
  · intro h
    obtain ⟨left', st₁, right', st₂, conversion', st₃, n, hleft, hright, hconversion, h, rfl⟩ := h
    exact ⟨left', st₁, hleft, right', st₂, hright, conversion', st₃, hconversion, _, _,
      ⟨rfl, rfl⟩, n, h, rfl⟩

/-- The kinds of nodes that a pass handles. -/
def Supported (e : Expr) : Prop :=
  e.kind ≠ .conditional ∧ e.kind ≠ .invoke ∧ e.kind ≠ .default

instance (e : Expr) : Decidable e.Supported :=
  inferInstanceAs (Decidable (e.kind ≠ .conditional ∧ e.kind ≠ .invoke ∧ e.kind ≠ .default))

/-- A pass succeeds on no node of another kind. -/
theorem supported_of_returns {e : Expr} (h : (retarget s cat e).Returns st e' st') :
    e.Supported := by
  -- The walk fails at once at the three kinds that are left out.
  cases e <;> simp_all [Supported, kind, returns_throw]

end Expr

/-- A pass succeeds exactly if the walk does, from a state in which nothing is remembered. -/
theorem Pass.run_eq_iff {s : Substitution} {cat : Catalog} {supply : Nat} {e e' : Expr}
    {st : PassState} :
    Pass.run s cat supply e = ⟨.ok e', st⟩ ↔
      (e.retarget s cat).Returns ⟨supply, .empty, []⟩ e' st := by
  -- A report is the outcome of the walk and the state after it.
  have h : Pass.run s cat supply e =
      ⟨((e.retarget s cat).exec ⟨supply, .empty, []⟩).1,
        ((e.retarget s cat).exec ⟨supply, .empty, []⟩).2⟩ := rfl
  rw [h, Pass.Returns, Prod.ext_iff, Pass.Report.mk.injEq]

/-- A pass that succeeds ends in the state of its report. -/
theorem Pass.run_of_result {s : Substitution} {cat : Catalog} {supply : Nat} {e e' : Expr}
    (h : (Pass.run s cat supply e).result = .ok e') :
    Pass.run s cat supply e = ⟨.ok e', (Pass.run s cat supply e).state⟩ := by
  rw [← h]

/-- The walk of a pass that succeeds, from a state in which nothing is remembered. -/
theorem Pass.returns_of_result {s : Substitution} {cat : Catalog} {supply : Nat} {e e' : Expr}
    (h : (Pass.run s cat supply e).result = .ok e') :
    (e.retarget s cat).Returns ⟨supply, .empty, []⟩ e' (Pass.run s cat supply e).state :=
  Pass.run_eq_iff.mp (Pass.run_of_result h)

end Retarget
