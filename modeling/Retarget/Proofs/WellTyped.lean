import Retarget.Proofs.Growth
import Retarget.Sample

/-!
# Only well-typed graphs can be built

Nodes come into being through the checked constructors, through the retyping of an argument and
through passes, each of which is given nodes that were built before. Here such a history is a
sequence of operations, and every node that is reachable from one it produced obeys the typing
rule of its kind.

## Key results

- `Operation.gains_of_perform`: what one operation does to an arena
- `Built.exists_arena`: the nodes of any history lie in an arena
- `Built.typingRule_of_within`: every reachable node obeys its typing rule
- `Expr.Constructed`: an expression that was built in this way
-/

namespace Retarget

/-- A way to produce a node, with what it is given. -/
inductive Operation where
  | parameter (ty : Ty) (name : Option String) (byRef : Bool)
  | constant (value : Value)
  | default (ty : Ty)
  | member (object : Option Expr) (m : Member)
  | call (receiver : Option Expr) (method : MethodRef) (args : List Expr)
  | updateCall (old : Expr) (receiver : Option Expr) (args : List Expr)
  | lambda (body : Expr) (name : Option String) (tailCall : Bool) (params : List Expr)
  | typedLambda (delegate : Ty) (body : Expr) (name : Option String) (tailCall : Bool)
      (params : List Expr)
  | unary (op : UnaryOp) (operand : Expr) (ty : Ty) (method : Option MethodRef)
  | convert (operand : Expr) (ty : Ty)
  | quote (l : Expr)
  | updateUnary (old operand : Expr)
  | binary (op : BinaryOp) (left right : Expr) (lifted : Bool) (method : Option MethodRef)
      (conversion : Option Expr)
  | conditional (test ifTrue ifFalse : Expr)
  | invoke (target : Expr) (args : List Expr)
  /-- The retyping of an argument. -/
  | coerce (need : Ty) (arg : Expr)
  /-- A pass over an expression. -/
  | retarget (s : Substitution) (cat : Catalog) (root : Expr)

namespace Operation

/-- The nodes that an operation is given. -/
def operands : Operation → List Expr
  | .parameter .. => []
  | .constant _ => []
  | .default _ => []
  | .member object _ => object.toList
  | .call receiver _ args => receiver.toList ++ args
  | .updateCall old receiver args => old :: (receiver.toList ++ args)
  | .lambda body _ _ params => body :: params
  | .typedLambda _ body _ _ params => body :: params
  | .unary _ operand _ _ => [operand]
  | .convert operand _ => [operand]
  | .quote l => [l]
  | .updateUnary old operand => [old, operand]
  | .binary _ left right _ _ conversion => left :: right :: conversion.toList
  | .conditional test ifTrue ifFalse => [test, ifTrue, ifFalse]
  | .invoke target args => target :: args
  | .coerce _ arg => [arg]
  | .retarget _ _ root => [root]

/-- The outcome of a construction, if it succeeds. -/
def ofBuild (b : Build Expr) (supply : Nat) : Option (Expr × Nat) :=
  (b supply).toOption

/-- The node that an operation produces and the next identity after it; nothing if it fails. -/
def perform : Operation → Nat → Option (Expr × Nat)
  | .parameter ty name byRef => ofBuild (Build.parameter ty name byRef)
  | .constant value => ofBuild (Build.constant value)
  | .default ty => ofBuild (Build.default ty)
  | .member object m => ofBuild (Build.member object m)
  | .call receiver method args => ofBuild (Build.call receiver method args)
  | .updateCall old receiver args => ofBuild (Build.updateCall old receiver args)
  | .lambda body name tailCall params => ofBuild (Build.lambda body name tailCall params)
  | .typedLambda delegate body name tailCall params =>
    ofBuild (Build.typedLambda delegate body name tailCall params)
  | .unary op operand ty method => ofBuild (Build.unary op operand ty method)
  | .convert operand ty => ofBuild (Build.convert operand ty)
  | .quote l => ofBuild (Build.quote l)
  | .updateUnary old operand => ofBuild (Build.updateUnary old operand)
  | .binary op left right lifted method conversion =>
    ofBuild (Build.binary op left right lifted method conversion)
  | .conditional test ifTrue ifFalse => ofBuild (Build.conditional test ifTrue ifFalse)
  | .invoke target args => ofBuild (Build.invoke target args)
  | .coerce need arg => ofBuild (Build.coerce need arg)
  | .retarget s cat root => fun supply =>
    match Pass.run s cat supply root with
    | ⟨.ok e, st⟩ => some (e, st.supply)
    | ⟨.error _, _⟩ => none

variable {a : Arena} {n : Nat} {e : Expr}

/-- An operation that is a construction gives what the construction gives. -/
theorem ofBuild_eq_some {b : Build Expr} {supply : Nat} :
    ofBuild b supply = some (e, n) ↔ b supply = .ok (e, n) := by
  unfold ofBuild
  cases b supply <;> simp [Except.toOption]

/-- An operation on nodes of an arena leaves an arena that has the node it produces. -/
theorem gains_of_perform (op : Operation) (hoperands : ∀ x ∈ op.operands, x ∈ a.nodes)
    (h : op.perform a.supply = some (e, n)) : a.Gains n [e] := by
  -- One lemma for each way to produce a node.
  cases op with
  | parameter ty name byRef => exact Build.parameter_gains (ofBuild_eq_some.mp h)
  | constant value => exact Build.constant_gains (ofBuild_eq_some.mp h)
  | default ty => exact Build.default_gains (ofBuild_eq_some.mp h)
  | member object m =>
    exact Build.member_gains (fun o ho => hoperands o (by simp [operands, ho]))
      (ofBuild_eq_some.mp h)
  | call receiver method args =>
    exact Build.call_gains (fun r hr => hoperands r (by simp [operands, hr]))
      (fun x hx => hoperands x (by simp [operands, hx])) (ofBuild_eq_some.mp h)
  | updateCall old receiver args =>
    -- The old call lies in the arena as well, and may be what comes back.
    exact Build.updateCall_gains (hoperands old (by simp [operands]))
      (fun r hr => hoperands r (by simp [operands, hr]))
      (fun x hx => hoperands x (by simp [operands, hx])) (ofBuild_eq_some.mp h)
  | lambda body name tailCall params =>
    exact Build.lambda_gains (hoperands body (by simp [operands]))
      (fun p hp => hoperands p (by simp [operands, hp])) (ofBuild_eq_some.mp h)
  | typedLambda delegate body name tailCall params =>
    exact Build.typedLambda_gains (hoperands body (by simp [operands]))
      (fun p hp => hoperands p (by simp [operands, hp])) (ofBuild_eq_some.mp h)
  | unary op operand ty method =>
    exact Build.unary_gains (hoperands operand (by simp [operands])) (ofBuild_eq_some.mp h)
  | convert operand ty =>
    -- Conversions and quotations are unary nodes.
    exact Build.unary_gains (hoperands operand (by simp [operands])) (ofBuild_eq_some.mp h)
  | quote l =>
    exact Build.unary_gains (hoperands l (by simp [operands])) (ofBuild_eq_some.mp h)
  | updateUnary old operand =>
    exact Build.updateUnary_gains (hoperands old (by simp [operands]))
      (hoperands operand (by simp [operands])) (ofBuild_eq_some.mp h)
  | binary op left right lifted method conversion =>
    exact Build.binary_gains (hoperands left (by simp [operands]))
      (hoperands right (by simp [operands])) (fun c hc => hoperands c (by simp [operands, hc]))
      (ofBuild_eq_some.mp h)
  | conditional test ifTrue ifFalse =>
    exact Build.conditional_gains (hoperands test (by simp [operands]))
      (hoperands ifTrue (by simp [operands])) (hoperands ifFalse (by simp [operands]))
      (ofBuild_eq_some.mp h)
  | invoke target args =>
    exact Build.invoke_gains (hoperands target (by simp [operands]))
      (fun x hx => hoperands x (by simp [operands, hx])) (ofBuild_eq_some.mp h)
  | coerce need arg =>
    exact Build.coerce_gains (hoperands arg (by simp [operands])) (ofBuild_eq_some.mp h)
  | retarget s cat root =>
    simp only [perform] at h
    split at h
    · rename_i e' st hrun
      obtain ⟨rfl, rfl⟩ := Prod.mk.inj (Option.some.inj h)
      -- Nothing is remembered at the start, so the arena itself is that of the pass.
      obtain ⟨b, hba, ht, hb⟩ := Expr.retarget_attains s cat root
        (hoperands root (by simp [operands])) a.tracks_start
        (Pass.run_eq_iff.mp hrun)
      exact ⟨b, hba, ht.supply, hb⟩
    · cases h

end Operation

/-- A history of operations: the nodes that it produced, and the next identity after it. An
    operation can be given every node that is reachable from those produced before it. -/
inductive Built : Nat → List Expr → Prop where
  | start (supply : Nat) : Built supply []
  | step {supply supply' : Nat} {nodes : List Expr} {e : Expr} (op : Operation)
      (before : Built supply nodes)
      (operands : ∀ x ∈ op.operands, ∃ root ∈ nodes, x.Within root)
      (produces : op.perform supply = some (e, supply')) : Built supply' (e :: nodes)

namespace Built

variable {supply : Nat} {nodes : List Expr}

/-- The nodes of a history lie in an arena whose identities are those used in it. -/
theorem exists_arena (h : Built supply nodes) :
    ∃ a : Arena, a.supply = supply ∧ ∀ e ∈ nodes, e ∈ a.nodes := by
  induction h with
  | start supply => exact ⟨.empty supply, rfl, by simp⟩
  | step op _ operands produces ih =>
    obtain ⟨a, rfl, ha⟩ := ih
    have hoperands : ∀ x ∈ op.operands, x ∈ a.nodes := by
      intro x hx
      -- What an operation is given lies in the arena with the node that it is reachable from.
      obtain ⟨root, hroot, hwithin⟩ := operands x hx
      exact a.mem_of_within hwithin (ha root hroot)
    obtain ⟨b, hba, rfl, hb⟩ := op.gains_of_perform hoperands produces
    -- The last node is what the operation gained, and the larger arena has all nodes before it.
    refine ⟨b, rfl, ?_⟩
    intro x hx
    rcases List.mem_cons.mp hx with rfl | hx
    · exact hb _ (List.mem_singleton_self _)
    · exact hba.nodes x (ha x hx)

/-- A history goes on with an operation on nodes that it produced. -/
theorem extend {supply' : Nat} {e : Expr} (op : Operation) (before : Built supply nodes)
    (operands : op.operands ⊆ nodes) (produces : op.perform supply = some (e, supply')) :
    Built supply' (e :: nodes) :=
  .step op before (fun x hx => ⟨x, operands hx, .self⟩) produces

/-- Every node that is reachable from a node of a history obeys the typing rule of its kind. -/
theorem typingRule_of_within (h : Built supply nodes) {root n : Expr} (hroot : root ∈ nodes)
    (hn : n.Within root) : n.TypingRule := by
  obtain ⟨a, -, ha⟩ := h.exists_arena
  exact a.typed n (a.mem_of_within hn (ha root hroot))

end Built

/-! ## A small graph

The query `x.Select(i => i.Id == n)` over items of a type, with results that are taken as objects,
so that its lambda has a wider type than the one inferred for it. What is inside the lambda is
numbered from `first` on, the lambda and what is around it from `outer` on. -/

namespace Sample

/-- The items that are queried. -/
def source (item : Ty) (first : Nat) : Expr :=
  .parameter ⟨first, Ty.query item, some "x", false⟩

/-- The item that the lambda is applied to. -/
def element (item : Ty) (first : Nat) : Parameter := ⟨first + 1, item, some "i", false⟩

/-- The identifier of that item. -/
def identifier (item : Ty) (first : Nat) : Expr :=
  .member (first + 2) (some (.parameter (element item first))) (Member.property item "Id" Ty.long)

/-- The number that it is compared with. -/
def number (n : Int64) (first : Nat) : Expr := .constant (first + 3) (.int n)

/-- The comparison of the identifier with the number. -/
def comparison (item : Ty) (n : Int64) (first : Nat) : Expr :=
  .binary (first + 4) .equal (identifier item first) (number n first) false none none Ty.bool

/-- The lambda, from items to objects. -/
def selector (item : Ty) (n : Int64) (first outer : Nat) : Expr :=
  .lambda outer (Ty.func [item] Ty.object) none false [element item first]
    (comparison item n first)

/-- The quotation that a call puts around the lambda. -/
def quotation (item : Ty) (n : Int64) (first outer : Nat) : Expr :=
  .unary (outer + 1) .quote (selector item n first outer)
    (Ty.expression (Ty.func [item] Ty.object)) none

/-- The operator `Select` from items to objects. -/
def select (item : Ty) : MethodRef :=
  ⟨(Catalog.queryOperator "Select" ["TSource", "TResult"]
      [Ty.query (.named "TSource"), Ty.expression (Ty.func [.named "TSource"] (.named "TResult"))]
      (Ty.query (.named "TResult"))).promote, [item, Ty.object], .inr rfl⟩

/-- The query, with its lambda in a quotation. -/
def selection (item : Ty) (n : Int64) (first outer : Nat) : Expr :=
  .call (outer + 2) none (select item) [source item first, quotation item n first outer]
    (Ty.query Ty.object)

/-- The items before a pass. -/
def itemFrom : Ty := .named "ItemFrom"

/-- The items after it. -/
def itemTo : Ty := .named "ItemTo"

/-- Moves the items and changes every number. -/
def renumber : Substitution :=
  { items with
    constantTransform := some fun
      | .int _ => .int 8
      | v => v }

/-- The identifier of an item, and before it the item and the items that are queried. -/
theorem identifier_built :
    Built 3 [identifier itemFrom 0, .parameter (element itemFrom 0), source itemFrom 0] := by
  have hx : Built 1 [source itemFrom 0] :=
    .extend (.parameter (Ty.query itemFrom) (some "x") false) (.start 0)
      (by simp [Operation.operands]) rfl
  have hi : Built 2 (.parameter (element itemFrom 0) :: _) :=
    .extend (.parameter itemFrom (some "i") false) hx (by simp [Operation.operands]) rfl
  exact .extend (.member (some (.parameter (element itemFrom 0)))
    (Member.property itemFrom "Id" Ty.long)) hi (by simp [Operation.operands]) rfl

/-- The nodes of a history that builds the query, the last one first. -/
def selectionHistory : List Expr :=
  [selection itemFrom 7 0 5, selector itemFrom 7 0 5, comparison itemFrom 7 0, number 7 0,
    identifier itemFrom 0, .parameter (element itemFrom 0), source itemFrom 0]

/-- The query is built node by node, its lambda being quoted as an argument. -/
theorem selection_built : Built 8 selectionHistory := by
  have hn : Built 4 (number 7 0 :: _) :=
    .extend (.constant (.int 7)) identifier_built (by simp [Operation.operands]) rfl
  have hcomparison : Built 5 (comparison itemFrom 7 0 :: _) :=
    .extend (.binary .equal (identifier itemFrom 0) (number 7 0) false none none) hn
      (by simp [Operation.operands]) rfl
  have hselector : Built 6 (selector itemFrom 7 0 5 :: _) :=
    .extend (.typedLambda (Ty.func [itemFrom] Ty.object) (comparison itemFrom 7 0) none false
      [.parameter (element itemFrom 0)]) hcomparison (by simp [Operation.operands]) rfl
  exact .extend (.call none (select itemFrom) [source itemFrom 0, selector itemFrom 7 0 5])
    hselector (by simp [Operation.operands]) rfl

/-- The rule of quotations holds of the one that no operation of the history asked for. -/
theorem quotation_typingRule :
    Built 8 selectionHistory ∧
      (quotation itemFrom 7 0 5).Within (selection itemFrom 7 0 5) ∧
      (quotation itemFrom 7 0 5).TypingRule := by
  have hwithin : (quotation itemFrom 7 0 5).Within (selection itemFrom 7 0 5) :=
    .part (by simp [selection, Expr.children]) .self
  exact ⟨selection_built, hwithin,
    Built.typingRule_of_within selection_built List.mem_cons_self hwithin⟩

end Sample

/-- An expression that some history has built, when the next identity is `supply`. -/
def Expr.Constructed (supply : Nat) (e : Expr) : Prop :=
  ∃ nodes root, Built supply nodes ∧ root ∈ nodes ∧ e.Within root

/-- A node that a history has produced is constructed. -/
theorem Built.constructed {supply : Nat} {nodes : List Expr} {e : Expr} (h : Built supply nodes)
    (he : e ∈ nodes) : e.Constructed supply :=
  ⟨nodes, e, h, he, .self⟩

/-- A constructed expression is a node of an arena whose identities are those in use. -/
theorem Expr.Constructed.exists_arena {supply : Nat} {e : Expr} (h : e.Constructed supply) :
    ∃ a : Arena, a.supply = supply ∧ e ∈ a.nodes := by
  obtain ⟨nodes, root, hbuilt, hroot, hwithin⟩ := h
  obtain ⟨a, hsupply, ha⟩ := hbuilt.exists_arena
  exact ⟨a, hsupply, a.mem_of_within hwithin (ha root hroot)⟩

end Retarget
