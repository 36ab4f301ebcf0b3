import Retarget.Proofs.Tables
import Retarget.Proofs.Unfolding

/-!
# A pass handles all nodes or none

A pass comes to the nodes of an expression in a fixed order, and goes on only while it can handle
the node at hand. So it does not succeed on an expression in which it can come to a node of another
kind; it refuses no kind where there is no such node; and the kind that it refuses is that of the
first such node. Other failures may come first, on the way to it.

The statement is carried by `Pass.ComesTo`, which says of any part of a pass which nodes it comes
to. A sequence comes to the nodes of its first part and then to those of the second.

## Key results

- `Expr.evaluationOrder`: the nodes that a pass can come to, in order
- `Pass.ComesTo.bind`: the nodes that a sequence comes to
- `Expr.retarget_comesTo`: the nodes that the walk over an expression comes to
- `Pass.run_closedWorld`: the statement for whole passes
-/

namespace Retarget

namespace Expr

/-! ## The order of evaluation -/

mutual

/-- The nodes that a pass can come to, with repetitions: a node before its parts, arguments before
    the receiver, parameters before the body, left before right before conversion. Nothing below a
    node that a pass cannot handle is looked at. -/
def evaluationOrder : Expr → List Expr
  | .call id receiver method args ty =>
    .call id receiver method args ty :: (evaluationOrderList args ++ evaluationOrderOption receiver)
  | .lambda id delegate name tailCall params body =>
    .lambda id delegate name tailCall params body ::
      (params.map .parameter ++ evaluationOrder body)
  | .parameter p => [.parameter p]
  | .member id object m => .member id object m :: evaluationOrderOption object
  | .constant id v => [.constant id v]
  | .unary id op operand ty method => .unary id op operand ty method :: evaluationOrder operand
  | .binary id op left right lifted method conversion ty =>
    .binary id op left right lifted method conversion ty ::
      (evaluationOrder left ++ (evaluationOrder right ++ evaluationOrderOption conversion))
  | .conditional id test ifTrue ifFalse ty => [.conditional id test ifTrue ifFalse ty]
  | .invoke id target args ty => [.invoke id target args ty]
  | .default id ty => [.default id ty]

/-- The order in an optional part. -/
def evaluationOrderOption : Option Expr → List Expr
  | none => []
  | some e => evaluationOrder e

/-- The order in parts from the left. -/
def evaluationOrderList : List Expr → List Expr
  | [] => []
  | e :: es => evaluationOrder e ++ evaluationOrderList es

end

/-- An optional part adds the nodes of the part, if it is there. -/
theorem mem_evaluationOrderOption {o : Option Expr} {n : Expr} :
    n ∈ evaluationOrderOption o ↔ ∃ e, o = some e ∧ n ∈ e.evaluationOrder := by
  cases o <;> simp [evaluationOrderOption]

/-- Parts in a row add the nodes of each of them. -/
theorem mem_evaluationOrderList {es : List Expr} {n : Expr} :
    n ∈ evaluationOrderList es ↔ ∃ e ∈ es, n ∈ e.evaluationOrder := by
  induction es with
  | nil => simp [evaluationOrderList]
  | cons e es ih => simp [evaluationOrderList, ih]

/-- Parameters are their own order, as they have no parts. -/
theorem evaluationOrderList_parameters (params : List Parameter) :
    evaluationOrderList (params.map .parameter) = params.map .parameter := by
  induction params with
  | nil => rfl
  | cons p ps ih => simp [evaluationOrderList, evaluationOrder, ih]

/-- Besides the node itself, the order has what the orders of its parts have, if a pass handles the
    node. -/
theorem mem_evaluationOrder_iff_children {e n : Expr} :
    n ∈ e.evaluationOrder ↔
      n = e ∨ (e.Supported ∧ ∃ c ∈ e.children, n ∈ c.evaluationOrder) := by
  cases e with
  | call id receiver method args ty =>
    -- Arguments are evaluated before the receiver, which stands first among the parts.
    simp only [evaluationOrder, children, List.mem_cons, List.mem_append, mem_evaluationOrderList,
      mem_evaluationOrderOption, Option.mem_toList, Supported, kind]
    grind
  | lambda id delegate name tailCall params body =>
    -- The parameters are put as a walk over parts, so that all parts read alike.
    rw [evaluationOrder, ← evaluationOrderList_parameters params]
    simp only [children, List.mem_cons, List.mem_append, mem_evaluationOrderList, Supported, kind]
    grind
  | parameter p => simp [evaluationOrder, children]
  | member id object m =>
    simp [evaluationOrder, children, mem_evaluationOrderOption, Supported, kind]
  | constant id v => simp [evaluationOrder, children]
  | unary id op operand ty method => simp [evaluationOrder, children, Supported, kind]
  | binary id op left right lifted method conversion ty =>
    simp [evaluationOrder, children, mem_evaluationOrderOption, Supported, kind]
  | conditional id test ifTrue ifFalse ty => simp [evaluationOrder, Supported, kind]
  | invoke id target args ty => simp [evaluationOrder, Supported, kind]
  | default id ty => simp [evaluationOrder, Supported, kind]

/-- The order has exactly the nodes that a pass can come to. -/
theorem mem_evaluationOrder_iff {e n : Expr} : n ∈ e.evaluationOrder ↔ n.Reached e := by
  -- By induction over parts; below a node that a pass cannot handle, neither side has anything.
  induction e using childInduction with
  | node e ih =>
    rw [mem_evaluationOrder_iff_children]
    constructor
    · intro h
      rcases h with rfl | ⟨he, c, hc, hn⟩
      · exact .self
      · exact .part he hc ((ih c hc).mp hn)
    · intro h
      cases h with
      | self => exact .inl rfl
      | part he hc hn => exact .inr ⟨he, _, hc, (ih _ hc).mpr hn⟩

/-- The first of some nodes that a pass cannot handle. -/
def firstUnsupported? (nodes : List Expr) : Option Expr := nodes.find? fun n => ¬n.Supported

/-- None is the first exactly if all can be handled. -/
theorem firstUnsupported?_eq_none {nodes : List Expr} :
    firstUnsupported? nodes = none ↔ ∀ n ∈ nodes, n.Supported := by
  simp [firstUnsupported?]

/-- The first of two runs of nodes is that of the first run, and of the second if there is none. -/
theorem firstUnsupported?_append (ns ms : List Expr) :
    firstUnsupported? (ns ++ ms) = (firstUnsupported? ns).or (firstUnsupported? ms) := by
  simp [firstUnsupported?]

end Expr

/-! ## The nodes that a part of a pass comes to -/

namespace Pass

open Retarget.Expr (firstUnsupported? firstUnsupported?_eq_none firstUnsupported?_append)

variable {α β : Type} {p : Pass α} {k : α → Pass β} {ns ms : List Expr}

/-- A part of a pass that comes to given nodes in turn: where it succeeds, all of them can be
    handled, and where it refuses a kind, it is that of the first that cannot. -/
structure ComesTo (p : Pass α) (nodes : List Expr) : Prop where
  handled : ∀ {st a st'}, p.Returns st a st' → ∀ n ∈ nodes, n.Supported
  refused : ∀ {st kind st'}, p.exec st = (.error (.unsupportedKind kind), st') →
    ∃ n, firstUnsupported? nodes = some n ∧ n.kind = kind

namespace ComesTo

/-- A sequence comes to the nodes of its first part and then to those of the second, whatever the
    first part hands over. -/
theorem bind (hp : p.ComesTo ns) (hk : ∀ a, (k a).ComesTo ms) : (p >>= k).ComesTo (ns ++ ms) where
  handled := by
    intro st b st' h
    obtain ⟨a, st₁, hfirst, hrest⟩ := returns_bind.mp h
    intro n hn
    rcases List.mem_append.mp hn with hn | hn
    · exact hp.handled hfirst n hn
    · exact (hk a).handled hrest n hn
  refused := by
    intro st kind st' h
    rw [exec_bind] at h
    rw [firstUnsupported?_append]
    cases hexec : p.exec st with
    | mk r st₁ =>
      rw [hexec] at h
      cases r with
      | error err =>
        -- The first part fails, and the second is not looked at.
        obtain ⟨rfl, rfl⟩ : err = .unsupportedKind kind ∧ st₁ = st' := by simpa using h
        obtain ⟨n, hn, hkind⟩ := hp.refused hexec
        exact ⟨n, by rw [hn, Option.some_or], hkind⟩
      | ok a =>
        -- The first part succeeds, so that all its nodes can be handled.
        have hnone : firstUnsupported? ns = none :=
          firstUnsupported?_eq_none.mpr (hp.handled hexec)
        rw [hnone, Option.none_or]
        exact (hk a).refused h

/-- What comes to no node can follow without notice. -/
theorem followed (hp : p.ComesTo ns) (hk : ∀ a, (k a).ComesTo []) : (p >>= k).ComesTo ns := by
  have h := hp.bind hk
  rwa [List.append_nil] at h

/-- A node that can be handled may be put in front. -/
theorem cons {n : Expr} (hn : n.Supported) (hp : p.ComesTo ns) : p.ComesTo (n :: ns) where
  handled := by
    intro st a st' h m hm
    rcases List.mem_cons.mp hm with rfl | hm
    · exact hn
    · exact hp.handled h m hm
  refused := by
    intro st kind st' h
    obtain ⟨m, hm, hkind⟩ := hp.refused h
    refine ⟨m, ?_, hkind⟩
    rw [firstUnsupported?, List.find?_cons_of_neg (by simpa using hn)]
    exact hm

/-- What always succeeds comes to no node. -/
theorem of_returns (h : ∀ st, ∃ a st', p.Returns st a st') : p.ComesTo [] where
  handled := by simp
  refused := by
    intro st kind st' hexec
    obtain ⟨a, st₁, hreturns⟩ := h st
    rw [Returns, hexec] at hreturns
    cases hreturns

/-- A computation that does what `x` says comes to no node if `x` refuses no kind. It may fail, but
    never with the error of a kind that is not rewritten. -/
theorem of_realizes {γ : Type} {x : PassState → Except RetargetError γ}
    (h : ∀ st, p.Realizes st (x st) fun _ _ _ => True)
    (hx : ∀ st kind, x st ≠ .error (.unsupportedKind kind)) : p.ComesTo [] where
  handled := by simp
  refused := by
    intro st kind st' hexec
    cases h st with
    | ok hp _ _ =>
      rw [Returns, hexec] at hp
      cases hp
    | error hp herr =>
      rw [hexec] at hp
      obtain rfl : RetargetError.unsupportedKind kind = _ := Except.error.inj (Prod.mk.inj hp).1
      exact absurd herr (hx st kind)

/-- A value at hand comes to no node. -/
theorem pure (a : α) : (Pure.pure a : Pass α).ComesTo [] :=
  of_returns fun st => ⟨a, st, rfl⟩

end ComesTo

/-- The constructors look at nodes that are built already, and refuse with errors of their own. -/
theorem build_comesTo (b : Build α) : (build b).ComesTo [] := by
  refine .of_realizes (x := fun st => b.outcome id st.supply)
    (fun st => realizes_build rfl fun _ _ _ => trivial) fun st kind h => ?_
  -- What the constructors refuse is told apart from what the pass refuses.
  unfold Build.outcome at h
  split at h <;> cases h

/-- To rebind a method is to look at types alone, and always succeeds. -/
theorem method_comesTo (s : Substitution) (m : MethodRef) : (method s m).ComesTo [] :=
  .of_returns fun _ => ⟨_, _, returns_method.mpr ⟨rfl, rfl⟩⟩

/-- To rebind the overload of an operator is to look at types alone, as for any method. -/
theorem overload_comesTo (s : Substitution) (m : Option MethodRef) : (overload s m).ComesTo [] :=
  .of_returns fun _ => ⟨_, _, returns_overload.mpr ⟨rfl, rfl⟩⟩

/-- A member can fail to be resolved, though never for the kind of a node. -/
theorem member_comesTo (s : Substitution) (cat : Catalog) (m : Member) :
    (member s cat m).ComesTo [] := by
  have hrealizes : ∀ st,
      (member s cat m).Realizes st (s.resolveMember cat m) fun _ _ _ => True := by
    intro st
    have hmember : (member s cat m).Realizes st (s.resolveMember cat m) _ := realizes_member m
    cases hmember with
    | ok hp hx _ => exact .ok hp hx trivial
    | error hp hx => exact .error hp hx
  refine .of_realizes hrealizes fun st kind h => ?_
  -- A member fails to be resolved in one way only.
  unfold Substitution.resolveMember at h
  split at h
  · cases h
  · dsimp only at h
    split at h
    · cases h
    · split at h
      · cases h
      · split at h <;> cases h

end Pass

/-! ## The walk -/

namespace Expr

open Pass (ComesTo)

variable {s : Substitution} {cat : Catalog}

/-- A leaf comes to itself. -/
theorem leaf_comesTo {e : Expr} (h : e.isLeaf = true) : (retarget s cat e).ComesTo [e] := by
  have hsupported : e.Supported := by
    obtain ⟨p, rfl⟩ | ⟨id, v, rfl⟩ := isLeaf_iff.mp h <;> simp [Supported, kind]
  refine .cons hsupported (.of_returns fun st => ?_)
  -- A leaf is found in the memo or replaced, and neither can fail.
  cases hseen : st.memo.lookup? e with
  | some r => exact ⟨_, _, (returns_leaf h).mpr (.inl ⟨hseen, rfl⟩)⟩
  | none => exact ⟨_, _, (returns_leaf h).mpr (.inr ⟨hseen, rfl, rfl⟩)⟩

/-- The walk over an optional part comes to the nodes of the part. -/
theorem option_comesTo {o : Option Expr}
    (ih : ∀ e, o = some e → (retarget s cat e).ComesTo e.evaluationOrder) :
    (retargetOption s cat o).ComesTo (evaluationOrderOption o) := by
  cases o with
  | none => exact .pure none
  | some e =>
    rw [retargetOption, evaluationOrderOption]
    exact (ih e rfl).followed fun e' => .pure _

/-- The walk over parts in a row comes to their nodes from the left. -/
theorem list_comesTo {es : List Expr}
    (ih : ∀ e ∈ es, (retarget s cat e).ComesTo e.evaluationOrder) :
    (retargetList s cat es).ComesTo (evaluationOrderList es) := by
  -- The tail is walked after the head, and the list is put together without a further node.
  induction es with
  | nil => exact .pure []
  | cons e es ihs =>
    rw [retargetList, evaluationOrderList]
    have hrest := ihs fun x hx => ih x (List.mem_cons_of_mem _ hx)
    exact (ih e List.mem_cons_self).bind fun first => hrest.followed fun rest => .pure _

/-- The walk over a node that is refused. -/
theorem refused_comesTo {e : Expr} {kind : NodeKind} (hkind : e.kind = kind)
    (he : ¬e.Supported) : (throw (.unsupportedKind kind) : Pass Expr).ComesTo [e] where
  handled := fun h => (Pass.returns_throw.mp h).elim
  refused := by
    intro st kind' st' h
    have hexec : (throw (.unsupportedKind kind) : Pass Expr).exec st =
        (.error (.unsupportedKind kind), st) := rfl
    rw [hexec] at h
    obtain ⟨rfl, -⟩ : kind = kind' ∧ st = st' := by simpa using h
    exact ⟨e, List.find?_cons_of_pos (by simpa using he), hkind⟩

/-- The walk over an expression comes to its nodes in the order of evaluation. -/
theorem retarget_comesTo (s : Substitution) (cat : Catalog) (e : Expr) :
    (retarget s cat e).ComesTo e.evaluationOrder := by
  -- By induction over parts: in each case the walk is a sequence of walks over parts, and the order
  -- is that of the sequence.
  induction e using childInduction with
  | node e ih =>
    cases e with
    | call id receiver method args ty =>
      have hargs : (retargetList s cat args).ComesTo (evaluationOrderList args) :=
        list_comesTo fun x hx => ih x (by simp [children, hx])
      have hreceiver := option_comesTo (o := receiver) fun x hx => ih x (by simp [children, hx])
      rw [retarget, evaluationOrder]
      refine .cons (by simp [Supported, kind]) (hargs.bind fun args' => ?_)
      refine hreceiver.followed fun receiver' => ?_
      -- Whatever is then built, it comes to no further node.
      split
      · exact (Pass.method_comesTo s method).followed fun method' =>
          (Pass.build_comesTo _).followed fun args'' => Pass.build_comesTo _
      · exact Pass.build_comesTo _
    | lambda id delegate name tailCall params body =>
      have hparams : (retargetList s cat (params.map .parameter)).ComesTo
          (evaluationOrderList (params.map .parameter)) :=
        list_comesTo fun x hx => ih x (List.mem_append_left _ hx)
      -- The walk takes the parameters as such, the induction hypothesis as nodes.
      rw [← mapM_parameter s cat, evaluationOrderList_parameters] at hparams
      rw [retarget, evaluationOrder]
      refine .cons (by simp [Supported, kind]) (hparams.bind fun params' => ?_)
      exact (ih body (by simp [children])).followed fun body' => Pass.build_comesTo _
    | parameter p => exact leaf_comesTo rfl
    | member id object m =>
      have hobject := option_comesTo (o := object) fun x hx => ih x (by simp [children, hx])
      rw [retarget, evaluationOrder]
      refine .cons (by simp [Supported, kind]) (hobject.followed fun object' => ?_)
      exact (Pass.member_comesTo s cat m).followed fun m' => Pass.build_comesTo _
    | constant id v => exact leaf_comesTo rfl
    | unary id op operand ty method =>
      have hoperand := ih operand (by simp [children])
      rw [retarget, evaluationOrder]
      refine .cons (by simp [Supported, kind]) (hoperand.followed fun operand' => ?_)
      exact (Pass.overload_comesTo s method).followed fun method' => Pass.build_comesTo _
    | binary id op left right lifted method conversion ty =>
      have hleft := ih left (by simp [children])
      have hright := ih right (by simp [children])
      have hconversion := option_comesTo (o := conversion) fun x hx => ih x (by simp [children, hx])
      rw [retarget, evaluationOrder]
      refine .cons (by simp [Supported, kind]) (hleft.bind fun left' => ?_)
      refine hright.bind fun right' => ?_
      refine hconversion.followed fun conversion' => ?_
      exact (Pass.overload_comesTo s method).followed fun method' => Pass.build_comesTo _
    | conditional id test ifTrue ifFalse ty =>
      rw [retarget]
      exact refused_comesTo rfl (by simp [Supported, kind])
    | invoke id target args ty =>
      rw [retarget]
      exact refused_comesTo rfl (by simp [Supported, kind])
    | default id ty =>
      rw [retarget]
      exact refused_comesTo rfl (by simp [Supported, kind])

end Expr

/-! ## Passes -/

/-- A pass over an expression succeeds only if it can handle every node that it can come to; if it
    can, it refuses no kind of node; and the kind that it refuses is that of the first node in the
    order of evaluation that it cannot handle. -/
theorem Pass.run_closedWorld (s : Substitution) (cat : Catalog) (supply : Nat) (e : Expr) :
    ((∃ n : Expr, n.Reached e ∧ ¬n.Supported) →
      ∀ e', (Pass.run s cat supply e).result ≠ .ok e') ∧
    ((∀ n : Expr, n.Reached e → n.Supported) →
      ∀ kind, (Pass.run s cat supply e).result ≠ .error (.unsupportedKind kind)) ∧
    ∀ kind, (Pass.run s cat supply e).result = .error (.unsupportedKind kind) →
      ∃ n, Expr.firstUnsupported? e.evaluationOrder = some n ∧ n.kind = kind := by
  have hcomes := Expr.retarget_comesTo s cat e
  have hrefused : ∀ kind, (Pass.run s cat supply e).result = .error (.unsupportedKind kind) →
      ∃ n, Expr.firstUnsupported? e.evaluationOrder = some n ∧ n.kind = kind := by
    intro kind h
    exact hcomes.refused (Prod.ext (h : ((e.retarget s cat).exec ⟨supply, .empty, []⟩).1 = _) rfl)
  refine ⟨?_, ?_, hrefused⟩
  · intro h e' hrun
    obtain ⟨n, hn, hunsupported⟩ := h
    have hmem := Expr.mem_evaluationOrder_iff.mpr hn
    exact hunsupported (hcomes.handled (Pass.returns_of_result hrun) n hmem)
  · intro h kind hrun
    obtain ⟨n, hn, -⟩ := hrefused kind hrun
    -- The first node that cannot be handled is one that the pass can come to.
    have hnone : Expr.firstUnsupported? e.evaluationOrder = none :=
      Expr.firstUnsupported?_eq_none.mpr fun m hm => h m (Expr.mem_evaluationOrder_iff.mp hm)
    rw [hnone] at hn
    cases hn

namespace Sample

/-- An instance method that is not generic. -/
def compareTo : MethodRef := .ofDef ⟨Ty.long, "CompareTo", [], [Ty.long], Ty.int, false⟩

/-- A choice between two numbers. -/
def choice : Expr :=
  .conditional 3 (.constant 0 (.bool true)) (.constant 1 (.int 7)) (.default 2 Ty.long) Ty.long

/-- The comparison of a default value with that choice. -/
def unsupported : Expr := .call 5 (some (.default 4 Ty.long)) compareTo [choice] Ty.int

/-- Arguments come first, so that it is not the receiver that is refused; nor is the default value
    inside the choice, which a pass does not come to. -/
theorem unsupported_closedWorld :
    choice.Reached unsupported ∧ ¬choice.Supported ∧
      (Pass.run items catalog 6 unsupported).result = .error (.unsupportedKind .conditional) ∧
      (∀ e', (Pass.run items catalog 6 unsupported).result ≠ .ok e') ∧
      ∃ n, Expr.firstUnsupported? unsupported.evaluationOrder = some n ∧ n.kind = .conditional := by
  have hreached : choice.Reached unsupported :=
    .part (by decide) (by simp [unsupported, Expr.children]) .self
  have hunsupported : ¬choice.Supported := by decide
  have hrun : (Pass.run items catalog 6 unsupported).result =
      .error (.unsupportedKind .conditional) := rfl
  obtain ⟨hnever, -, hfirst⟩ := Pass.run_closedWorld items catalog 6 unsupported
  exact ⟨hreached, hunsupported, hrun, hnever ⟨choice, hreached, hunsupported⟩,
    hfirst _ hrun⟩

end Sample

end Retarget
