import Mathlib.Data.List.Forall2
import Retarget.Proofs.Unfolding

/-!
# Updating and rebuilding

An update of a call or of a unary node gives the node back when its parts are those that the node
has, without a check. That is the same as building a node anew from the parts: what the node holds
was checked when it was built, and a call that was given quotations does not quote them again. The
invariant that carries this is the typing rule of the node that is updated.

A node that is built anew has an identity of its own, and so has each quotation that a call makes
for it; all else that the two constructions return is the same, down to the identities of the parts.

## Key results

- `Build.AgreeFrom`: constructions with the same outcome, whatever new identities they take
- `Build.call_agrees`, `Build.unary_agrees`: a construction agrees with itself
- `Build.Updates`: how an update compares with building anew
- `Built.updates_rebuild`: updates of constructed nodes
-/

namespace Retarget

namespace Expr

/-- One node, or two quotations of one lambda that were both made from identities not used below
    `bound`. -/
inductive SameArgument (bound : Nat) : Expr → Expr → Prop where
  | same (e : Expr) : SameArgument bound e e
  | quotation {id id' : Nat} {l : Expr} {ty : Ty} (lambda : l.isLambda = true)
      (new : bound ≤ id) (new' : bound ≤ id') :
      SameArgument bound (.unary id .quote l ty none) (.unary id' .quote l ty none)

/-- Two calls or two unary nodes that differ in their identities alone, and in those of quotations
    that were made for them. -/
inductive SameContent (bound : Nat) : Expr → Expr → Prop where
  | call {id id' : Nat} {receiver : Option Expr} {method : MethodRef} {args args' : List Expr}
      {ty : Ty} (arguments : List.Forall₂ (SameArgument bound) args args') :
      SameContent bound (.call id receiver method args ty) (.call id' receiver method args' ty)
  | unary {id id' : Nat} {op : UnaryOp} {operand : Expr} {ty : Ty} {method : Option MethodRef} :
      SameContent bound (.unary id op operand ty method) (.unary id' op operand ty method)

end Expr

namespace Build

open Retarget.Expr (SameArgument SameContent)

/-! ## Constructions with the same outcome -/

/-- The outcomes of two constructions: the same failure, or results that are related and identities
    that are left from `bound` on. -/
inductive SameOutcome {α : Type} (bound : Nat) (R : α → α → Prop) :
    Except BuildError (α × Nat) → Except BuildError (α × Nat) → Prop where
  | failed (err : BuildError) : SameOutcome bound R (.error err) (.error err)
  | built {a a' : α} {k k' : Nat} (result : R a a') (supply : bound ≤ k) (supply' : bound ≤ k') :
      SameOutcome bound R (.ok (a, k)) (.ok (a', k'))

/-- Two constructions that have the same outcome when each is given identities from anywhere above
    `bound`. -/
def AgreeFrom {α : Type} (bound : Nat) (R : α → α → Prop) (b b' : Build α) : Prop :=
  ∀ n n', bound ≤ n → bound ≤ n' → SameOutcome bound R (b n) (b' n')

namespace AgreeFrom

variable {α β : Type} {bound : Nat} {R : α → α → Prop} {S : β → β → Prop}

theorem pure {a a' : α} (h : R a a') : AgreeFrom bound R (Pure.pure a) (Pure.pure a') :=
  fun _ _ hn hn' => .built h hn hn'

/-- Refusing agrees with refusing by the same error. -/
theorem throw (err : BuildError) :
    AgreeFrom bound R (MonadExcept.throw err) (MonadExcept.throw err) :=
  fun _ _ _ _ => .failed err

/-- Sequences agree when their parts do. -/
theorem bind {b b' : Build α} {k k' : α → Build β} (hb : AgreeFrom bound R b b')
    (hk : ∀ a a', R a a' → AgreeFrom bound S (k a) (k' a')) :
    AgreeFrom bound S (b >>= k) (b' >>= k') := by
  intro n n' hn hn'
  have hfirst := hb n n' hn hn'
  simp only [Bind.bind, StateT.bind, Except.bind]
  generalize b n = r, b' n' = r' at hfirst ⊢
  -- Both first parts fail alike, or both succeed and the second parts go on from related values.
  cases hfirst with
  | failed err => exact .failed err
  | built result supply supply' => exact hk _ _ result _ _ supply supply'

/-- A step that takes no identities agrees with itself. -/
theorem lift (x : Except BuildError α) : AgreeFrom bound (· = ·) (liftM x) (liftM x) := by
  intro n n' hn hn'
  cases x with
  | error err => exact .failed err
  | ok a => exact .built rfl hn hn'

/-- A check agrees with itself. -/
theorem check (c : Bool) (err : BuildError) :
    AgreeFrom bound (· = ·) (Build.check c err) (Build.check c err) := by
  cases c with
  | true => exact .pure rfl
  | false => exact .throw err

/-- The raising of a fault, if there is one, agrees with itself. -/
theorem refuse (fault : Option BuildError) :
    AgreeFrom bound (· = ·) (Build.refuse fault) (Build.refuse fault) := by
  cases fault with
  | none => exact .pure rfl
  | some err => exact .throw err

/-- The identities that are given out are new. -/
theorem fresh : AgreeFrom bound (fun id id' => bound ≤ id ∧ bound ≤ id') Build.fresh Build.fresh :=
  fun _ _ hn hn' => .built ⟨hn, hn'⟩ (Nat.le_succ_of_le hn) (Nat.le_succ_of_le hn')

end AgreeFrom

/-! ## Building twice -/

variable {bound : Nat}

/-- A unary node that is built twice has the same content. -/
theorem unary_agrees (op : UnaryOp) (operand : Expr) (ty : Ty) (method : Option MethodRef) :
    AgreeFrom bound (SameContent bound) (unary op operand ty method)
      (unary op operand ty method) := by
  unfold unary
  refine .bind (.lift _) fun t t' ht => .bind .fresh fun id id' _ => .pure ?_
  subst ht
  exact .unary

/-- A lambda that is quoted twice has two quotations. -/
theorem quote_agrees {l : Expr} (hl : l.isLambda = true) :
    AgreeFrom bound (SameArgument bound) (quote l) (quote l) := by
  unfold quote unary
  refine .bind (.lift _) fun t t' ht => .bind .fresh fun id id' hnew => .pure ?_
  subst ht
  exact .quotation hl hnew.1 hnew.2

/-- An argument that is taken twice is taken as it is, or in two quotations of one lambda. -/
theorem argument_agrees (method : MethodRef) (index : Nat) (arg : Expr) (expected : Ty) :
    AgreeFrom bound (SameArgument bound) (argument method index arg expected)
      (argument method index arg expected) := by
  unfold argument
  split
  · exact .pure (.same arg)
  · split
    · rename_i hwanted
      rw [Bool.and_eq_true] at hwanted
      exact quote_agrees hwanted.1
    · exact .throw _

/-- Arguments in a row are taken alike one by one. -/
theorem argumentsFrom_agrees (method : MethodRef) (index : Nat) (args : List Expr)
    (types : List Ty) :
    AgreeFrom bound (List.Forall₂ (SameArgument bound)) (argumentsFrom method index args types)
      (argumentsFrom method index args types) := by
  -- From the left; each argument may take an identity for its quotation.
  induction args generalizing index types with
  | nil => exact .pure .nil
  | cons arg args ih =>
    cases types with
    | nil => exact .pure .nil
    | cons t ts =>
      refine .bind (argument_agrees method index arg t) fun first first' hfirst =>
        .bind (ih (index + 1) ts) fun rest rest' hrest => .pure ?_
      exact .cons hfirst hrest

/-- A call that is built twice has the same content, up to quotations of the same lambdas. -/
theorem call_agrees (receiver : Option Expr) (method : MethodRef) (args : List Expr) :
    AgreeFrom bound (SameContent bound) (call receiver method args)
      (call receiver method args) := by
  unfold call
  refine .bind (.check _ _) fun _ _ _ => .bind (.refuse _) fun _ _ _ =>
    .bind (.check _ _) fun _ _ _ => .bind (argumentsFrom_agrees method 0 args _)
      fun as as' has => .bind .fresh fun id id' _ => .pure ?_
  exact .call has

/-! ## The shortcut -/

/-- The test of optional parts is the identity of what is there. -/
theorem sameOption_iff_rel {o o' : Option Expr} :
    sameOption o o' = true ↔ Option.Rel Expr.SameNode o o' := by
  cases o <;> cases o' <;> simp [sameOption]

/-- The test of parts in a row is identity place by place. -/
theorem sameList_iff_forall₂ {es es' : List Expr} :
    sameList es es' = true ↔ List.Forall₂ Expr.SameNode es es' := by
  induction es generalizing es' with
  | nil => cases es' <;> simp [sameList]
  | cons e es ih => cases es' <;> simp [sameList, ih]

/-- How the update of a node compares with building it anew from other parts, of which `kept` says
    that they are the parts that the node has. -/
structure Updates (supply : Nat) (old : Expr) (kept : Prop) (update rebuild : Build Expr) :
    Prop where
  /-- Both fail alike, or return nodes of the same content. -/
  agree : AgreeFrom supply (SameContent supply) update rebuild
  /-- The node itself is returned exactly if its parts are kept. -/
  sameNode_iff : ∀ n, supply ≤ n →
    ((∃ e n', update n = .ok (e, n') ∧ e.SameNode old) ↔ kept)
  /-- It is returned with all that is in it, and nothing is built. -/
  returns : kept → ∀ n, update n = .ok (old, n)

/-- An update that takes the shortcut exactly if the parts are kept, and builds the node anew
    otherwise. -/
theorem Updates.of_shortcut {supply : Nat} {old : Expr} {kept : Prop} {update rebuild : Build Expr}
    (hbound : old.id < supply) (hagrees : AgreeFrom supply (SameContent supply) rebuild rebuild)
    (hreturns : kept → ∀ n, update n = .ok (old, n)) (hrebuilds : ¬kept → update = rebuild)
    (hkept : kept → ∀ n, ∃ e, rebuild n = .ok (e, n + 1) ∧ SameContent supply old e)
    (hnew : ∀ n e n', supply ≤ n → rebuild n = .ok (e, n') → supply ≤ e.id) :
    Updates supply old kept update rebuild where
  agree := by
    -- Where the parts are kept the node is compared with one built anew; elsewhere both are built.
    by_cases h : kept
    · intro n n' hn hn'
      obtain ⟨e, he, hcontent⟩ := hkept h n'
      rw [hreturns h n, he]
      exact .built hcontent hn (Nat.le_succ_of_le hn')
    · rw [hrebuilds h]
      exact hagrees
  sameNode_iff := by
    intro n hn
    constructor
    · rintro ⟨e, n', he, hid⟩
      by_contra h
      rw [hrebuilds h] at he
      -- What is built anew has an identity that the old node cannot have.
      have hfresh := hnew n e n' hn he
      unfold Expr.SameNode at hid
      omega
    · intro h
      exact ⟨old, n, hreturns h n, rfl⟩
  returns := hreturns

variable {a : Arena}

/-- Parts that are the same nodes are equal within an arena. -/
private theorem eq_of_rel_sameNode {o o' : Option Expr} (ho : ∀ e, o = some e → e ∈ a.nodes)
    (ho' : ∀ e, o' = some e → e ∈ a.nodes) (h : Option.Rel Expr.SameNode o o') : o' = o := by
  cases h with
  | none => rfl
  | some h => rw [a.coherent _ (ho' _ rfl) _ (ho _ rfl) h.symm]

/-- Parts in a row that are the same nodes one by one are equal within an arena. -/
private theorem eq_of_forall₂_sameNode {es es' : List Expr} (hes : ∀ e ∈ es, e ∈ a.nodes)
    (hes' : ∀ e ∈ es', e ∈ a.nodes) (h : List.Forall₂ Expr.SameNode es es') : es' = es := by
  induction h with
  | nil => rfl
  | cons h _ ih =>
    rw [a.coherent _ (hes' _ List.mem_cons_self) _ (hes _ List.mem_cons_self) h.symm,
      ih (fun x hx => hes x (List.mem_cons_of_mem _ hx))
        (fun x hx => hes' x (List.mem_cons_of_mem _ hx))]

/-- To update a call of an arena is to build it anew over the other parts. -/
theorem updateCall_updates {id : Nat} {receiver receiver' : Option Expr} {method : MethodRef}
    {args args' : List Expr} {ty : Ty} (hold : .call id receiver method args ty ∈ a.nodes)
    (hreceiver : ∀ x, receiver' = some x → x ∈ a.nodes) (hargs : ∀ x ∈ args', x ∈ a.nodes) :
    Updates a.supply (.call id receiver method args ty)
      (Option.Rel Expr.SameNode receiver receiver' ∧ List.Forall₂ Expr.SameNode args args')
      (updateCall (.call id receiver method args ty) receiver' args')
      (call receiver' method args') := by
  have hshortcut : (sameOption receiver receiver' && sameList args args') = true ↔
      Option.Rel Expr.SameNode receiver receiver' ∧ List.Forall₂ Expr.SameNode args args' := by
    rw [Bool.and_eq_true, sameOption_iff_rel, sameList_iff_forall₂]
  -- Kept parts give the node back, other parts are built over, and a new call gets a new identity.
  refine .of_shortcut (a.bounded _ hold) (call_agrees _ _ _) ?_ ?_ ?_ ?_
  · intro hkept n
    rw [updateCall, if_pos (hshortcut.mpr hkept)]
    rfl
  · intro hkept
    rw [updateCall, if_neg fun h => hkept (hshortcut.mp h)]
  · -- The receiver and the arguments that the call holds are those that a new call takes as well.
    intro hkept n
    obtain rfl := eq_of_rel_sameNode (a.receiver_mem hold) hreceiver hkept.1
    obtain rfl := eq_of_forall₂_sameNode (a.args_mem hold) hargs hkept.2
    exact ⟨_, call_of_typed (a.typed _ hold) n, .call (List.forall₂_same.mpr fun x _ => .same x)⟩
  · intro n e n' hn h
    obtain ⟨-, -, -, args'', k, hargs'', rfl, -⟩ := call_eq_ok.mp h
    exact Nat.le_trans hn (argumentsFrom_le hargs'')

/-- To update a unary node of an arena is to build it anew over the other operand. -/
theorem updateUnary_updates {id : Nat} {op : UnaryOp} {operand operand' : Expr} {ty : Ty}
    {method : Option MethodRef} (hold : .unary id op operand ty method ∈ a.nodes)
    (hoperand : operand' ∈ a.nodes) :
    Updates a.supply (.unary id op operand ty method) (operand.SameNode operand')
      (updateUnary (.unary id op operand ty method) operand') (unary op operand' ty method) := by
  have hmem : operand ∈ a.nodes := a.closed _ hold _ (List.mem_singleton_self _)
  refine .of_shortcut (a.bounded _ hold) (unary_agrees _ _ _ _) ?_ ?_ ?_ ?_
  · intro hkept n
    rw [updateUnary, if_pos hkept]
    rfl
  · intro hkept
    rw [updateUnary, if_neg hkept]
  · -- The type of a quotation or a negation is computed anew, and comes out as it was.
    intro hkept n
    obtain rfl := a.coherent _ hoperand _ hmem hkept.symm
    exact ⟨_, unary_of_typed (a.typed _ hold) n, .unary⟩
  · intro n e n' hn h
    obtain ⟨t, -, rfl, -⟩ := unary_eq_ok.mp h
    exact hn

end Build

/-! ## Constructed nodes -/

/-- A node that is reachable from some of the given ones. -/
def Expr.Among (nodes : List Expr) (e : Expr) : Prop := ∃ root ∈ nodes, e.Within root

/-- Among the nodes of a history, to update a call or a unary node is to build it anew, and the
    node itself comes back exactly if its parts are those that it has. -/
theorem Built.updates_rebuild {supply : Nat} {nodes : List Expr} (h : Built supply nodes) :
    (∀ id receiver method args ty receiver' args',
      (∀ e ∈ Expr.call id receiver method args ty :: (receiver'.toList ++ args'), e.Among nodes) →
      Build.Updates supply (.call id receiver method args ty)
        (Option.Rel Expr.SameNode receiver receiver' ∧ List.Forall₂ Expr.SameNode args args')
        (Build.updateCall (.call id receiver method args ty) receiver' args')
        (Build.call receiver' method args')) ∧
    ∀ id op operand ty method operand',
      (∀ e ∈ [Expr.unary id op operand ty method, operand'], e.Among nodes) →
      Build.Updates supply (.unary id op operand ty method) (operand.SameNode operand')
        (Build.updateUnary (.unary id op operand ty method) operand')
        (Build.unary op operand' ty method) := by
  obtain ⟨a, rfl, ha⟩ := h.exists_arena
  have hmem : ∀ e, e.Among nodes → e ∈ a.nodes := by
    intro e he
    obtain ⟨root, hroot, hwithin⟩ := he
    exact a.mem_of_within hwithin (ha root hroot)
  constructor
  · intro id receiver method args ty receiver' args' hamong
    refine Build.updateCall_updates (hmem _ (hamong _ List.mem_cons_self)) ?_ ?_
    · intro x hx
      exact hmem x (hamong x (by simp [hx]))
    · intro x hx
      exact hmem x (hamong x (by simp [hx]))
  · intro id op operand ty method operand' hamong
    exact Build.updateUnary_updates (hmem _ (hamong _ (by simp))) (hmem _ (hamong _ (by simp)))

namespace Sample

/-- The query with another quotation of its lambda. -/
def requotation (item : Ty) (n : Int64) (first outer : Nat) : Expr :=
  .call (outer + 4) none (select item)
    [source item first, .unary (outer + 3) .quote (selector item n first outer)
      (Ty.expression (Ty.func [item] Ty.object)) none] (Ty.query Ty.object)

/-- The query is updated with the bare lambda that is quoted in it, and then is not the node that
    it was. -/
theorem selection_updates :
    Built 8 selectionHistory ∧
      Build.updateCall (selection itemFrom 7 0 5) none [source itemFrom 0, selector itemFrom 7 0 5]
        8 = .ok (requotation itemFrom 7 0 5, 10) ∧
      Build.Updates 8 (selection itemFrom 7 0 5)
        (Option.Rel Expr.SameNode none none ∧ List.Forall₂ Expr.SameNode
          [source itemFrom 0, quotation itemFrom 7 0 5]
          [source itemFrom 0, selector itemFrom 7 0 5])
        (Build.updateCall (selection itemFrom 7 0 5) none
          [source itemFrom 0, selector itemFrom 7 0 5])
        (Build.call none (select itemFrom) [source itemFrom 0, selector itemFrom 7 0 5]) := by
  have hamong : ∀ e ∈ [selection itemFrom 7 0 5, source itemFrom 0, selector itemFrom 7 0 5],
      e.Among selectionHistory := by
    intro e he
    refine ⟨e, ?_, .self⟩
    simp only [List.mem_cons, List.not_mem_nil, or_false] at he
    rcases he with rfl | rfl | rfl <;> simp [selectionHistory]
  exact ⟨selection_built, rfl, (Built.updates_rebuild selection_built).1 _ _ _ _ _ _ _ hamong⟩

end Sample

end Retarget
