import Retarget.Proofs.Stale
import Retarget.Proofs.TreeWalk

/-!
# Retyping an argument

Retyping passes through any number of unary nodes to a lambda, gives the lambda the delegate type
that is wanted, and builds the unary nodes around it again. So it is the retyping of the node at
the core followed by a rebuilding that knows nothing of types: `Build.coerce_eq_rewrap`. At the
core, only a lambda of another delegate type is changed; the rebuilding returns what it is given
exactly if the core is the one that was there, and cannot fail on nodes that are well-typed.

## Key results

- `Expr.core`, `Expr.wrappers`: the node under a chain of unary nodes, and the chain
- `Build.rewrap_core`: nothing is built around the core that was there
- `Build.exists_rewrap`: around another lambda, the chain is built anew
- `Build.argument_of_delegate`: a call takes a lambda of the delegate type that its parameter wants
- `Expr.Constructed.coerce_retypes_core`: when retyping succeeds, and what it returns
-/

namespace Retarget

namespace Expr

/-! ## Chains of unary nodes -/

/-- The first node that is not unary under a chain of unary nodes. -/
def core : Expr → Expr
  | .unary _ _ operand _ _ => operand.core
  | e => e

/-- What a unary node says for itself: its operator, the type that it converts to if it is a
    conversion, and the method that overloads it. -/
structure Wrapper where
  op : UnaryOp
  target : Option Ty
  method : Option MethodRef
deriving DecidableEq, Repr

/-- The chain of unary nodes around the core, the outermost first. -/
def wrappers : Expr → List Wrapper
  | .unary id op operand ty method =>
    ⟨op, target? (.unary id op operand ty method), method⟩ :: operand.wrappers
  | _ => []

/-- Whether a node is a quotation. -/
def isQuotation : Expr → Bool
  | .unary _ .quote _ _ _ => true
  | _ => false

/-- The core of an expression is reachable. -/
theorem core_within (e : Expr) : e.core.Within e := by
  induction e using childInduction with
  | node e ih =>
    cases e with
    | unary id op operand ty method =>
      have hmem : operand ∈ (Expr.unary id op operand ty method).children := by simp [children]
      exact .part hmem (ih operand hmem)
    | _ => exact .self

/-- A node of another kind is its own core. -/
theorem core_of_kind {e : Expr} (h : e.kind ≠ .unary) : e.core = e := by
  cases e with
  | unary id op operand ty method => exact absurd rfl h
  | _ => rfl

/-- The core is not a unary node. -/
theorem core_kind (e : Expr) : e.core.kind ≠ .unary := by
  induction e using childInduction with
  | node e ih =>
    cases e with
    | unary id op operand ty method => exact ih operand (by simp [children])
    | _ => simp [core, kind]

/-- A node of another kind has no chain. -/
theorem wrappers_of_kind {e : Expr} (h : e.kind ≠ .unary) : e.wrappers = [] := by
  cases e with
  | unary id op operand ty method => exact absurd rfl h
  | _ => rfl

/-- An expression without a chain is its own core. -/
theorem core_of_wrappers {e : Expr} (h : e.wrappers = []) : e.core = e := by
  cases e with
  | unary id op operand ty method => cases h
  | _ => rfl

/-- The chain tells whether there is a quotation at its head. -/
theorem isQuotation_of_wrappers {e e' : Expr} (h : e'.wrappers = e.wrappers)
    (he : e.isQuotation = true) :
    ∃ id operand ty method, e' = .unary id .quote operand ty method := by
  cases e with
  | unary id op operand ty method =>
    cases op with
    | quote =>
      cases e' with
      | unary id' op' operand' ty' method' =>
        have hop : op' = .quote := congrArg Wrapper.op (List.cons.inj h).1
        exact ⟨id', operand', ty', method', by rw [hop]⟩
      | _ => cases h
    | _ => cases he
  | _ => cases he

/-- The chain does not depend on the types of unary nodes, but for those that are converted to. -/
theorem wrappers_unary_eq {id id' : Nat} {op : UnaryOp} {operand operand' : Expr} {ty ty' : Ty}
    {method : Option MethodRef} (hoperand : operand'.wrappers = operand.wrappers)
    (hty : op = .convert ∨ op = .typeAs → ty' = ty) :
    (Expr.unary id' op operand' ty' method).wrappers =
      (Expr.unary id op operand ty method).wrappers := by
  simp only [wrappers, hoperand]
  cases op with
  | convert => rw [hty (.inl rfl)]; rfl
  | typeAs => rw [hty (.inr rfl)]; rfl
  | not | negate | quote => rfl

end Expr

namespace Build

variable {a : Arena} {need : Ty} {arg : Expr} {n : Nat}

/-! ## Rebuilding the chain -/

/-- The unary nodes around the core of an expression, around another core. -/
def rewrap : Expr → Expr → Build Expr
  | .unary id op operand ty method, c => do
    let operand' ← rewrap operand c
    updateUnary (.unary id op operand ty method) operand'
  | _, c => pure c

/-- An argument is retyped at its core, and its chain is then built around the outcome. -/
theorem coerce_eq_rewrap (need : Ty) (arg : Expr) :
    coerce need arg = coerce need arg.core >>= rewrap arg := by
  -- Both sides pass through the unary nodes and update them on the way back.
  induction arg using Expr.childInduction with
  | node arg ih =>
    cases arg with
    | unary id op operand ty method =>
      have hoperand := ih operand (by simp [Expr.children])
      rw [coerce, hoperand, bind_assoc]
      rfl
    | _ => exact (bind_pure _).symm

/-- Around the core that was there, the whole expression comes back. -/
theorem rewrap_core (e : Expr) (n : Nat) : rewrap e e.core n = .ok (e, n) := by
  induction e using Expr.childInduction with
  | node e ih =>
    cases e with
    | unary id op operand ty method =>
      have hoperand := ih operand (by simp [Expr.children])
      exact bind_eq_ok.mpr ⟨operand, n, hoperand, updateUnary_eq_ok.mpr (.inl ⟨rfl, rfl, rfl⟩)⟩
    | _ => rfl

/-- An argument whose core retyping leaves alone is left alone. -/
theorem coerce_of_core (h : coerce need arg.core n = .ok (arg.core, n)) :
    coerce need arg n = .ok (arg, n) := by
  rw [coerce_eq_rewrap]
  exact bind_eq_ok.mpr ⟨arg.core, n, h, rewrap_core arg n⟩

/-- Around a new lambda, every unary node of the chain is built anew and says what it said. -/
theorem exists_rewrap (harg : arg ∈ a.nodes) {l : Expr} (hcore : arg.core.isLambda = true)
    (hl : l.isLambda = true) (hnew : a.supply ≤ l.id) (hn : a.supply ≤ n) :
    ∃ arg' k, rewrap arg l n = .ok (arg', k) ∧ arg'.core = l ∧ arg'.wrappers = arg.wrappers ∧
      arg'.kind = arg.kind ∧ a.supply ≤ arg'.id ∧ n ≤ k := by
  -- From the core outwards: each unary node has a new operand, and so is built anew.
  induction arg using Expr.childInduction with
  | node arg ih =>
    cases arg with
    | unary id op operand ty method =>
      have hmem := a.closed _ harg operand (by simp [Expr.children])
      obtain ⟨operand', k, hrewrap, hcore', hwrappers, hkind, hfresh, hk⟩ :=
        ih operand (by simp [Expr.children]) hmem hcore
      -- The operand is a node of the arena and what takes its place is none.
      have hbound := a.bounded operand hmem
      have hother : operand.id ≠ operand'.id := by omega
      -- A quotation is around a lambda and stays around one, so that the node has a type again.
      obtain ⟨t, ht, htarget⟩ := exists_unaryType (a.typed _ harg) hkind ty method
      have hid : a.supply ≤ k := by omega
      refine ⟨.unary k op operand' t method, k + 1, ?_, hcore', ?_, rfl, hid, by omega⟩
      · exact bind_eq_ok.mpr ⟨operand', k, hrewrap, updateUnary_eq_ok.mpr
          (.inr ⟨hother, unary_eq_ok.mpr ⟨t, ht, rfl, rfl⟩⟩)⟩
      · exact Expr.wrappers_unary_eq hwrappers htarget
    | lambda id delegate name tailCall params body =>
      have hkind : l.kind = .lambda := Expr.isLambda_iff_kind.mp hl
      have hunary : l.kind ≠ .unary := by rw [hkind]; decide
      exact ⟨l, n, rfl, Expr.core_of_kind hunary, Expr.wrappers_of_kind hunary, hkind, hnew,
        Nat.le_refl n⟩
    | _ => cases hcore

/-- When an argument around a lambda can be retyped, and to what. -/
theorem coerce_eq_ok_of_core {arg' : Expr} {k id : Nat} {delegate : Ty} {name : Option String}
    {tailCall : Bool} {params : List Parameter} {body : Expr}
    (hcore : arg.core = .lambda id delegate name tailCall params body) :
    coerce need arg n = .ok (arg', k) ↔
      (wantedDelegate need = delegate ∧ arg' = arg ∧ k = n) ∨
      (wantedDelegate need ≠ delegate ∧
        (∃ ret, wantedDelegate need = Ty.func (params.map (·.ty)) ret ∧
          body.ty.assignableTo ret = true) ∧
        rewrap arg (.lambda n (wantedDelegate need) name tailCall params body) (n + 1) =
          .ok (arg', k)) := by
  by_cases hwanted : wantedDelegate need = delegate
  · -- The lambda has the wanted type, and all around it is kept.
    have hkept : coerce need arg n = .ok (arg, n) := by
      refine coerce_of_core ?_
      rw [hcore]
      exact coerce_lambda_eq_ok.mpr (.inl ⟨hwanted, rfl, rfl⟩)
    rw [hkept]
    simp only [hwanted, Except.ok.injEq, Prod.mk.injEq, true_and, ne_eq, not_true_eq_false,
      false_and, or_false]
    exact and_congr eq_comm eq_comm
  · rw [coerce_eq_rewrap, hcore, bind_eq_ok]
    simp only [coerce_lambda_eq_ok, hwanted, false_and, false_or, ne_eq, not_false_eq_true,
      true_and]
    constructor
    · intro h
      obtain ⟨l, m, ⟨ret, hret, hbody, rfl, rfl⟩, hrewrap⟩ := h
      exact ⟨⟨ret, hret, hbody⟩, hrewrap⟩
    · intro h
      obtain ⟨⟨ret, hret, hbody⟩, hrewrap⟩ := h
      exact ⟨_, _, ⟨ret, hret, hbody, rfl, rfl⟩, hrewrap⟩

/-! ## The check of a call -/

/-- A type of lambdas as data is that of the delegate type that it wants. -/
theorem eq_expression_wantedDelegate (h : need.isExpression = true) :
    need = Ty.expression (wantedDelegate need) := by
  obtain ⟨delegate, hquoted⟩ := Option.isSome_iff_exists.mp h
  have hwanted : wantedDelegate need = delegate := by rw [wantedDelegate, hquoted, Option.getD_some]
  rw [hwanted]
  exact Ty.quoted?_eq_some.mp hquoted

/-- A call takes a lambda of the delegate type that its parameter wants: as it is, or quoted if the
    parameter wants it as data. -/
theorem argument_of_delegate {l : Expr} {types : List Ty} {ret : Ty} (hl : l.isLambda = true)
    (hty : l.ty = Ty.func types ret) (hwanted : l.ty = wantedDelegate need) (method : MethodRef)
    (index n : Nat) :
    ∃ taken k, argument method index l need n = .ok (taken, k) ∧ taken.ty = need := by
  -- The delegate type is wanted as such, or as that of a lambda as data.
  rcases wantedDelegate_eq_func.mp (hwanted.symm.trans hty) with rfl | rfl
  · have hassign : l.ty.assignableTo (Ty.func types ret) = true := by
      rw [hty, Ty.assignableTo_refl]
    exact ⟨l, n, argument_eq_ok.mpr (.inl ⟨hassign, rfl, rfl⟩), hty⟩
  · -- A delegate type converts to itself and to `object`, neither of which is wanted.
    have hassign : l.ty.assignableTo (Ty.expression (Ty.func types ret)) = false := by
      refine Bool.eq_false_iff.mpr fun h => ?_
      rw [hty] at h
      rcases Ty.func_assignableTo h with h | h
      · simp [Ty.expression, Ty.func] at h
      · simp [Ty.expression, Ty.object] at h
    exact ⟨_, _, argument_eq_ok.mpr (.inr ⟨hassign, hl, by rw [hty], rfl, rfl⟩), by
      rw [← hty]
      rfl⟩

/-- A call takes a quotation of a lambda of the delegate type that its parameter wants as data. -/
theorem argument_of_quotation {id : Nat} {l : Expr} {ty : Ty} {overload : Option MethodRef}
    (htyped : (Expr.unary id .quote l ty overload).TypingRule)
    (hwanted : l.ty = wantedDelegate need) (hneed : need.isExpression = true) (method : MethodRef)
    (index n : Nat) :
    ∃ taken k, argument method index (.unary id .quote l ty overload) need n = .ok (taken, k) ∧
      taken.ty = need := by
  have hty : ty = need := by
    rw [htyped.2, hwanted]
    exact (eq_expression_wantedDelegate hneed).symm
  have hassign : ty.assignableTo need = true := by rw [hty, Ty.assignableTo_refl]
  exact ⟨_, n, argument_eq_ok.mpr (.inl ⟨hassign, rfl, rfl⟩), hty⟩

/-- What retyping makes of an argument whose core is a lambda with the given parts. -/
structure Retypes (need : Ty) (arg : Expr) (delegate : Ty) (name : Option String)
    (tailCall : Bool) (params : List Parameter) (body arg' : Expr) : Prop where
  /-- The unary nodes say what they said. -/
  wrappers : arg'.wrappers = arg.wrappers
  /-- The lambda has the wanted delegate type, and the parameters and the body that it had. -/
  core : ∃ id, arg'.core = .lambda id (wantedDelegate need) name tailCall params body
  /-- The argument itself comes back exactly if its lambda had the wanted type. -/
  sameNode_iff : arg'.SameNode arg ↔ delegate = wantedDelegate need
  /-- It comes back with all that is in it. -/
  kept : arg'.SameNode arg → arg' = arg
  /-- Retyping once more changes nothing and builds nothing. -/
  again : ∀ later, coerce need arg' later = .ok (arg', later)
  /-- A call takes the lambda, or its quotation if it is wanted as data, for a parameter of the
      type that is wanted. -/
  taken : arg.isLambda = true ∨ arg.isQuotation = true ∧ need.isExpression = true →
    ∀ method index later, ∃ taken later',
      argument method index arg' need later = .ok (taken, later') ∧ taken.ty = need

variable {arg' : Expr} {k id : Nat} {delegate : Ty} {name : Option String} {tailCall : Bool}
  {params : List Parameter} {body : Expr}

/-- The lambda that retyping puts in the place of the core. -/
private theorem exists_rewrap_lambda (need : Ty) (harg : arg ∈ a.nodes)
    (hcore : arg.core = .lambda id delegate name tailCall params body) :
    ∃ arg' k, rewrap arg (.lambda a.supply (wantedDelegate need) name tailCall params body)
        (a.supply + 1) = .ok (arg', k) ∧
      arg'.core = .lambda a.supply (wantedDelegate need) name tailCall params body ∧
      arg'.wrappers = arg.wrappers ∧ a.supply ≤ arg'.id := by
  have hlambda : arg.core.isLambda = true := by rw [hcore]; rfl
  obtain ⟨arg', k, hrewrap, hcore', hwrappers, -, hfresh, -⟩ :=
    exists_rewrap harg (l := .lambda a.supply (wantedDelegate need) name tailCall params body)
      hlambda rfl (Nat.le_refl _) (Nat.le_succ a.supply)
  exact ⟨arg', k, hrewrap, hcore', hwrappers, hfresh⟩

/-- Retyping returns the argument itself, or builds its chain anew around a new lambda. -/
theorem coerce_cases (harg : arg ∈ a.nodes)
    (hcore : arg.core = .lambda id delegate name tailCall params body)
    (h : coerce need arg a.supply = .ok (arg', k)) :
    (wantedDelegate need = delegate ∧ arg' = arg) ∨
      (wantedDelegate need ≠ delegate ∧
        (∃ ret, wantedDelegate need = Ty.func (params.map (·.ty)) ret ∧
          body.ty.assignableTo ret = true) ∧
        arg'.core = .lambda a.supply (wantedDelegate need) name tailCall params body ∧
        arg'.wrappers = arg.wrappers ∧ a.supply ≤ arg'.id) := by
  rcases (coerce_eq_ok_of_core hcore).mp h with ⟨hwanted, harg', -⟩ | ⟨hwanted, hfits, hrewrap⟩
  · exact .inl ⟨hwanted, harg'⟩
  · obtain ⟨built, m, hbuilt, hcore', hwrappers, hfresh⟩ := exists_rewrap_lambda need harg hcore
    -- The rebuilding has one outcome.
    obtain ⟨rfl, -⟩ := Prod.mk.inj (Except.ok.inj (hrewrap.symm.trans hbuilt))
    exact .inr ⟨hwanted, hfits, hcore', hwrappers, hfresh⟩

/-- Retyping succeeds on a lambda of the wanted type, and on one whose parameters and body fit. -/
theorem exists_coerce_iff (harg : arg ∈ a.nodes)
    (hcore : arg.core = .lambda id delegate name tailCall params body) :
    (∃ arg' k, coerce need arg a.supply = .ok (arg', k)) ↔
      delegate = wantedDelegate need ∨
        ∃ ret, wantedDelegate need = Ty.func (params.map (·.ty)) ret ∧
          body.ty.assignableTo ret = true := by
  constructor
  · intro h
    obtain ⟨arg', k, h⟩ := h
    rcases coerce_cases harg hcore h with ⟨hwanted, -⟩ | ⟨-, hfits, -⟩
    · exact .inl hwanted.symm
    · exact .inr hfits
  · intro h
    -- A lambda of the wanted type is kept; any other has to fit, and then its chain can be built.
    by_cases hwanted : wantedDelegate need = delegate
    · exact ⟨arg, a.supply, (coerce_eq_ok_of_core hcore).mpr (.inl ⟨hwanted, rfl, rfl⟩)⟩
    · have hfits := h.resolve_left fun heq => hwanted heq.symm
      obtain ⟨arg', k, hrewrap, -⟩ := exists_rewrap_lambda need harg hcore
      exact ⟨arg', k, (coerce_eq_ok_of_core hcore).mpr (.inr ⟨hwanted, hfits, hrewrap⟩)⟩

/-- A call takes what retyping returns, unless it is a conversion or wanted otherwise. -/
theorem argument_of_core (harg' : arg'.TypingRule) (htyped : arg'.core.TypingRule)
    (hwrappers : arg'.wrappers = arg.wrappers)
    (hcore : arg'.core = .lambda id (wantedDelegate need) name tailCall params body)
    (harg : arg.isLambda = true ∨ arg.isQuotation = true ∧ need.isExpression = true)
    (method : MethodRef) (index later : Nat) :
    ∃ taken later', argument method index arg' need later = .ok (taken, later') ∧
      taken.ty = need := by
  rcases harg with hlambda | ⟨hquotation, hneed⟩
  · -- A lambda has no chain, and so what comes back is a lambda.
    have hkind : arg.kind ≠ .unary := by
      rw [Expr.isLambda_iff_kind.mp hlambda]
      decide
    have hnone : arg'.wrappers = [] := hwrappers.trans (Expr.wrappers_of_kind hkind)
    rw [Expr.core_of_wrappers hnone] at hcore htyped
    rw [hcore] at htyped ⊢
    obtain ⟨ret, hdelegate, -⟩ := htyped
    have hty : (Expr.lambda id (wantedDelegate need) name tailCall params body).ty =
        Ty.func (params.map (·.ty)) ret := hdelegate
    exact argument_of_delegate rfl hty rfl method index later
  · obtain ⟨id', l, ty, overload, rfl⟩ := Expr.isQuotation_of_wrappers hwrappers hquotation
    -- What a quotation is around is a lambda, and so it is the core.
    have hl : l.core = l := Expr.core_of_kind (by
      rw [Expr.isLambda_iff_kind.mp harg'.1]
      decide)
    have hty : l.ty = wantedDelegate need := by
      rw [← hl, show l.core = _ from hcore]
      rfl
    exact argument_of_quotation harg' hty hneed method index later

/-- What retyping returns for an argument around a lambda. -/
theorem retypes_of_coerce (harg : arg ∈ a.nodes)
    (hcore : arg.core = .lambda id delegate name tailCall params body)
    (h : coerce need arg a.supply = .ok (arg', k)) :
    Retypes need arg delegate name tailCall params body arg' := by
  have hcases := coerce_cases harg hcore h
  have hwrappers : arg'.wrappers = arg.wrappers := by
    rcases hcases with ⟨-, rfl⟩ | ⟨-, -, -, hwrappers, -⟩
    · rfl
    · exact hwrappers
  have hcore' : ∃ id, arg'.core = .lambda id (wantedDelegate need) name tailCall params body := by
    rcases hcases with ⟨hwanted, rfl⟩ | ⟨-, -, hcore', -⟩
    · exact ⟨id, by rw [hcore, hwanted]⟩
    · exact ⟨a.supply, hcore'⟩
  have hsame : arg'.SameNode arg → wantedDelegate need = delegate ∧ arg' = arg := by
    intro hid
    -- What was built has an identity that no node of the arena has.
    have hbound := a.bounded arg harg
    refine hcases.resolve_right fun hnew => ?_
    have hfresh := hnew.2.2.2.2
    unfold Expr.SameNode at hid
    omega
  have hself : ∀ later, coerce need arg' later = .ok (arg', later) := by
    intro later
    obtain ⟨id', hid'⟩ := hcore'
    refine coerce_of_core ?_
    rw [hid']
    exact coerce_lambda_eq_ok.mpr (.inl ⟨rfl, rfl, rfl⟩)
  obtain ⟨b, -, -, hb⟩ := coerce_gains harg h
  have hmem : arg' ∈ b.nodes := hb arg' List.mem_cons_self
  exact {
    wrappers := hwrappers
    core := hcore'
    sameNode_iff := by
      constructor
      · intro hid
        exact (hsame hid).1.symm
      · intro hwanted
        rcases hcases with ⟨-, rfl⟩ | ⟨hne, -⟩
        · rfl
        · exact absurd hwanted.symm hne
    kept := fun hid => (hsame hid).2
    again := hself
    taken := by
      obtain ⟨id', hid'⟩ := hcore'
      have hwithin : arg'.core.Within arg' := Expr.core_within arg'
      exact argument_of_core (b.typed _ hmem) (b.typed _ (b.mem_of_within hwithin hmem)) hwrappers
        hid' }

end Build

/-! ## Constructed arguments -/

/-- Retyping leaves alone what is not around a lambda. Around a lambda, it succeeds exactly if the
    lambda has the wanted delegate type, or one that it fits into is wanted, and changes nothing
    but that type. -/
theorem Expr.Constructed.coerce_retypes_core {supply : Nat} {arg : Expr}
    (h : arg.Constructed supply) (need : Ty) :
    (arg.core.isLambda = false → Build.coerce need arg supply = .ok (arg, supply)) ∧
      ∀ id delegate name tailCall params body,
        arg.core = .lambda id delegate name tailCall params body →
        ((∃ arg' n, Build.coerce need arg supply = .ok (arg', n)) ↔
          delegate = Build.wantedDelegate need ∨
            ∃ ret, Build.wantedDelegate need = Ty.func (params.map (·.ty)) ret ∧
              body.ty.assignableTo ret = true) ∧
        ∀ arg' n, Build.coerce need arg supply = .ok (arg', n) →
          Build.Retypes need arg delegate name tailCall params body arg' := by
  obtain ⟨a, rfl, harg⟩ := h.exists_arena
  constructor
  · intro hcore
    have hlambda : arg.core.kind ≠ .lambda := by
      intro hkind
      rw [Expr.isLambda_iff_kind.mpr hkind] at hcore
      cases hcore
    exact Build.coerce_of_core (Build.coerce_of_kind hlambda arg.core_kind _)
  · intro id delegate name tailCall params body hcore
    exact ⟨Build.exists_coerce_iff harg hcore, fun _ _ => Build.retypes_of_coerce harg hcore⟩

namespace Sample

/-- The quotation with a lambda of the type that is inferred for it. -/
def predicate : Expr :=
  .unary 9 .quote
    (.lambda 8 (Ty.func [itemFrom] Ty.bool) none false [element itemFrom 0]
      (comparison itemFrom 7 0))
    (Ty.expression (Ty.func [itemFrom] Ty.bool)) none

/-- The lambda of the query returns an object, and is retyped to return a truth value. -/
theorem quotation_retypes :
    (quotation itemFrom 7 0 5).Constructed 8 ∧
      (quotation itemFrom 7 0 5).core = selector itemFrom 7 0 5 ∧
      Build.coerce (Ty.expression (Ty.func [itemFrom] Ty.bool)) (quotation itemFrom 7 0 5) 8 =
        .ok (predicate, 10) ∧
      Build.Retypes (Ty.expression (Ty.func [itemFrom] Ty.bool)) (quotation itemFrom 7 0 5)
        (Ty.func [itemFrom] Ty.object) none false [element itemFrom 0] (comparison itemFrom 7 0)
        predicate := by
  have hconstructed : (quotation itemFrom 7 0 5).Constructed 8 :=
    ⟨_, selection itemFrom 7 0 5, selection_built, List.mem_cons_self,
      .part (by simp [selection, Expr.children]) .self⟩
  have hcoerce : Build.coerce (Ty.expression (Ty.func [itemFrom] Ty.bool))
      (quotation itemFrom 7 0 5) 8 = .ok (predicate, 10) := rfl
  have hspec := (Expr.Constructed.coerce_retypes_core hconstructed
    (Ty.expression (Ty.func [itemFrom] Ty.bool))).2 _ _ _ _ _ _ rfl
  exact ⟨hconstructed, rfl, hcoerce, hspec.2 _ _ hcoerce⟩

end Sample

end Retarget
