import Retarget.Proofs.Isomorphism
import Retarget.Proofs.TreeWalk

/-!
# A second pass

A substitution is stable when it has nothing left to replace in what it has made. A second pass
under a stable substitution succeeds whenever the first one did, and gives an isomorphic expression:
it infers the same delegate types, asks for the same retyping and finds the quotations that the
first pass put around arguments already there.

The arguments of a call are not themselves what the recursion made of the old arguments, since they
may have been retyped and quoted. What carries the induction through them is that a pass does not
see whether a tree was retyped, and that it keeps a quotation around what becomes of its lambda.

## Key results

- `Substitution.Stable`: nothing is left to replace
- `Expr.Becomes.again`: the recursion leaves what it has made as it is
- `Expr.Constructed.run_again`: the statement for whole passes
-/

namespace Retarget

/-- A substitution that leaves what it has made as it is: no source of the table has type arguments,
    no replacement is replaced in turn, the transformation of constants changes nothing when it is
    made once more, and members are not overridden. -/
structure Substitution.Stable (s : Substitution) : Prop where
  plain : s.PlainKeys
  settled : ∀ pair ∈ s.pairs, s.resolve pair.2 = pair.2
  transform : ∀ f, s.constantTransform = some f → ∀ v, f (f v) = f v
  noOverride : s.memberOverride = none

namespace Substitution.Stable

variable {s : Substitution}

/-- Resolving twice is resolving once. -/
theorem resolve_resolve (h : s.Stable) (t : Ty) : s.resolve (s.resolve t) = s.resolve t :=
  h.plain.resolve_resolve h.settled t

/-- Transforming a constant twice is transforming it once, if constants are transformed at all. -/
theorem transform_transform (h : s.Stable) (v : Value) :
    s.transform (s.transform v) = s.transform v := by
  unfold Substitution.transform
  cases hf : s.constantTransform with
  | none => rfl
  | some f => exact h.transform f hf v

/-- A method that was rebound has type arguments that stay as they are. -/
theorem rebind_rebind (h : s.Stable) (m : MethodRef) : s.rebind (s.rebind m) = s.rebind m := by
  unfold Substitution.rebind
  rw [MethodRef.mapTypeArgs_mapTypeArgs]
  exact MethodRef.mapTypeArgs_congr fun t _ => h.resolve_resolve t

/-- The overload of an operator that was rebound has type arguments that stay as they are. -/
theorem map_rebind_rebind (h : s.Stable) (m : Option MethodRef) :
    (m.map s.rebind).map s.rebind = m.map s.rebind := by
  cases m with
  | none => rfl
  | some m => exact congrArg some (h.rebind_rebind m)

/-- A parameter that was retargeted has a type that stays as it is. -/
theorem retargeted_retargeted (h : s.Stable) (p : Parameter) :
    (p.retargeted s).retargeted s = p.retargeted s := by
  unfold Parameter.retargeted
  rw [h.resolve_resolve]

end Substitution.Stable

namespace Expr

variable {s : Substitution} {cat : Catalog}

/-! ## One node -/

/-- The expression `e` becomes nothing but what stays as it is. -/
def Settles (s : Substitution) (cat : Catalog) (e : Expr) : Prop :=
  ∀ {x : Expr}, Becomes s cat e x → Becomes s cat x x

/-- A leaf becomes one with a resolved type, or a transformed value, and both stay. -/
theorem leaf_settles (hs : s.Stable) {e : Expr} (hleaf : e.isLeaf = true) : Settles s cat e := by
  intro x h
  obtain rfl := (becomes_leaf hleaf).mp h
  -- A parameter has a resolved type, a constant a transformed value.
  obtain ⟨p, rfl⟩ | ⟨id, v, rfl⟩ := isLeaf_iff.mp hleaf
  · refine (becomes_leaf rfl).mpr ?_
    simp only [replacement, hs.resolve_resolve]
  · refine (becomes_leaf rfl).mpr ?_
    simp only [replacement, hs.transform_transform]

/-- What becomes of an optional part settles if the part does. -/
theorem option_settles {o o' : Option Expr} (ih : ∀ e, o = some e → Settles s cat e)
    (h : Option.Rel (Becomes s cat) o o') : Option.Rel (Becomes s cat) o' o' := by
  cases h with
  | none => exact .none
  | some h => exact .some (ih _ rfl h)

/-- A lambda becomes one over resolved types, the same of which are inferred again. -/
theorem lambda_settles (hs : s.Stable) {id : Nat} {delegate : Ty} {name : Option String}
    {tailCall : Bool} {params : List Parameter} {body : Expr} (ih : Settles s cat body) :
    Settles s cat (.lambda id delegate name tailCall params body) := by
  intro x h
  obtain ⟨body', hbody, rfl⟩ := becomes_lambda.mp h
  refine becomes_lambda.mpr ⟨body', ih hbody, ?_⟩
  have htypes : (params.map (Parameter.retargeted s)).map (fun p => s.resolve p.ty) =
      params.map fun p => s.resolve p.ty := by
    rw [List.map_map]
    exact List.map_congr_left fun p _ => hs.resolve_resolve p.ty
  have hparams : (params.map (Parameter.retargeted s)).map (Parameter.retargeted s) =
      params.map (Parameter.retargeted s) := by
    rw [List.map_map]
    exact List.map_congr_left fun p _ => hs.retargeted_retargeted p
  rw [htypes, hparams]

/-- The access of a member becomes that of a member which is resolved to itself. -/
theorem member_settles (hs : s.Stable) {id : Nat} {object : Option Expr} {m : Member}
    (ih : ∀ e, object = some e → Settles s cat e) : Settles s cat (.member id object m) := by
  intro x h
  obtain ⟨object', m', hobject, hm, hfault, rfl⟩ := becomes_member.mp h
  -- The new member is found again on the resolved type, and fits the object as before.
  exact becomes_member.mpr ⟨object', m', option_settles ih hobject,
    hs.plain.resolveMember_resolved hs.noOverride hs.settled hm, hfault, rfl⟩

/-- A unary node becomes one whose type, where it is not derived, is resolved already. -/
theorem unary_settles (hs : s.Stable) {id : Nat} {op : UnaryOp} {operand : Expr} {ty : Ty}
    {method : Option MethodRef} (ih : Settles s cat operand) :
    Settles s cat (.unary id op operand ty method) := by
  intro x h
  obtain ⟨operand', t, hoperand, ht, rfl⟩ := becomes_unary.mp h
  refine becomes_unary.mpr ⟨operand', t, ih hoperand, ?_, by rw [hs.map_rebind_rebind]⟩
  rw [hs.map_rebind_rebind]
  -- The target of a conversion is resolved already; the other types are derived anew.
  cases op with
  | convert | typeAs =>
    obtain rfl := Except.ok.inj ht
    exact congrArg Except.ok (hs.resolve_resolve ty)
  | not | negate | quote => exact ht

/-- A binary node becomes one whose overload stays, over parts that settle. -/
theorem binary_settles (hs : s.Stable) {id : Nat} {op : BinaryOp} {left right : Expr}
    {lifted : Bool} {method : Option MethodRef} {conversion : Option Expr} {ty : Ty}
    (hleft : Settles s cat left) (hright : Settles s cat right)
    (hconversion : ∀ e, conversion = some e → Settles s cat e) :
    Settles s cat (.binary id op left right lifted method conversion ty) := by
  intro x h
  obtain ⟨left', right', conversion', t, hl, hr, hc, hfault, ht, rfl⟩ := becomes_binary.mp h
  have hmethod := hs.map_rebind_rebind method
  exact becomes_binary.mpr ⟨left', right', conversion', t, hleft hl, hright hr,
    option_settles hconversion hc, hfault, by rw [hmethod]; exact ht, by rw [hmethod]⟩

/-! ## Arguments -/

/-- What stands in the place of an argument is left there, although it may be a quotation that no
    pass has made. -/
theorem argument_settles {generic : Bool} {need : Ty} {e z : Expr} (ih : Settles s cat e)
    (h : ArgumentBecomes s cat generic need e z) : ArgumentBecomes s cat generic need z z := by
  obtain ⟨x, hx, y, hy, hz⟩ := h
  -- The retyping of `x` is undone by the pass over `y` and then made again.
  have hback : Becomes s cat y x := (retargetTree_of_retyped hy).trans (ih hx)
  cases hz with
  | plain hassign => exact ⟨x, hback, z, hy, .plain hassign⟩
  | quoted _ hlambda hneed =>
    -- The quotation is walked over as a node of its own, and what is wanted inside is the same.
    have hx' : x.isLambda = true := (Build.isLambda_of_retyped hy).mp hlambda
    refine ⟨Build.quoted x, becomes_quoted_iff.mpr ⟨x, hback, hx', rfl⟩, Build.quoted y,
      (Build.retyped_quoted_iff hx').mpr ⟨y, hy, rfl⟩, .plain ?_⟩
    rw [hneed]
    exact Ty.assignableTo_refl _

/-- Arguments settle one by one, each in the type that is wanted there. -/
theorem arguments_settle {generic : Bool} {needs : List Ty} {args args' : List Expr}
    (ih : ∀ e ∈ args, Settles s cat e)
    (h : Along (ArgumentBecomes s cat generic) needs args args') :
    Along (ArgumentBecomes s cat generic) needs args' args' := by
  induction h with
  | nil => exact .nil
  | cons h _ ihs =>
    exact .cons (argument_settles (ih _ List.mem_cons_self) h)
      (ihs fun e he => ih e (List.mem_cons_of_mem _ he))

/-- A call becomes one of a method that stays, and what is wanted of its arguments stays with it. -/
theorem call_settles (hs : s.Stable) {id : Nat} {receiver : Option Expr} {method : MethodRef}
    {args : List Expr} {ty : Ty} (hreceiver : ∀ e, receiver = some e → Settles s cat e)
    (hargs : ∀ e ∈ args, Settles s cat e) : Settles s cat (.call id receiver method args ty) := by
  intro x h
  obtain ⟨receiver', args', hr, ha, hopen, hfault, rfl⟩ := becomes_call.mp h
  have hagain := arguments_settle hargs ha
  rw [becomes_call, hs.rebind_rebind method]
  exact ⟨receiver', args', option_settles hreceiver hr, hagain, hopen, hfault, rfl⟩

/-! ## Whole expressions -/

/-- Under a stable substitution, the recursion leaves what it has made as it is. -/
theorem Becomes.again (hs : s.Stable) {e x : Expr} (h : Becomes s cat e x) : Becomes s cat x x := by
  -- Stated of all that may become of `e`, so that the induction goes through its parts.
  suffices hsettles : Settles s cat e from hsettles h
  clear h
  induction e using childInduction with
  | node e ih =>
    cases e with
    | call id receiver method args ty =>
      exact call_settles hs (fun r hr => ih r (by simp [children, hr]))
        fun x hx => ih x (by simp [children, hx])
    | lambda id delegate name tailCall params body =>
      exact lambda_settles hs (ih body (by simp [children]))
    | parameter p => exact leaf_settles hs rfl
    | member id object m => exact member_settles hs fun o ho => ih o (by simp [children, ho])
    | constant id v => exact leaf_settles hs rfl
    | unary id op operand ty method => exact unary_settles hs (ih operand (by simp [children]))
    | binary id op left right lifted method conversion ty =>
      exact binary_settles hs (ih left (by simp [children])) (ih right (by simp [children]))
        fun c hc => ih c (by simp [children, hc])
    -- The recursion makes nothing of the other kinds.
    | conditional id test ifTrue ifFalse ty => intro x h; cases h
    | invoke id target args ty => intro x h; cases h
    | default id ty => intro x h; cases h

/-- A second pass under a stable substitution, at any later time, succeeds on the result of the
    first one and gives an isomorphic expression. -/
theorem Constructed.run_again {supply later : Nat} {e e₁ : Expr} {st : PassState}
    (h : e.Constructed supply) (hs : s.Stable)
    (hrun : Pass.run s cat supply e = ⟨.ok e₁, st⟩) (hlater : st.supply ≤ later) :
    ∃ e₂, (Pass.run s cat later e₁).result = .ok e₂ ∧ e₁.Isomorphic e₂ := by
  obtain ⟨a, rfl, he⟩ := h.exists_arena
  obtain ⟨b, hsupply, hb⟩ := exists_arena_of_run he hrun
  -- The second pass works in the arena that the first one has left.
  let c := b.advance later (hsupply ▸ hlater)
  have hc : e₁ ∈ c.nodes := hb
  have hfirst : Becomes s cat e e₁.tree := (becomes_iff_run he).mpr ⟨e₁, st, hrun, rfl⟩
  have hsecond : Becomes s cat e₁ e₁.tree :=
    (retargetTree_tree e₁).symm.trans (hfirst.again hs)
  obtain ⟨e₂, st₂, hrun₂, htree⟩ := (becomes_iff_run hc).mp hsecond
  -- The trees are equal; which leaves are shared is read off the memo of the second pass.
  obtain ⟨hidentity, hleaves⟩ := forall₂_remembered hc hrun₂
  have haligned : Aligned (Remembered st₂ c) e₁ e₂ := ⟨htree, hleaves⟩
  exact ⟨e₂, congrArg Pass.Report.result hrun₂, haligned.isomorphic hidentity⟩

end Expr

namespace Sample

/-- No replacement of the table is replaced in turn, and a number that was moved is not moved
    again. -/
theorem renumber_stable : renumber.Stable where
  plain := by decide
  settled := by decide
  transform := by
    intro f hf v
    obtain rfl := Option.some.inj hf
    cases v <;> rfl
  noOverride := rfl

/-- The second pass retypes the lambda of the query again and keeps the quotation around it. -/
theorem selection_run_again :
    renumber.Stable ∧
      (Pass.run renumber catalog 8 (selection itemFrom 7 0 5)).result =
        .ok (selection itemTo 8 8 15) ∧
      ∃ e₂, (Pass.run renumber catalog 20 (selection itemTo 8 8 15)).result = .ok e₂ ∧
        (selection itemTo 8 8 15).Isomorphic e₂ :=
  ⟨renumber_stable, rfl,
    Expr.Constructed.run_again (selection_built.constructed List.mem_cons_self) renumber_stable rfl
      (by decide)⟩

end Sample

end Retarget
