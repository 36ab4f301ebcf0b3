import Retarget.Proofs.Isomorphism
import Retarget.Proofs.TreeWalk

/-!
# Passes in stages

Two passes in turn make what one pass under the joined table makes. The expression in between is
inferred, retyped and quoted once more, and a member of it may stand on a type that is only half
replaced; neither shows in the end. Types, methods and members are resolved in turn as they are
under the joined table, and what the second pass makes of an argument does not depend on whether
the first one has retyped it. A quotation that the first pass has put around a lambda is one that
the joined pass puts there: what the parameter wants after both is never `object`, which would take
the lambda as it is.

The joined pass succeeds whenever both stages do.

## Key results

- `Expr.ArgumentBecomes.followedBy`: what becomes of an argument in two stages
- `Expr.Becomes.followedBy`: what becomes of an expression in two stages
- `Expr.Constructed.runStaged_isomorphic`: the statement for whole passes
-/

namespace Retarget

namespace Substitution.Sequential

variable {s t : Substitution}

/-- Neither stage transforms constants, and so the joined pass does not. -/
theorem transform (h : s.Sequential t) (v : Value) :
    (s.followedBy t).transform v = t.transform (s.transform v) := by
  have hjoined : (s.followedBy t).constantTransform = none := h.noTransform
  simp only [Substitution.transform, hjoined, h.noTransform, h.noTransform']

/-- Overloads are rebound in two stages as at once. -/
theorem map_rebind (h : s.Sequential t) (m : Option MethodRef) :
    m.map (s.followedBy t).rebind = (m.map s.rebind).map t.rebind := by
  cases m with
  | none => rfl
  | some m => exact congrArg some (h.rebind m)

/-- Parameters are retargeted in two stages as they are at once. -/
theorem retargeted (h : s.Sequential t) (p : Parameter) :
    p.retargeted (s.followedBy t) = (p.retargeted s).retargeted t := by
  unfold Parameter.retargeted
  rw [h.resolve]

end Substitution.Sequential

/-! ## Quotations -/

/-- What the type of a lambda as data converts to: itself and `object`. -/
theorem Ty.expression_assignableTo {delegate target : Ty}
    (h : (expression delegate).assignableTo target = true) :
    target = expression delegate ∨ target = object := by
  simp only [assignableTo, Bool.or_eq_true, decide_eq_true_eq, isObject] at h
  rcases h with (h | h) | h
  · exact .inl h.symm
  · exact .inr h
  · -- The conversion from queries to sequences does not start there.
    cases target <;> simp [expression] at h

namespace Build

variable {need : Ty} {l y z : Expr}

/-- Where no `object` is wanted, what is taken for a quotation is taken for its lambda. -/
theorem Taken.of_quoted {params : List Ty} {ret : Ty} (hlambda : l.isLambda = true)
    (hty : l.ty = Ty.func params ret) (hobject : need ≠ Ty.object)
    (h : Taken need (Build.quoted l) z) : Taken need l z := by
  -- The quotation is taken as it is, since it is no lambda that could be quoted again.
  cases h with
  | plain hassign =>
    have hneed : need = Ty.expression l.ty :=
      (Ty.expression_assignableTo hassign).resolve_right hobject
    refine .quoted (Bool.eq_false_iff.mpr fun hplain => ?_) hlambda hneed
    -- A delegate type does not convert to that of the lambda as data.
    rw [hneed, hty] at hplain
    rcases Ty.func_assignableTo hplain with h | h
    · have hquoted := congrArg Ty.quoted? h
      rw [Ty.quoted?_expression, Ty.quoted?_func] at hquoted
      cases hquoted
    · cases h
  | quoted _ hquoted _ => cases hquoted

/-- A lambda that a generic call accepts after retyping has the delegate type that is wanted, and
    `object` wants none. -/
theorem func_of_coerceTree (hlambda : l.isLambda = true) (h : coerceTree need l = .ok y) :
    (∃ params ret, y.ty = Ty.func params ret) ∧ need ≠ Ty.object := by
  obtain ⟨id, delegate, name, tailCall, params, body, rfl⟩ := Expr.isLambda_iff.mp hlambda
  obtain ⟨ret, hwanted, -, rfl⟩ := coerceTree_lambda_eq_ok.mp h
  refine ⟨⟨_, ret, hwanted⟩, ?_⟩
  rintro rfl
  rcases wantedDelegate_eq_func.mp hwanted with h | h <;> cases h

end Build

namespace Expr

variable {s t : Substitution} {cat : Catalog}

/-- What becomes of `e` in two stages becomes of it under the joined table. -/
def Joins (s t : Substitution) (cat : Catalog) (e : Expr) : Prop :=
  ∀ {x y : Expr}, Becomes s cat e x → Becomes t cat x y → Becomes (s.followedBy t) cat e y

/-! ## Arguments -/

/-- What stands in the place of an argument after two stages stands there after the joined pass. A
    call that is not generic wants the same in both stages. -/
theorem ArgumentBecomes.followedBy {generic : Bool} {need need' : Ty} {e z w : Expr}
    (ih : Joins s t cat e) (hneed : generic = false → need' = need)
    (h : ArgumentBecomes s cat generic need e z) (h' : ArgumentBecomes t cat generic need' z w) :
    ArgumentBecomes (s.followedBy t) cat generic need' e w := by
  obtain ⟨x, hx, y, hy, hz⟩ := h
  obtain ⟨x', hx', y', hy', hw⟩ := h'
  -- The second stage makes the same of `x` as of `y`, which is `x` retyped.
  have hback : ∀ {x'}, Becomes t cat y x' → Becomes t cat x x' := fun h =>
    (retargetTree_of_retyped hy).symm.trans h
  -- Without a quotation in between, the second stage goes on from the argument itself.
  cases hz with
  | plain _ => exact ⟨x', ih hx (hback hx'), y', hy', hw⟩
  | quoted hassign _ hwanted =>
    -- The second stage keeps the quotation and goes on with the lambda inside.
    obtain ⟨l, hl, hlambda, rfl⟩ := becomes_quoted_iff.mp hx'
    obtain ⟨m, hm, rfl⟩ := (Build.retyped_quoted_iff hlambda).mp hy'
    have hmlambda : m.isLambda = true := (Build.isLambda_of_retyped hm).mpr hlambda
    have htype : (∃ params ret, m.ty = Ty.func params ret) ∧ need' ≠ Ty.object := by
      cases generic with
      | true => exact Build.func_of_coerceTree hlambda hm
      | false =>
        obtain rfl : m = l := hm
        refine ⟨hl.exists_func hlambda, ?_⟩
        -- Both stages want the lambda as data.
        rw [hneed rfl, hwanted]
        rintro ⟨⟩
    obtain ⟨⟨params, ret, hty⟩, hobject⟩ := htype
    exact ⟨l, ih hx (hback hl), m, hm, hw.of_quoted hmlambda hty hobject⟩

/-- Arguments in a row stand after the joined pass as they do after two stages. -/
theorem arguments_followedBy {generic : Bool} {needs needs' : List Ty} {args zs ws : List Expr}
    (ih : ∀ e ∈ args, Joins s t cat e) (hneeds : generic = false → needs' = needs)
    (h : Along (ArgumentBecomes s cat generic) needs args zs)
    (h' : Along (ArgumentBecomes t cat generic) needs' zs ws) :
    Along (ArgumentBecomes (s.followedBy t) cat generic) needs' args ws := by
  induction h generalizing needs' ws with
  | nil =>
    cases h'
    exact .nil
  | cons h _ ihs =>
    cases h' with
    | cons h' hs' =>
      exact .cons
        (h.followedBy (ih _ List.mem_cons_self) (fun hg => (List.cons.inj (hneeds hg)).1) h')
        (ihs (fun e he => ih e (List.mem_cons_of_mem _ he))
          (fun hg => (List.cons.inj (hneeds hg)).2) hs')

/-! ## One node -/

/-- An optional part joins if the part does. -/
theorem option_followedBy {o o' o'' : Option Expr} (ih : ∀ e, o = some e → Joins s t cat e)
    (h : Option.Rel (Becomes s cat) o o') (h' : Option.Rel (Becomes t cat) o' o'') :
    Option.Rel (Becomes (s.followedBy t) cat) o o'' := by
  cases h with
  | none =>
    cases h'
    exact .none
  | some h =>
    cases h' with
    | some h' => exact .some (ih _ rfl h h')

/-- A leaf is replaced in two stages as at once. -/
theorem leaf_joins (hst : s.Sequential t) {e : Expr} (hleaf : e.isLeaf = true) :
    Joins s t cat e := by
  intro x y h h'
  obtain rfl := (becomes_leaf hleaf).mp h
  refine (becomes_leaf hleaf).mpr ?_
  obtain ⟨p, rfl⟩ | ⟨id, v, rfl⟩ := isLeaf_iff.mp hleaf
  · obtain rfl := (becomes_leaf rfl).mp h'
    simp only [replacement, hst.resolve]
  · obtain rfl := (becomes_leaf rfl).mp h'
    simp only [replacement, hst.transform]

/-- A call joins over its receiver and its arguments, of a method that is rebound in two stages as
    at once. -/
theorem call_joins (hst : s.Sequential t) {id : Nat} {receiver : Option Expr} {method : MethodRef}
    {args : List Expr} {ty : Ty} (hreceiver : ∀ e, receiver = some e → Joins s t cat e)
    (hargs : ∀ e ∈ args, Joins s t cat e) : Joins s t cat (.call id receiver method args ty) := by
  intro x y h h'
  obtain ⟨receiver₁, args₁, hr₁, ha₁, -, -, rfl⟩ := becomes_call.mp h
  obtain ⟨receiver₂, args₂, hr₂, ha₂, hopen, hfault, rfl⟩ := becomes_call.mp h'
  rw [becomes_call, hst.rebind]
  have hneeds : method.isGeneric = false →
      (t.rebind (s.rebind method)).parameterTypes = (s.rebind method).parameterTypes := by
    intro hgeneric
    rw [s.rebind_eq_self hgeneric, t.rebind_eq_self hgeneric]
  exact ⟨receiver₂, args₂, option_followedBy hreceiver hr₁ hr₂,
    arguments_followedBy hargs hneeds ha₁ ha₂, hopen, hfault, rfl⟩

/-- A lambda joins over its body; its parameters have the same types in the end. -/
theorem lambda_joins (hst : s.Sequential t) {id : Nat} {delegate : Ty} {name : Option String}
    {tailCall : Bool} {params : List Parameter} {body : Expr} (ih : Joins s t cat body) :
    Joins s t cat (.lambda id delegate name tailCall params body) := by
  intro x y h h'
  obtain ⟨body₁, hbody₁, rfl⟩ := becomes_lambda.mp h
  obtain ⟨body₂, hbody₂, rfl⟩ := becomes_lambda.mp h'
  refine becomes_lambda.mpr ⟨body₂, ih hbody₁ hbody₂, ?_⟩
  have htypes : (params.map (Parameter.retargeted s)).map (fun p => t.resolve p.ty) =
      params.map fun p => (s.followedBy t).resolve p.ty := by
    rw [List.map_map]
    exact List.map_congr_left fun p _ => (hst.resolve p.ty).symm
  have hparams : (params.map (Parameter.retargeted s)).map (Parameter.retargeted t) =
      params.map (Parameter.retargeted (s.followedBy t)) := by
    rw [List.map_map]
    exact List.map_congr_left fun p _ => (hst.retargeted p).symm
  rw [htypes, hparams]

/-- The access of a member joins over its object; the member is resolved in two stages as at
    once. -/
theorem member_joins (hst : s.Sequential t) {id : Nat} {object : Option Expr} {m : Member}
    (ih : ∀ e, object = some e → Joins s t cat e) : Joins s t cat (.member id object m) := by
  intro x y h h'
  obtain ⟨object₁, m₁, hobject₁, hm₁, -, rfl⟩ := becomes_member.mp h
  obtain ⟨object₂, m₂, hobject₂, hm₂, hfault, rfl⟩ := becomes_member.mp h'
  exact becomes_member.mpr ⟨object₂, m₂, option_followedBy ih hobject₁ hobject₂,
    hst.resolveMember hm₁ hm₂, hfault, rfl⟩

/-- A unary node joins over its operand. -/
theorem unary_joins (hst : s.Sequential t) {id : Nat} {op : UnaryOp} {operand : Expr} {ty : Ty}
    {method : Option MethodRef} (ih : Joins s t cat operand) :
    Joins s t cat (.unary id op operand ty method) := by
  intro x y h h'
  obtain ⟨operand₁, t₁, hoperand₁, ht₁, rfl⟩ := becomes_unary.mp h
  obtain ⟨operand₂, t₂, hoperand₂, ht₂, rfl⟩ := becomes_unary.mp h'
  have hmethod := hst.map_rebind method
  refine becomes_unary.mpr ⟨operand₂, t₂, ih hoperand₁ hoperand₂, ?_, by rw [hmethod]⟩
  rw [hmethod]
  -- The target of a conversion is resolved in both stages; the other types are derived anew.
  cases op with
  | convert | typeAs =>
    obtain rfl := Except.ok.inj ht₁
    exact (congrArg Except.ok (hst.resolve ty)).trans ht₂
  | not | negate | quote => exact ht₂

/-- A binary node joins over its operands and its conversion. -/
theorem binary_joins (hst : s.Sequential t) {id : Nat} {op : BinaryOp} {left right : Expr}
    {lifted : Bool} {method : Option MethodRef} {conversion : Option Expr} {ty : Ty}
    (hleft : Joins s t cat left) (hright : Joins s t cat right)
    (hconversion : ∀ e, conversion = some e → Joins s t cat e) :
    Joins s t cat (.binary id op left right lifted method conversion ty) := by
  intro x y h h'
  obtain ⟨left₁, right₁, conversion₁, t₁, hl₁, hr₁, hc₁, -, -, rfl⟩ := becomes_binary.mp h
  obtain ⟨left₂, right₂, conversion₂, t₂, hl₂, hr₂, hc₂, hfault, ht, rfl⟩ := becomes_binary.mp h'
  have hmethod := hst.map_rebind method
  exact becomes_binary.mpr ⟨left₂, right₂, conversion₂, t₂, hleft hl₁ hl₂, hright hr₁ hr₂,
    option_followedBy hconversion hc₁ hc₂, hfault, by rw [hmethod]; exact ht, by rw [hmethod]⟩

/-! ## Whole expressions -/

/-- What becomes of an expression in two stages becomes of it under the joined table. -/
theorem Becomes.followedBy (hst : s.Sequential t) {e x y : Expr} (h : Becomes s cat e x)
    (h' : Becomes t cat x y) : Becomes (s.followedBy t) cat e y := by
  -- Stated of all that may become of `e` in between, so that the induction goes through.
  suffices hjoins : Joins s t cat e from hjoins h h'
  clear h h'
  -- By induction over parts, one lemma for each kind of node.
  induction e using childInduction with
  | node e ih =>
    cases e with
    | call id receiver method args ty =>
      exact call_joins hst (fun r hr => ih r (by simp [children, hr]))
        fun x hx => ih x (by simp [children, hx])
    | lambda id delegate name tailCall params body =>
      exact lambda_joins hst (ih body (by simp [children]))
    | parameter p => exact leaf_joins hst rfl
    | member id object m => exact member_joins hst fun o ho => ih o (by simp [children, ho])
    | constant id v => exact leaf_joins hst rfl
    | unary id op operand ty method => exact unary_joins hst (ih operand (by simp [children]))
    | binary id op left right lifted method conversion ty =>
      exact binary_joins hst (ih left (by simp [children])) (ih right (by simp [children]))
        fun c hc => ih c (by simp [children, hc])
    -- The first stage makes nothing of the other kinds.
    | conditional id test ifTrue ifFalse ty => intro x y h; cases h
    | invoke id target args ty => intro x y h; cases h
    | default id ty => intro x y h; cases h

/-- Two stages succeed exactly if each does, the second one on the result of the first. -/
theorem runStaged_pair_eq_ok {supply n : Nat} {e a : Expr} :
    Pass.runStaged cat supply e [s, t] = .ok (a, n) ↔
      ∃ x st st', Pass.run s cat supply e = ⟨.ok x, st⟩ ∧
        Pass.run t cat st.supply x = ⟨.ok a, st'⟩ ∧ n = st'.supply := by
  simp only [Pass.runStaged]
  rcases Pass.run s cat supply e with ⟨_ | x, st⟩
  · simp
  · rcases hsecond : Pass.run t cat st.supply x with ⟨_ | a', st'⟩
    · simp [hsecond]
    · simp [hsecond, eq_comm]

/-- When both stages succeed, so does the pass under the joined table, made at any time after the
    expression, and the results are isomorphic. -/
theorem Constructed.runStaged_isomorphic {supply later n : Nat} {e a : Expr}
    (h : e.Constructed supply) (hst : s.Sequential t)
    (hstaged : Pass.runStaged cat supply e [s, t] = .ok (a, n)) (hlater : supply ≤ later) :
    ∃ b, (Pass.run (s.followedBy t) cat later e).result = .ok b ∧ a.Isomorphic b := by
  obtain ⟨arena, rfl, he⟩ := h.exists_arena
  obtain ⟨x, st₁, st₂, hrun₁, hrun₂, -⟩ := runStaged_pair_eq_ok.mp hstaged
  obtain ⟨arena₁, hsupply, hx⟩ := exists_arena_of_run he hrun₁
  rw [← hsupply] at hrun₂
  -- The joined pass starts from the expression as it was before the stages.
  let arena₂ := arena.advance later hlater
  have he₂ : e ∈ arena₂.nodes := he
  have hfirst : Becomes s cat e x.tree := (becomes_iff_run he).mpr ⟨x, st₁, hrun₁, rfl⟩
  have hsecond : Becomes t cat x.tree a.tree :=
    (retargetTree_tree x).trans ((becomes_iff_run hx).mpr ⟨a, st₂, hrun₂, rfl⟩)
  obtain ⟨b, st₃, hrun₃, htree⟩ := (becomes_iff_run he₂).mp (hfirst.followedBy hst hsecond)
  -- The leaves of either result stand for those of the expression.
  obtain ⟨hidentity₁, hleaves₁⟩ := forall₂_remembered he hrun₁
  obtain ⟨hidentity₂, hleaves₂⟩ := forall₂_remembered hx hrun₂
  obtain ⟨hidentity₃, hleaves₃⟩ := forall₂_remembered he₂ hrun₃
  have haligned := (hleaves₁.comp hleaves₂).flip.comp hleaves₃
  exact ⟨b, congrArg Pass.Report.result hrun₃,
    Aligned.isomorphic ⟨htree, haligned⟩ ((hidentity₁.comp hidentity₂).flip.comp hidentity₃)⟩

end Expr

/-! ## A query over items and groups

The query `x.Select(i => i.Id == g.Id)` over items, for a group `g`, with results that are taken as
objects. What is inside the lambda is numbered from `first` on, the lambda and what is around it
from `outer` on. -/

namespace Sample

/-- The group that every item is compared with. -/
def group (type : Ty) (first : Nat) : Parameter := ⟨first + 3, type, some "g", false⟩

/-- The identifier of the group. -/
def groupIdentifier (type : Ty) (first : Nat) : Expr :=
  .member (first + 4) (some (.parameter (group type first))) (Member.property type "Id" Ty.long)

/-- The comparison of an item with the group. -/
def agreement (item type : Ty) (first : Nat) : Expr :=
  .binary (first + 5) .equal (identifier item first) (groupIdentifier type first) false none none
    Ty.bool

/-- The lambda of the query, from items to objects. -/
def agreeing (item type : Ty) (first outer : Nat) : Expr :=
  .lambda outer (Ty.func [item] Ty.object) none false [element item first]
    (agreement item type first)

/-- The query, with its lambda in a quotation. -/
def agreements (item type : Ty) (first outer : Nat) : Expr :=
  .call (outer + 2) none (select item)
    [source item first,
      .unary (outer + 1) .quote (agreeing item type first outer)
        (Ty.expression (Ty.func [item] Ty.object)) none]
    (Ty.query Ty.object)

/-- The groups before the second stage. -/
def groupFrom : Ty := .named "GroupFrom"

/-- The groups after it. -/
def groupTo : Ty := .named "GroupTo"

/-- The nodes of a history that builds the query, the last one first. -/
def agreementsHistory : List Expr :=
  [agreements itemFrom groupFrom 0 6, agreeing itemFrom groupFrom 0 6,
    agreement itemFrom groupFrom 0, groupIdentifier groupFrom 0, .parameter (group groupFrom 0),
    identifier itemFrom 0, .parameter (element itemFrom 0), source itemFrom 0]

/-- The query is built node by node, the lambda quoted as an argument. -/
theorem agreements_built : Built 9 agreementsHistory := by
  have hg : Built 4 (.parameter (group groupFrom 0) :: _) :=
    .extend (.parameter groupFrom (some "g") false) identifier_built
      (by simp [Operation.operands]) rfl
  have hgid : Built 5 (groupIdentifier groupFrom 0 :: _) :=
    .extend (.member (some (.parameter (group groupFrom 0)))
      (Member.property groupFrom "Id" Ty.long)) hg (by simp [Operation.operands]) rfl
  have hagreement : Built 6 (agreement itemFrom groupFrom 0 :: _) :=
    .extend (.binary .equal (identifier itemFrom 0) (groupIdentifier groupFrom 0) false none none)
      hgid (by simp [Operation.operands]) rfl
  have hagreeing : Built 7 (agreeing itemFrom groupFrom 0 6 :: _) :=
    .extend (.typedLambda (Ty.func [itemFrom] Ty.object) (agreement itemFrom groupFrom 0) none false
      [.parameter (element itemFrom 0)]) hagreement (by simp [Operation.operands]) rfl
  exact .extend (.call none (select itemFrom) [source itemFrom 0, agreeing itemFrom groupFrom 0 6])
    hagreeing (by simp [Operation.operands]) rfl

/-- Items and groups are moved independently of each other. -/
theorem items_groups_sequential : items.Sequential groups where
  mode := rfl
  plain := by decide
  settled := by decide
  moves := by decide
  moves' := by decide
  noTransform := rfl
  noTransform' := rfl
  noOverride := rfl
  noOverride' := rfl

/-- The two stages in turn, with the identities that each of them takes. -/
theorem agreements_staged :
    Pass.runStaged catalog 9 (agreements itemFrom groupFrom 0 6) [items, groups] =
      .ok (agreements itemTo groupTo 20 28, 31) := by
  have hfirst : (Pass.run items catalog 9 (agreements itemFrom groupFrom 0 6)).result =
      .ok (agreements itemTo groupFrom 9 17) := rfl
  have hsupply :
      (Pass.run items catalog 9 (agreements itemFrom groupFrom 0 6)).state.supply = 20 := by
    decide +kernel
  have hsecond : (Pass.run groups catalog 20 (agreements itemTo groupFrom 9 17)).result =
      .ok (agreements itemTo groupTo 20 28) := rfl
  have hsupply' :
      (Pass.run groups catalog 20 (agreements itemTo groupFrom 9 17)).state.supply = 31 := by
    decide +kernel
  refine Expr.runStaged_pair_eq_ok.mpr ⟨_, _, _, Pass.run_of_result hfirst, ?_, hsupply'.symm⟩
  rw [hsupply]
  exact Pass.run_of_result hsecond

/-- The query is moved to other items first and to other groups then, or to both at once. -/
theorem agreements_isomorphic :
    items.Sequential groups ∧
      Pass.runStaged catalog 9 (agreements itemFrom groupFrom 0 6) [items, groups] =
        .ok (agreements itemTo groupTo 20 28, 31) ∧
      ∃ b, (Pass.run (items.followedBy groups) catalog 9
          (agreements itemFrom groupFrom 0 6)).result = .ok b ∧
        (agreements itemTo groupTo 20 28).Isomorphic b :=
  ⟨items_groups_sequential, agreements_staged,
    Expr.Constructed.runStaged_isomorphic (agreements_built.constructed List.mem_cons_self)
      items_groups_sequential agreements_staged (Nat.le_refl 9)⟩

end Sample

end Retarget
