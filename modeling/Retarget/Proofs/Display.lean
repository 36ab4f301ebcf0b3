import Mathlib.Data.List.Forall2
import Retarget.Proofs.Matching
import Retarget.Proofs.Simulation

/-!
# The text of a result

A pass changes the text of an expression in two ways only: other types stand where types are shown,
and other values where constants are. `Expr.mapShown` makes these two changes to an expression, and
the text of a result is that of the changed input.

Nothing else that a pass does can be seen. A quotation that it adds looks like the lambda inside it,
and so does a lambda of another delegate type. A static member that is kept because its declaring
type matches the resolved one is shown under the simple name of either.

## Key results

- `Expr.mapShown`: an expression with the types and the values that its text shows mapped
- `Substitution.name_of_sameType`: matching types have the same simple name
- `Expr.Retargets.render_eq`: the text of a retargeted form
- `Expr.Constructed.render_of_run`: the statement for whole passes
-/

namespace Retarget

/-- A parameter with its type mapped. -/
def Parameter.mapTy (f : Ty → Ty) (p : Parameter) : Parameter := { p with ty := f p.ty }

/-- A member with its declaring type mapped. -/
def Member.mapDeclaringType (f : Ty → Ty) (m : Member) : Member :=
  { m with declaringType := f m.declaringType }

namespace Expr

mutual

/-- An expression with `f` applied to each type that its text shows and `g` to the value of each
    constant. The types shown are those of the parameters of lambdas, the targets of conversions,
    the type arguments of the methods of calls, and the declaring types of members. -/
def mapShown (f : Ty → Ty) (g : Value → Value) : Expr → Expr
  | .call id receiver method args ty =>
    -- The declaring type of a method is shown as well, but it is not a type that is replaced.
    .call id (mapShownOption f g receiver) (method.mapTypeArgs f) (mapShownList f g args) ty
  | .lambda id delegate name tailCall params body =>
    .lambda id delegate name tailCall (params.map (·.mapTy f)) (mapShown f g body)
  | .parameter p => .parameter p
  | .member id object m => .member id (mapShownOption f g object) (m.mapDeclaringType f)
  | .constant id v => .constant id (g v)
  | .unary id op operand ty method =>
    match op with
    | .convert | .typeAs => .unary id op (mapShown f g operand) (f ty) method
    | .not | .negate | .quote => .unary id op (mapShown f g operand) ty method
  | .binary id op left right lifted method conversion ty =>
    .binary id op (mapShown f g left) (mapShown f g right) lifted method conversion ty
  | .conditional id test ifTrue ifFalse ty =>
    .conditional id (mapShown f g test) (mapShown f g ifTrue) (mapShown f g ifFalse) ty
  | .invoke id target args ty => .invoke id (mapShown f g target) (mapShownList f g args) ty
  | .default id ty => .default id (f ty)

/-- The change to an optional part. -/
def mapShownOption (f : Ty → Ty) (g : Value → Value) : Option Expr → Option Expr
  | none => none
  | some e => some (mapShown f g e)

/-- The change to each of a list of parts. -/
def mapShownList (f : Ty → Ty) (g : Value → Value) : List Expr → List Expr
  | [] => []
  | e :: es => mapShown f g e :: mapShownList f g es

end

end Expr

/-! ## Members -/

namespace Substitution

variable {s : Substitution} {cat : Catalog}

/-- Matching types have the same simple name, in either mode. -/
theorem name_of_sameType {t u : Ty} (h : s.sameType t u = true) : t.name = u.name := by
  unfold sameType at h
  -- By name the heads have one simple name; exactly matching types are one type.
  cases hmode : s.mode with
  | byName =>
    rw [hmode] at h
    exact (Ty.sameNames_iff.mp h).1
  | exact =>
    rw [hmode] at h
    rw [of_decide_eq_true h]

/-- A member that takes the place of another has its name, and its declaring type has the simple
    name of the resolved declaring type, even where the member is kept. -/
theorem names_of_resolveMember (hoverride : s.memberOverride = none) {m m' : Member}
    (h : s.resolveMember cat m = .ok m') :
    m'.name = m.name ∧ m'.declaringType.name = (s.resolve m.declaringType).name := by
  -- A kept member matches in its declaring type; one that was looked up has the name and the type
  -- it was looked up on.
  rcases (resolveMember_eq_ok hoverride).mp h with ⟨hsame, rfl⟩ | ⟨-, hfound⟩
  · exact ⟨rfl, (name_of_sameType hsame).symm⟩
  · obtain ⟨hdeclaring, hname⟩ := Catalog.named?_spec hfound
    exact ⟨hname, by rw [hdeclaring]⟩

end Substitution

/-! ## Texts -/

namespace Expr

variable {s : Substitution} {cat : Catalog} {f : Ty → Ty} {g : Value → Value}

/-- The text of an object in front of a dot depends on the text of the object, or on the simple name
    of the declaring type if there is none. -/
theorem renderObject_eq {R : Expr → Expr → Prop} {o o' : Option Expr} {t t' : Ty}
    (ih : ∀ e, o = some e → ∀ e', R e e' → e'.render = (e.mapShown f g).render)
    (h : Option.Rel R o o') (hname : t'.name = t.name) :
    renderObject t' o' = renderObject t (mapShownOption f g o) := by
  cases h with
  | none => exact hname
  | some h => exact ih _ rfl _ h

/-- Behind a comma each argument has the text of its form with mapped types and values. -/
theorem renderRest_eq {R : Expr → Expr → Prop} {es es' : List Expr}
    (ih : ∀ e ∈ es, ∀ e', R e e' → e'.render = (e.mapShown f g).render)
    (h : List.Forall₂ R es es') : renderRest es' = renderRest (mapShownList f g es) := by
  induction h with
  | nil => rfl
  | cons h _ ihs =>
    rw [renderRest, mapShownList, renderRest, ih _ List.mem_cons_self _ h,
      ihs fun e he => ih e (List.mem_cons_of_mem _ he)]

/-- Related arguments are printed alike if the constants and types shown in them are mapped, the
    first one without a comma in front. -/
theorem renderList_eq {R : Expr → Expr → Prop} {es es' : List Expr}
    (ih : ∀ e ∈ es, ∀ e', R e e' → e'.render = (e.mapShown f g).render)
    (h : List.Forall₂ R es es') : renderList es' = renderList (mapShownList f g es) := by
  cases h with
  | nil => rfl
  | cons h hs =>
    rw [renderList, mapShownList, renderList, ih _ List.mem_cons_self _ h,
      renderRest_eq (fun e he => ih e (List.mem_cons_of_mem _ he)) hs]

/-- What replaces the parameters of a lambda is declared as they are, with resolved types. -/
theorem map_declaration_eq {ps ps' : List Parameter}
    (h : List.Forall₂ (fun p p' => Replaces s (.parameter p) (.parameter p')) ps ps') :
    ps'.map Parameter.declaration = (ps.map (·.mapTy s.resolve)).map Parameter.declaration := by
  induction h with
  | nil => rfl
  | cons h _ ih =>
    cases h with
    | parameter p id =>
      rw [List.map_cons, List.map_cons, List.map_cons, ih]
      rfl

/-- The text of what replaces a leaf. -/
theorem Replaces.render_eq {e e' : Expr} (h : Replaces s e e') :
    e'.render = (e.mapShown s.resolve s.transform).render := by
  cases h with
  | parameter p id => rfl
  | constant id id' v => rfl

/-- The text of a retargeted form is that of the expression with resolved types and transformed
    values. -/
theorem Retargets.render_eq (hoverride : s.memberOverride = none) {e e' : Expr}
    (h : Retargets s cat (Replaces s) e e') :
    e'.render = (e.mapShown s.resolve s.transform).render := by
  -- By induction over parts. Each form is rebuilt from its parts, and the text of a node is put
  -- together from the texts of the same parts.
  induction e using childInduction generalizing e' with
  | node e ih =>
    -- A quotation that was added has the text of the lambda in it.
    have harguments : ∀ c ∈ e.children, ∀ c', RetargetsArgument s cat (Replaces s) c c' →
        c'.render = (c.mapShown s.resolve s.transform).render := by
      intro c hc c' hargument
      cases hargument with
      | plain hretargets => exact ih c hc hretargets
      | quoted id hlambda hretargets =>
        rw [render]
        exact ih c hc hretargets
    cases h with
    | leaf he hkind hreplaces => exact hreplaces.render_eq
    | call hmethod hreceiver hargs =>
      rename_i id id' receiver receiver' method args args' ty ty'
      have hobject := renderObject_eq (t := method.declaringType)
        (fun c hc _ hretargets => ih c (by simp [children, hc]) hretargets) hreceiver rfl
      have hlist := renderList_eq
        (fun c hc _ hretargets => ih c (by simp [children, hc]) hretargets) hargs
      -- A method that is not generic has no type arguments to show.
      have hself : method.mapTypeArgs s.resolve = method := s.rebind_eq_self hmethod
      rw [render, mapShown, render, hself, hobject, hlist]
    | genericCall hmethod hreceiver hargs =>
      rename_i id id' receiver receiver' method args args' ty ty'
      -- Closing the method anew is mapping its type arguments, and leaves its declaring type alone.
      have hname : (s.rebind method).declaringType.name =
          (method.mapTypeArgs s.resolve).declaringType.name := rfl
      have hobject := renderObject_eq
        (fun c hc _ hretargets => ih c (by simp [children, hc]) hretargets) hreceiver hname
      have hlist := renderList_eq
        (fun c hc => harguments c (by simp [children, hc])) hargs
      rw [render, mapShown, render, hobject, hlist]
      rfl
    | lambda hparams hbody =>
      have hdeclared := map_declaration_eq hparams
      have htext := ih _ (by simp [children]) hbody
      rw [render, mapShown, render, hdeclared, htext]
    | member hobject hmember =>
      obtain ⟨hname, hdeclaring⟩ := Substitution.names_of_resolveMember hoverride hmember
      have htext := renderObject_eq
        (fun c hc _ hretargets => ih c (by simp [children, hc]) hretargets) hobject hdeclaring
      rw [render, mapShown, render, htext, hname]
      rfl
    | unary hoperand hty =>
      rename_i id id' op operand operand' ty ty' method
      have htext := ih operand (by simp [children]) hoperand
      -- Only conversions show their type, which is the resolved one.
      cases op with
      | convert => rw [render, mapShown, render, htext, hty (.inl rfl)]
      | typeAs => rw [render, mapShown, render, htext, hty (.inr rfl)]
      | not => rw [render, mapShown, render, htext]
      | negate => rw [render, mapShown, render, htext]
      | quote => rw [render, mapShown, render, htext]
    | binary hleft hright hconversion =>
      have hl := ih _ (by simp [children]) hleft
      have hr := ih _ (by simp [children]) hright
      rw [render, mapShown, render, hl, hr]

/-- The text of the result of a pass is the text of the input with every type that is shown resolved
    and every constant transformed, when members are not overridden. -/
theorem Constructed.render_of_run {supply : Nat} {e e' : Expr} (h : e.Constructed supply)
    (hoverride : s.memberOverride = none) (hrun : (Pass.run s cat supply e).result = .ok e') :
    e'.render = (e.mapShown s.resolve s.transform).render := by
  obtain ⟨a, rfl, he⟩ := h.exists_arena
  -- The pass ends with the retargeted form of the input, leaf by leaf what the memo replaces it by.
  have hwalk := retarget_follows s cat a e he (.start s a) (Pass.returns_of_result hrun)
  have hretargets := hwalk.retargets _ (gives_replaces hwalk.visits.faithful)
  exact hretargets.render_eq hoverride

end Expr

/-- The query before and after a pass that moves its items and changes its number. The lambda is
    retyped and quoted on the way. -/
theorem Sample.selection_render :
    (selection itemFrom 7 0 5).render =
        "Queryable.Select<ItemFrom, object>(x, (i: ItemFrom) => (i.Id == 7))" ∧
      (selection itemTo 8 8 15).render =
        "Queryable.Select<ItemTo, object>(x, (i: ItemTo) => (i.Id == 8))" ∧
      (Pass.run renumber catalog 8 (selection itemFrom 7 0 5)).result =
        .ok (selection itemTo 8 8 15) ∧
      (selection itemTo 8 8 15).render =
        ((selection itemFrom 7 0 5).mapShown renumber.resolve renumber.transform).render := by
  have hrun : (Pass.run renumber catalog 8 (selection itemFrom 7 0 5)).result =
      .ok (selection itemTo 8 8 15) := rfl
  exact ⟨by decide +kernel, by decide +kernel, hrun,
    Expr.Constructed.render_of_run (selection_built.constructed List.mem_cons_self) rfl hrun⟩

end Retarget
