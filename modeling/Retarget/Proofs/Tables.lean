import Mathlib.Data.List.Find
import Mathlib.Data.List.Perm.Basic
import Retarget.Proofs.Compatible
import Retarget.Proofs.Matching

/-!
# Substitutions that a pass cannot tell apart

A pass asks a substitution what the types in the nodes of an expression resolve to, which members
take the place of others, and what constants become. Of two substitutions that give the same
answers, either can stand for the other: the pass over the expression has the same report under
both, a failure included.

There are two ways to give the same answers. Tables do in which every look-up ends alike, and since
matching is an equivalence, the order of the pairs counts only among sources that match each other.
The two matching modes do as well, as long as no two of the types that are compared have the same
names without being equal.

## Key results

- `Substitution.resolve_congr`: resolving depends on look-ups inside the type only
- `Expr.retarget_congr`: the walk depends on the answers only
- `Pass.run_table_order`: the order of the pairs in a table
- `Pass.run_byName_eq_run_exact`: the two matching modes
-/

namespace Retarget

namespace Expr

/-- The types that a pass resolves in a node itself: the type of a parameter, the declaring type of
    a member, the type of a unary node other than a quotation, and the type arguments of methods. -/
def resolvedTypes : Expr → List Ty
  | .parameter p => [p.ty]
  | .member _ _ m => [m.declaringType]
  | .unary _ op _ ty method =>
    (if op = .quote then [] else [ty]) ++ method.toList.flatMap (·.typeArgs)
  | e => e.methods.flatMap (·.typeArgs)

/-- Whether a pass over an expression can come to a node: nothing below a node of an unsupported
    kind is looked at. -/
inductive Reached (n : Expr) : Expr → Prop where
  | self : Reached n n
  | part {e c : Expr} (he : e.Supported) (hc : c ∈ e.children) (hn : Reached n c) : Reached n e

/-- A node that a pass can come to is reachable. -/
theorem Reached.within {n e : Expr} (h : n.Reached e) : n.Within e := by
  induction h with
  | self => exact .self
  | part _ hc _ ih => exact .part hc ih

end Expr

namespace Substitution

variable {s t : Substitution} {cat : Catalog}

/-! ## The same answers -/

/-- Whether a pass over an expression gets the same answers from two substitutions. -/
structure Agree (s t : Substitution) (cat : Catalog) (e : Expr) : Prop where
  types : ∀ n : Expr, n.Reached e → ∀ x ∈ n.resolvedTypes, s.resolve x = t.resolve x
  members : ∀ id object m, (Expr.member id object m).Reached e →
    s.resolveMember cat m = t.resolveMember cat m
  transform : s.constantTransform = t.constantTransform
  override : s.memberOverride = t.memberOverride

/-- What is answered alike about an expression is answered alike about its parts. -/
theorem Agree.part {e c : Expr} (h : s.Agree t cat e) (he : e.Supported) (hc : c ∈ e.children) :
    s.Agree t cat c where
  types n hn := h.types n (.part he hc hn)
  members id object m hm := h.members id object m (.part he hc hm)
  transform := h.transform
  override := h.override

/-- Tables that replace the same inside a type resolve the type alike. -/
theorem resolve_congr {x : Ty} (h : ∀ u ∈ x.subterms, s.lookup u = t.lookup u) :
    s.resolve x = t.resolve x := by
  -- By induction over arguments; at each of them the look-ups agree.
  induction x using Ty.argsInduction with
  | type x ih =>
    have hself : s.lookup x = t.lookup x := h x (Ty.mem_subterms.mpr (.inl rfl))
    have hargs : x.mapArgs s.resolve = x.mapArgs t.resolve := by
      apply Ty.mapArgs_congr
      intro a ha
      exact ih a ha fun u hu => h u (Ty.mem_subterms.mpr (.inr ⟨a, ha, hu⟩))
    rw [resolve_eq s, resolve_eq t, hself, hargs]

/-- A member is resolved alike if its declaring type is and the result is compared alike. -/
theorem resolveMember_congr {m : Member} (hoverride : s.memberOverride = t.memberOverride)
    (hresolve : s.resolve m.declaringType = t.resolve m.declaringType)
    (hsame : s.sameType (s.resolve m.declaringType) m.declaringType =
      t.sameType (s.resolve m.declaringType) m.declaringType) :
    s.resolveMember cat m = t.resolveMember cat m := by
  have hasked : s.override? m = t.override? m := by rw [override?, override?, hoverride]
  simp only [resolveMember, hasked, ← hresolve, hsame]

end Substitution

/-! ## The same pass -/

namespace Pass

variable {s t : Substitution} {cat : Catalog}

/-- A parameter is replaced alike if its type is resolved alike. -/
theorem parameter_congr {p : Parameter} (h : s.resolve p.ty = t.resolve p.ty) :
    parameter s p = parameter t p := by
  simp only [parameter, h]

/-- A constant is replaced alike if constants are transformed alike. -/
theorem constant_congr {id : Nat} {v : Value} (h : s.constantTransform = t.constantTransform) :
    constant s id v = constant t id v := by
  simp only [constant, Substitution.transform, h]

/-- A method is rebound alike if its type arguments are resolved alike. -/
theorem method_congr {m : MethodRef} (h : ∀ x ∈ m.typeArgs, s.resolve x = t.resolve x) :
    method s m = method t m := by
  have hrebind : s.rebind m = t.rebind m := MethodRef.mapTypeArgs_congr h
  simp only [method, hrebind]

/-- An overload is rebound alike if its type arguments are resolved alike. -/
theorem overload_congr {m : Option MethodRef}
    (h : ∀ x ∈ m.toList.flatMap (·.typeArgs), s.resolve x = t.resolve x) :
    overload s m = overload t m := by
  cases m with
  | none => rfl
  | some m =>
    have hmethod : method s m = method t m := method_congr fun x hx => h x (by simpa using hx)
    simp only [overload, hmethod]

/-- A member is told of and resolved alike if it is asked about alike. -/
theorem member_congr {m : Member} (hoverride : s.memberOverride = t.memberOverride)
    (h : s.resolveMember cat m = t.resolveMember cat m) : member s cat m = member t cat m := by
  have hasked : s.override? m = t.override? m := by
    rw [Substitution.override?, Substitution.override?, hoverride]
  simp only [member, hoverride, hasked, h]

end Pass

namespace Expr

variable {s t : Substitution} {cat : Catalog}

/-- An optional part is walked over alike if the part is. -/
theorem retargetOption_congr {o : Option Expr}
    (h : ∀ x, o = some x → x.retarget s cat = x.retarget t cat) :
    retargetOption s cat o = retargetOption t cat o := by
  cases o with
  | none => rfl
  | some x => rw [retargetOption, retargetOption, h x rfl]

/-- Parts in a row are walked over alike if each of them is. -/
theorem retargetList_congr {es : List Expr} (h : ∀ x ∈ es, x.retarget s cat = x.retarget t cat) :
    retargetList s cat es = retargetList t cat es := by
  induction es with
  | nil => rfl
  | cons x xs ih =>
    rw [retargetList, retargetList, h x List.mem_cons_self,
      ih fun y hy => h y (List.mem_cons_of_mem _ hy)]

/-- What is refused is refused under any substitution. -/
theorem retarget_of_not_supported {e : Expr} (h : ¬ e.Supported) :
    e.retarget s cat = e.retarget t cat := by
  cases e with
  | conditional | invoke | default => rfl
  | call | lambda | parameter | member | constant | unary | binary =>
    exact absurd (by simp [Supported, kind]) h

/-- Substitutions that give the same answers about an expression are walked with alike. -/
theorem retarget_congr {e : Expr} (h : s.Agree t cat e) : e.retarget s cat = e.retarget t cat := by
  -- By induction over parts; nothing is asked below a node that is refused.
  induction e using childInduction with
  | node e ih =>
    by_cases he : e.Supported
    case neg => exact retarget_of_not_supported he
    have hpart : ∀ c ∈ e.children, c.retarget s cat = c.retarget t cat :=
      fun c hc => ih c hc (h.part he hc)
    -- What the node itself asks about comes last, after its parts.
    have htypes := h.types e .self
    cases e with
    | call id receiver method args ty =>
      have hargs := retargetList_congr fun x hx => hpart x (List.mem_append_right _ hx)
      have hreceiver := retargetOption_congr (o := receiver) fun x hx =>
        hpart x (List.mem_append_left _ (Option.mem_toList.mpr hx))
      have hmethod : Pass.method s method = Pass.method t method :=
        Pass.method_congr fun x hx => htypes x (by simpa [resolvedTypes, methods] using hx)
      rw [retarget, retarget, hargs, hreceiver, hmethod]
    | lambda id delegate name tailCall params body =>
      -- Parameters are parts as well, and are walked over as such.
      have hparams : retargetList s cat (params.map .parameter) =
          retargetList t cat (params.map .parameter) :=
        retargetList_congr fun x hx => hpart x (List.mem_append_left _ hx)
      have hbody := hpart body (List.mem_append_right _ (List.mem_singleton_self _))
      rw [retarget, retarget, mapM_parameter s cat, mapM_parameter t cat, hparams, hbody]
    | parameter p =>
      rw [retarget, retarget]
      exact Pass.parameter_congr (htypes p.ty (List.mem_singleton_self _))
    | member id object m =>
      have hobject := retargetOption_congr (o := object) fun x hx =>
        hpart x (Option.mem_toList.mpr hx)
      have hmember : Pass.member s cat m = Pass.member t cat m :=
        Pass.member_congr h.override (h.members id object m .self)
      rw [retarget, retarget, hobject, hmember]
    | constant id v =>
      rw [retarget, retarget]
      exact Pass.constant_congr h.transform
    | unary id op operand ty method =>
      have hoperand := hpart operand (List.mem_singleton_self _)
      have hmethod : Pass.overload s method = Pass.overload t method :=
        Pass.overload_congr fun x hx => htypes x (List.mem_append_right _ hx)
      have hty : (if op = .quote then ty else s.resolve ty) =
          if op = .quote then ty else t.resolve ty := by
        by_cases hop : op = .quote
        · rw [if_pos hop, if_pos hop]
        · rw [if_neg hop, if_neg hop]
          exact htypes ty (by simp [resolvedTypes, hop])
      simp only [retarget, hoperand, hmethod, hty]
    | binary id op left right lifted method conversion ty =>
      have hleft := hpart left (by simp [children])
      have hright := hpart right (by simp [children])
      have hconversion := retargetOption_congr (o := conversion) fun x hx =>
        hpart x (by simp [children, hx])
      have hmethod : Pass.overload s method = Pass.overload t method :=
        Pass.overload_congr htypes
      rw [retarget, retarget, hleft, hright, hconversion, hmethod]
    | conditional | invoke | default => rfl

end Expr

/-- Substitutions that give the same answers about an expression give the same report. -/
theorem Pass.run_congr {s t : Substitution} {cat : Catalog} {e : Expr} (h : s.Agree t cat e)
    (supply : Nat) : Pass.run s cat supply e = Pass.run t cat supply e := by
  rw [Pass.run, Pass.run, Expr.retarget_congr h]

/-! ## The order of a table -/

/-- When no two elements of a list pass a test, the first that does is the same in any order. -/
theorem find?_of_perm {α : Type} {p : α → Bool} {xs ys : List α} (hperm : xs.Perm ys)
    (honce : xs.Pairwise fun a b => ¬ (p a = true ∧ p b = true)) : ys.find? p = xs.find? p := by
  -- What passes the test is the same in either order, and is one element at most.
  have hfilter : (xs.filter p).Perm (ys.filter p) := hperm.filter p
  rw [← List.head?_filter, ← List.head?_filter]
  have hpass : ∀ a ∈ xs.filter p, p a = true := fun a ha => (List.mem_filter.mp ha).2
  have hpairs := honce.filter p
  generalize xs.filter p = found at hfilter hpass hpairs ⊢
  cases found with
  | nil => rw [List.nil_perm.mp hfilter]
  | cons a rest =>
    cases rest with
    | nil => rw [List.singleton_perm.mp hfilter]
    | cons b rest =>
      -- Two elements that pass would exclude each other.
      have hnot := (List.pairwise_cons.mp hpairs).1 b List.mem_cons_self
      exact absurd ⟨hpass a (by simp), hpass b (by simp)⟩ hnot

namespace Substitution

variable {s t : Substitution} {cat : Catalog}

/-- Tables in which every look-up ends alike give the same answers. -/
theorem Agree.of_lookup {e : Expr} (hmode : s.mode = t.mode)
    (htransform : s.constantTransform = t.constantTransform)
    (hoverride : s.memberOverride = t.memberOverride) (h : ∀ x, s.lookup x = t.lookup x) :
    s.Agree t cat e := by
  have hresolve : ∀ x, s.resolve x = t.resolve x := fun x => resolve_congr fun u _ => h u
  refine ⟨fun _ _ x _ => hresolve x, fun _ _ m _ => ?_, htransform, hoverride⟩
  exact resolveMember_congr hoverride (hresolve _) (sameType_of_mode hmode _ _)

/-- Of sources that do not match each other, at most one matches a type. -/
theorem pairwise_not_matched {x : Ty}
    (h : s.pairs.Pairwise fun a b => s.sameType a.1 b.1 = false) :
    s.pairs.Pairwise fun a b => ¬ (s.sameType a.1 x = true ∧ s.sameType b.1 x = true) := by
  apply h.imp
  -- Two sources that match one type would match each other.
  rintro a b hab ⟨ha, hb⟩
  rw [sameType_trans ha (sameType_symm hb)] at hab
  cases hab

/-- A table whose sources do not match each other answers alike in any order. -/
theorem lookup_of_perm {ps : List (Ty × Ty)} (hperm : s.pairs.Perm ps)
    (h : s.pairs.Pairwise fun a b => s.sameType a.1 b.1 = false) (x : Ty) :
    ({ s with pairs := ps } : Substitution).lookup x = s.lookup x := by
  show (ps.find? fun pair => s.sameType pair.1 x).map (·.2) = _
  rw [find?_of_perm hperm (pairwise_not_matched h)]
  rfl

/-- A pair whose source matches an earlier one is never reached. -/
theorem lookup_of_insert {pair extra : Ty × Ty} {before between after : List (Ty × Ty)}
    (hpairs : s.pairs = before ++ pair :: (between ++ after))
    (h : s.sameType pair.1 extra.1 = true) (x : Ty) :
    ({ s with pairs := before ++ pair :: (between ++ extra :: after) } : Substitution).lookup x =
      s.lookup x := by
  show ((before ++ pair :: (between ++ extra :: after)).find? fun p => s.sameType p.1 x).map (·.2) =
    (s.pairs.find? fun p => s.sameType p.1 x).map (·.2)
  rw [hpairs]
  by_cases hx : s.sameType pair.1 x = true
  · -- The search is over at the earlier pair.
    simp [List.find?_append, hx]
  · have hextra : s.sameType extra.1 x = false := by
      apply Bool.eq_false_iff.mpr
      intro hx'
      exact hx (sameType_trans h hx')
    simp [List.find?_append, hx, hextra]

end Substitution

/-- Matching is an equivalence in either mode. Hence the order of a table whose sources do not match
    each other does not count, and a pair whose source matches an earlier one does not count at all:
    the pass over any expression has the same report. -/
theorem Pass.run_table_order (s : Substitution) (cat : Catalog) (supply : Nat) (e : Expr) :
    (Equivalence fun a b => s.sameType a b = true) ∧
    (∀ ps, s.pairs.Perm ps → (s.pairs.Pairwise fun a b => s.sameType a.1 b.1 = false) →
      Pass.run { s with pairs := ps } cat supply e = Pass.run s cat supply e) ∧
    ∀ before pair between extra after, s.pairs = before ++ pair :: (between ++ after) →
      s.sameType pair.1 extra.1 = true →
      Pass.run { s with pairs := before ++ pair :: (between ++ extra :: after) } cat supply e =
        Pass.run s cat supply e := by
  refine ⟨⟨s.sameType_refl, Substitution.sameType_symm, Substitution.sameType_trans⟩, ?_, ?_⟩
  · intro ps hperm hkeys
    have hlookup := Substitution.lookup_of_perm hperm hkeys
    exact Pass.run_congr (.of_lookup (by rfl) (by rfl) (by rfl) hlookup) supply
  · -- Another pair behind one whose source it matches: no look-up comes that far.
    intro before pair between extra after hpairs hsame
    have hlookup := Substitution.lookup_of_insert hpairs hsame
    exact Pass.run_congr (.of_lookup (by rfl) (by rfl) (by rfl) hlookup) supply

namespace Sample

/-- The sources of the two pairs do not match, so that they can change places; a further pair for
    items of another namespace comes too late. -/
theorem selection_table_order :
    (both.pairs.Pairwise fun a b => both.sameType a.1 b.1 = false) ∧
      Pass.run { both with pairs := both.pairs.reverse } catalog 8 (selection itemFrom 7 0 5) =
        Pass.run both catalog 8 (selection itemFrom 7 0 5) ∧
      both.sameType itemFrom (.named "Models.ItemFrom") = true ∧
      Pass.run { both with pairs := [(itemFrom, itemTo), (.named "Models.ItemFrom", Ty.object),
          (.named "GroupFrom", .named "GroupTo")] } catalog 8 (selection itemFrom 7 0 5) =
        Pass.run both catalog 8 (selection itemFrom 7 0 5) ∧
      (Pass.run both catalog 8 (selection itemFrom 7 0 5)).result =
        .ok (selection itemTo 7 8 15) := by
  have hkeys : both.pairs.Pairwise fun a b => both.sameType a.1 b.1 = false := by decide
  have hsame : both.sameType itemFrom (.named "Models.ItemFrom") = true := by decide
  obtain ⟨-, hperm, hinsert⟩ := Pass.run_table_order both catalog 8 (selection itemFrom 7 0 5)
  refine ⟨hkeys, hperm _ (List.reverse_perm _).symm hkeys, hsame, ?_, rfl⟩
  exact hinsert [] (itemFrom, itemTo) [] (.named "Models.ItemFrom", Ty.object)
    [(.named "GroupFrom", .named "GroupTo")] rfl hsame

end Sample

/-! ## The matching modes -/

namespace Substitution

variable {s : Substitution}

/-- The substitution with another way of matching. -/
def withMode (s : Substitution) (mode : MatchMode) : Substitution := { s with mode }

/-- The types that are compared in a pass over an expression: the sources of the table, everything
    inside the types that are resolved, and what the declaring types of members resolve to. -/
inductive Compares (s : Substitution) (e : Expr) : Ty → Prop where
  | source {pair : Ty × Ty} (hpair : pair ∈ s.pairs) : Compares s e pair.1
  | inside {n : Expr} {x u : Ty} (hn : n.Reached e) (hx : x ∈ n.resolvedTypes)
      (hu : u ∈ x.subterms) : Compares s e u
  | resolved {id : Nat} {object : Option Expr} {m : Member}
      (hm : (Expr.member id object m).Reached e) : Compares s e (s.resolve m.declaringType)

/-- Whether compared types have the same names only if they are equal. -/
def NamesTell (s : Substitution) (e : Expr) : Prop :=
  ∀ a b, s.Compares e a → s.Compares e b → (s.withMode .byName).sameType a b = true → a = b

namespace NamesTell

variable {e : Expr} (h : s.NamesTell e)

include h

/-- Compared types match alike in all modes. -/
theorem sameType_eq {a b : Ty} (ha : s.Compares e a) (hb : s.Compares e b)
    (mode mode' : MatchMode) :
    (s.withMode mode).sameType a b = (s.withMode mode').sameType a b := by
  -- In either mode, compared types match exactly if they are equal.
  have hiff : ∀ mode, (s.withMode mode).sameType a b = true ↔ a = b := by
    intro mode
    constructor
    · intro hsame
      cases mode with
      | byName => exact h a b ha hb hsame
      | exact => exact of_decide_eq_true hsame
    · rintro rfl
      exact sameType_refl _ a
  rw [Bool.eq_iff_iff, hiff, hiff]

/-- A compared type is looked up alike in all modes, as all sources are compared with it. -/
theorem lookup_eq {u : Ty} (hu : s.Compares e u) (mode mode' : MatchMode) :
    (s.withMode mode).lookup u = (s.withMode mode').lookup u := by
  have hfind : (s.pairs.find? fun pair => (s.withMode mode).sameType pair.1 u) =
      s.pairs.find? fun pair => (s.withMode mode').sameType pair.1 u :=
    List.find?_congr fun pair hpair => h.sameType_eq (.source hpair) hu mode mode'
  exact congrArg (Option.map (·.2)) hfind

/-- What is resolved in a pass is resolved alike in all modes. -/
theorem resolve_eq {n : Expr} {x : Ty} (hn : n.Reached e) (hx : x ∈ n.resolvedTypes)
    (mode mode' : MatchMode) : (s.withMode mode).resolve x = (s.withMode mode').resolve x :=
  resolve_congr fun _ hu => h.lookup_eq (.inside hn hx hu) mode mode'

/-- Where names tell compared types apart, all modes give the same answers. -/
theorem agree (cat : Catalog) (mode mode' : MatchMode) :
    (s.withMode mode).Agree (s.withMode mode') cat e := by
  refine ⟨fun n hn x hx => h.resolve_eq hn hx mode mode', fun id object m hm => ?_, rfl, rfl⟩
  have hdeclaring : m.declaringType ∈ (Expr.member id object m).resolvedTypes :=
    List.mem_singleton_self _
  apply resolveMember_congr (by rfl) (h.resolve_eq hm hdeclaring mode mode')
  -- The resolved type is one of those that are compared, in whichever mode it was resolved.
  have hresolved : (s.withMode mode).resolve m.declaringType = s.resolve m.declaringType :=
    h.resolve_eq hm hdeclaring mode s.mode
  rw [hresolved]
  exact h.sameType_eq (.resolved hm)
    (.inside hm hdeclaring (Ty.mem_subterms.mpr (.inl rfl))) mode mode'

end NamesTell

end Substitution

/-- When the compared types have the same names only if they are equal, a pass that matches types
    by name has the same report as one that matches them exactly. -/
theorem Pass.run_byName_eq_run_exact {s : Substitution} {e : Expr} (h : s.NamesTell e)
    (cat : Catalog) (supply : Nat) :
    Pass.run (s.withMode .byName) cat supply e = Pass.run (s.withMode .exact) cat supply e :=
  Pass.run_congr (h.agree cat .byName .exact) supply

namespace Sample

/-- What is compared in the pass over the query: the sources, and the types inside its nodes. -/
theorem mem_of_renumber_compares {u : Ty} (h : renumber.Compares (selection itemFrom 7 0 5) u) :
    u ∈ [itemFrom, itemTo, Ty.query itemFrom, Ty.object] := by
  cases h with
  | source hpair =>
    rw [List.mem_singleton.mp hpair]
    simp [itemFrom]
  | inside hn hx hu =>
    -- Every node that is reached is one of the history or the quotation, and these are looked
    -- through.
    have hall : ∀ n ∈ quotation itemFrom 7 0 5 :: selectionHistory, ∀ x ∈ n.resolvedTypes,
        ∀ u ∈ x.subterms, u ∈ [itemFrom, itemTo, Ty.query itemFrom, Ty.object] := by decide
    exact hall _ (mem_of_within_selection hn.within) _ hx _ hu
  | resolved hm =>
    have hmem := mem_of_within_selection hm.within
    simp [selectionHistory, selection, quotation, selector, comparison, identifier, number,
      source] at hmem
    obtain ⟨-, -, rfl⟩ := hmem
    decide

/-- Among these types, those of the same names are equal. -/
theorem renumber_namesTell : renumber.NamesTell (selection itemFrom 7 0 5) := by
  have hall : ∀ a ∈ [itemFrom, itemTo, Ty.query itemFrom, Ty.object],
      ∀ b ∈ [itemFrom, itemTo, Ty.query itemFrom, Ty.object],
      (renumber.withMode .byName).sameType a b = true → a = b := by decide
  intro a b ha hb
  exact hall a (mem_of_renumber_compares ha) b (mem_of_renumber_compares hb)

/-- Both ways of matching move the query to the other items. -/
theorem selection_modes :
    renumber.NamesTell (selection itemFrom 7 0 5) ∧
      Pass.run (renumber.withMode .byName) catalog 8 (selection itemFrom 7 0 5) =
        Pass.run (renumber.withMode .exact) catalog 8 (selection itemFrom 7 0 5) ∧
      (Pass.run (renumber.withMode .exact) catalog 8 (selection itemFrom 7 0 5)).result =
        .ok (selection itemTo 8 8 15) :=
  ⟨renumber_namesTell, Pass.run_byName_eq_run_exact renumber_namesTell catalog 8, rfl⟩

end Sample

end Retarget
