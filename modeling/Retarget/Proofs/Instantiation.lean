import Retarget.Proofs.Coherence

/-!
# What a catalog knows

A catalog answers from the declarations that were added to it, of which the last under a name
counts. What it answers about a concrete type is the declaration as it was supplied, with the type
parameters replaced by the arguments of the type all at once. The two passes over a type that this
takes, one when the declaration is added and one when it is looked up, come to a single replacement:
the first leaves marks that only the second reads, and what the second puts in is not looked at
again.

## Key results

- `Ty.substitute_promote`: marking and replacing is one replacement
- `Declaration.isLast_concat`: the last declaration after one more
- `Catalog.Declares.class?_eq_some`, `Catalog.Declares.method?_eq_some`: what is looked up
- `Catalog.Declares.instantiates`: members and methods of a catalog
-/

namespace Retarget

/-! ## One replacement -/

namespace Ty

/-- The argument that stands where a name stands among the type parameters. -/
def argumentOf? (params : List String) (args : List Ty) (n : String) : Option Ty :=
  (params.idxOf? n).bind (args[·]?)

mutual

/-- The type over type arguments: each plain name and each parameter that is the `i`-th of the type
    parameters is replaced by the `i`-th argument as it is, and all else stays. -/
def instantiate (params : List String) (args : List Ty) : Ty → Ty
  | .named n => (argumentOf? params args n).getD (.named n)
  | .generic d as => .generic d (instantiateAll params args as)
  | .param n => (argumentOf? params args n).getD (.param n)

/-- The types of a list over type arguments. -/
def instantiateAll (params : List String) (args : List Ty) : List Ty → List Ty
  | [] => []
  | t :: ts => instantiate params args t :: instantiateAll params args ts

end

/-- The types of a list are taken one by one. -/
theorem instantiateAll_eq_map (params : List String) (args ts : List Ty) :
    instantiateAll params args ts = ts.map (instantiate params args) := by
  induction ts with
  | nil => rfl
  | cons t ts ih => simp [instantiateAll, ih]

variable {params : List String} {args : List Ty}

/-- Of distinct parameters, each is bound to the argument in its place. -/
theorem Bindings.get?_zip (hparams : params.Nodup) (n : String) :
    Bindings.get? (params.zip args) n = argumentOf? params args n := by
  -- Along parameters and arguments together. Bindings are searched from behind, positions from the
  -- front, and distinct names make the two agree.
  induction params generalizing args with
  | nil => rfl
  | cons p ps ih =>
    obtain ⟨hp, hps⟩ := List.nodup_cons.mp hparams
    cases args with
    | nil => cases h : (p :: ps).idxOf? n <;> simp [argumentOf?, h, get?]
    | cons a as =>
      rw [List.zip_cons_cons, get?, ih hps]
      by_cases hn : p = n
      · -- The parameter is not bound a second time.
        subst hn
        have hrest : ps.idxOf? p = none := List.idxOf?_eq_none_iff.mpr hp
        simp [argumentOf?, hrest, List.idxOf?_cons]
      · have hcons : argumentOf? (p :: ps) (a :: as) n = argumentOf? ps as n := by
          cases h : ps.idxOf? n <;> simp [argumentOf?, List.idxOf?_cons, hn, h]
        rw [hcons]
        cases argumentOf? ps as n <;> simp [hn]

/-- Each type parameter has an argument where there are as many of these. -/
theorem exists_argumentOf? (hlen : params.length = args.length) {n : String} (hn : n ∈ params) :
    ∃ a, argumentOf? params args n = some a := by
  obtain ⟨i, hi⟩ := Option.ne_none_iff_exists'.mp (mt List.idxOf?_eq_none_iff.mp (not_not.mpr hn))
  have hbound : i < args.length := hlen ▸ (List.findIdx?_eq_some_iff_getElem.mp hi).1
  exact ⟨args[i], by rw [argumentOf?, hi, Option.bind_some, List.getElem?_eq_getElem hbound]⟩

/-- A name that is no type parameter has none. -/
theorem argumentOf?_eq_none {n : String} (hn : n ∉ params) : argumentOf? params args n = none := by
  rw [argumentOf?, List.idxOf?_eq_none_iff.mpr hn, Option.bind_none]

/-- Names that are marked as parameters and then replaced are replaced at once. -/
theorem substitute_promote (hparams : params.Nodup) (hlen : params.length = args.length) (t : Ty) :
    (t.promote params).substitute (params.zip args) = t.instantiate params args := by
  -- By induction over arguments; only plain names and parameters are replaced themselves.
  induction t using argsInduction with
  | type t ih =>
    cases t with
    | named n =>
      rw [promote, instantiate]
      split
      · rename_i hn
        -- A name that was marked has an argument, so the mark does not stay.
        obtain ⟨a, ha⟩ := exists_argumentOf? hlen hn
        rw [substitute, Bindings.get?_zip hparams, ha, Option.getD_some, Option.getD_some]
      · rename_i hn
        rw [substitute, argumentOf?_eq_none hn, Option.getD_none]
    | generic d as =>
      rw [promote, substitute, instantiate, promoteAll_eq_map, substituteAll_eq_map,
        instantiateAll_eq_map, List.map_map]
      exact congrArg (generic d) (List.map_congr_left ih)
    | param n => rw [promote, substitute, instantiate, Bindings.get?_zip hparams]

end Ty

/-! ## Declarations -/

/-- What can be added to a catalog. -/
inductive Declaration where
  | ofClass (c : ClassDecl)
  | ofMethod (d : MethodDef)

namespace Declaration

/-- Under what a declaration is added: the name of a class, or the name of the declaring type of a
    method and its own. -/
def key : Declaration → String ⊕ (String × String)
  | .ofClass c => .inl c.name
  | .ofMethod d => .inr (d.declaringType.fullName, d.name)

/-- Whether a declaration is the last that was added under its name. -/
def IsLast (ds : List Declaration) (x : Declaration) : Prop :=
  ∃ before after, ds = before ++ x :: after ∧ ∀ y ∈ after, y.key ≠ x.key

/-- Nothing is the last of no declarations. -/
theorem not_isLast_nil (x : Declaration) : ¬IsLast [] x := by
  rintro ⟨before, after, h, -⟩
  simp at h

/-- After one more declaration, that one is the last under its name, and those under other names
    are what they were. -/
theorem isLast_concat {ds : List Declaration} {y x : Declaration} :
    IsLast (ds ++ [y]) x ↔ x = y ∨ (y.key ≠ x.key ∧ IsLast ds x) := by
  constructor
  · rintro ⟨before, after, h, hafter⟩
    -- The declaration in question is the new one, or the new one comes behind it.
    rcases List.eq_nil_or_concat' after with rfl | ⟨after, z, rfl⟩
    · left
      exact (List.append_inj_right' h rfl |> List.cons.inj |>.1).symm
    · right
      rw [← List.cons_append, ← List.append_assoc] at h
      obtain ⟨rfl, hz⟩ := List.append_inj' h rfl
      obtain rfl : y = z := (List.cons.inj hz).1
      exact ⟨hafter y (by simp), before, after, rfl, fun w hw => hafter w (by simp [hw])⟩
  · rintro (rfl | ⟨hkey, before, after, rfl, hafter⟩)
    · exact ⟨ds, [], rfl, by simp⟩
    · refine ⟨before, after ++ [y], by simp, ?_⟩
      intro w hw
      rcases List.mem_append.mp hw with hw | hw
      · exact hafter w hw
      · rwa [List.mem_singleton.mp hw]

end Declaration

/-- The members of a kind once the types are marked. -/
theorem ClassDecl.ofKind_promote (c : ClassDecl) (kind : MemberKind) :
    c.promote.ofKind kind = (c.ofKind kind).map (promoteDecl c.typeParams) := by
  cases kind <;> rfl

/-- The first member of a name is the same before and after the types are marked. -/
theorem ClassDecl.find?_promote (c : ClassDecl) (kind : MemberKind) (name : String) :
    (c.promote.ofKind kind).find? (·.name = name) =
      ((c.ofKind kind).find? (·.name = name)).map (promoteDecl c.typeParams) := by
  rw [ofKind_promote, List.find?_map]
  rfl

namespace Catalog

open Declaration (IsLast)

/-- The declarations of the built-in catalog. -/
def builtinDeclarations : List Declaration :=
  [.ofClass nullableClass, .ofClass stringClass] ++ builtinMethods.map .ofMethod

/-- A catalog that came from the empty or from the built-in one by adding declarations, with all
    declarations in the order in which they were added. -/
inductive Declares : Catalog → List Declaration → Prop where
  | empty : Declares empty []
  | builtin : Declares builtin builtinDeclarations
  | addClass {cat : Catalog} {ds : List Declaration} (c : ClassDecl) (before : Declares cat ds) :
      Declares (cat.addClass c) (ds ++ [.ofClass c])
  | addMethod {cat : Catalog} {ds : List Declaration} (d : MethodDef) (before : Declares cat ds) :
      Declares (cat.addMethod d) (ds ++ [.ofMethod d])

/-! ## Looking up -/

/-- A class that was added is found under its name, with its types marked; other names are not
    touched. -/
theorem class?_addClass (cat : Catalog) (c : ClassDecl) (name : String) :
    (cat.addClass c).class? name = if c.name = name then some c.promote else cat.class? name := by
  have hname : c.promote.name = c.name := rfl
  by_cases h : c.name = name <;> simp [class?, addClass, hname, h]

/-- A method that was added is found on its declaring type under its name, with its types marked;
    others are not touched. -/
theorem method?_addMethod (cat : Catalog) (d : MethodDef) (declaringType name : String) :
    (cat.addMethod d).method? declaringType name =
      if d.declaringType.fullName = declaringType ∧ d.name = name then some d.promote
      else cat.method? declaringType name := by
  have htype : d.promote.declaringType = d.declaringType := rfl
  have hname : d.promote.name = d.name := rfl
  by_cases h : d.declaringType.fullName = declaringType ∧ d.name = name
  · simp [method?, addMethod, htype, hname, h]
  · rw [if_neg h, method?, addMethod, List.find?_cons_of_neg (by simpa [htype, hname] using h)]
    rfl

/-- The declarations that a catalog answers from. -/
structure AnswersFrom (cat : Catalog) (ds : List Declaration) : Prop where
  class?_eq_some : ∀ name c', cat.class? name = some c' ↔
    ∃ c, IsLast ds (.ofClass c) ∧ c.name = name ∧ c' = c.promote
  method?_eq_some : ∀ declaringType name d', cat.method? declaringType name = some d' ↔
    ∃ d, IsLast ds (.ofMethod d) ∧ (d.declaringType.fullName = declaringType ∧ d.name = name) ∧
      d' = d.promote

namespace AnswersFrom

variable {cat : Catalog} {ds : List Declaration}

/-- The empty catalog answers from nothing. -/
theorem empty : AnswersFrom Catalog.empty [] where
  class?_eq_some := by simp [class?, Catalog.empty, Declaration.not_isLast_nil]
  method?_eq_some := by simp [method?, Catalog.empty, Declaration.not_isLast_nil]

/-- A class that is added takes the place of the one of its name, and of nothing else. -/
theorem addClass (h : AnswersFrom cat ds) (c : ClassDecl) :
    AnswersFrom (cat.addClass c) (ds ++ [.ofClass c]) where
  class?_eq_some := by
    intro name c'
    rw [class?_addClass]
    constructor
    · intro hc'
      -- Under the name of the new class that one is found; under any other, what was there.
      split at hc'
      · rename_i hname
        exact ⟨c, Declaration.isLast_concat.mpr (.inl rfl), hname, (Option.some.inj hc').symm⟩
      · rename_i hname
        obtain ⟨b, hb, rfl, rfl⟩ := (h.class?_eq_some name c').mp hc'
        refine ⟨b, Declaration.isLast_concat.mpr (.inr ⟨?_, hb⟩), rfl, rfl⟩
        exact fun hkey => hname (Sum.inl.inj hkey)
    · rintro ⟨b, hb, rfl, rfl⟩
      rcases Declaration.isLast_concat.mp hb with hbc | ⟨hkey, hb⟩
      · obtain rfl := Declaration.ofClass.inj hbc
        rw [if_pos rfl]
      · rw [if_neg fun hname => hkey (congrArg Sum.inl hname)]
        exact (h.class?_eq_some _ _).mpr ⟨b, hb, rfl, rfl⟩
  method?_eq_some := by
    intro declaringType name d'
    refine (h.method?_eq_some declaringType name d').trans (exists_congr fun d => ?_)
    simp [Declaration.isLast_concat, Declaration.key]

/-- A method that is added takes the place of the one of its declaring type and name, and of nothing
    else. -/
theorem addMethod (h : AnswersFrom cat ds) (d : MethodDef) :
    AnswersFrom (cat.addMethod d) (ds ++ [.ofMethod d]) where
  class?_eq_some := by
    intro name c'
    refine (h.class?_eq_some name c').trans (exists_congr fun c => ?_)
    simp [Declaration.isLast_concat, Declaration.key]
  method?_eq_some := by
    intro declaringType name d'
    rw [method?_addMethod]
    constructor
    · intro hd'
      -- The same case split, on declaring type and name.
      split at hd'
      · rename_i hname
        exact ⟨d, Declaration.isLast_concat.mpr (.inl rfl), hname, (Option.some.inj hd').symm⟩
      · rename_i hname
        obtain ⟨b, hb, ⟨rfl, rfl⟩, rfl⟩ := (h.method?_eq_some declaringType name d').mp hd'
        refine ⟨b, Declaration.isLast_concat.mpr (.inr ⟨?_, hb⟩), ⟨rfl, rfl⟩, rfl⟩
        exact fun hkey => hname (Prod.mk.inj (Sum.inr.inj hkey))
    · rintro ⟨b, hb, ⟨rfl, rfl⟩, rfl⟩
      rcases Declaration.isLast_concat.mp hb with hbd | ⟨hkey, hb⟩
      · obtain rfl := Declaration.ofMethod.inj hbd
        rw [if_pos ⟨rfl, rfl⟩]
      · rw [if_neg fun hname => hkey (congrArg Sum.inr (Prod.ext hname.1 hname.2))]
        exact (h.method?_eq_some _ _ _).mpr ⟨b, hb, ⟨rfl, rfl⟩, rfl⟩

/-- Methods are added one after the other. -/
theorem foldl_addMethod (h : AnswersFrom cat ds) (methods : List MethodDef) :
    AnswersFrom (methods.foldl Catalog.addMethod cat) (ds ++ methods.map .ofMethod) := by
  induction methods generalizing cat ds with
  | nil => simpa using h
  | cons d methods ih => simpa using ih (h.addMethod d)

/-- The built-in catalog answers from the two classes and the operators it was made of. -/
theorem builtin : AnswersFrom Catalog.builtin builtinDeclarations :=
  ((empty.addClass nullableClass).addClass stringClass).foldl_addMethod builtinMethods

end AnswersFrom

/-! ## Members and methods -/

/-- A method can be closed over as many arguments as it has type parameters, be it generic or
    not. -/
theorem methodRef_eq_ok {cat : Catalog} {declaringType name : String} {d : MethodDef}
    {typeArgs : List Ty} (h : cat.method? declaringType name = some d)
    (hlen : typeArgs.length = d.typeParams.length) :
    cat.methodRef declaringType name typeArgs = .ok ⟨d, typeArgs, .inr hlen⟩ := by
  rw [methodRef, h]
  -- A method that is not generic is taken as it is, and has no arguments.
  by_cases hparams : d.typeParams = []
  · obtain rfl : typeArgs = [] :=
      List.length_eq_zero_iff.mp (by rw [hlen, hparams, List.length_nil])
    simp [hparams, MethodRef.ofDef]
  · simp [hparams, MethodRef.close, hlen]

/-- A catalog answers from what was added to it. -/
theorem Declares.answersFrom {cat : Catalog} {ds : List Declaration} (h : cat.Declares ds) :
    cat.AnswersFrom ds := by
  induction h with
  | empty => exact .empty
  | builtin => exact .builtin
  | addClass c _ ih => exact ih.addClass c
  | addMethod d _ ih => exact ih.addMethod d

/-- What a catalog says about a type is what the last class of that name was declared with, and
    what it says about a method is what the last method of that name on that declaring type was
    declared with, over the type arguments: distinct type parameters, as many as there are
    arguments, are replaced all at once. -/
theorem Declares.instantiates {cat : Catalog} {ds : List Declaration} (h : cat.Declares ds) :
    (∀ kind t name, (cat.member? kind t name).isSome = true ↔
      ∃ c, IsLast ds (.ofClass c) ∧ c.name = t.fullName ∧ ∃ d ∈ c.ofKind kind, d.name = name) ∧
    (∀ kind t name c d, IsLast ds (.ofClass c) → c.name = t.fullName →
      (c.ofKind kind).find? (·.name = name) = some d →
      c.typeParams.Nodup → c.typeParams.length = t.args.length →
      cat.member? kind t name =
        some ⟨t, name, kind, d.ty.instantiate c.typeParams t.args, d.isStatic⟩) ∧
    ∀ d typeArgs, IsLast ds (.ofMethod d) →
      d.typeParams.Nodup → typeArgs.length = d.typeParams.length →
      ∃ m, cat.methodRef d.declaringType.fullName d.name typeArgs = .ok m ∧
        m.parameterTypes = d.params.map (Ty.instantiate d.typeParams typeArgs) ∧
        m.returnType = d.returnType.instantiate d.typeParams typeArgs := by
  have hanswers := h.answersFrom
  refine ⟨?_, ?_, ?_⟩
  · intro kind t name
    rw [Option.isSome_iff_exists]
    constructor
    · rintro ⟨m, hm⟩
      obtain ⟨c', d', hc', hd', -⟩ := member?_eq_some.mp hm
      obtain ⟨c, hlast, hname, rfl⟩ := (hanswers.class?_eq_some _ _).mp hc'
      rw [ClassDecl.find?_promote] at hd'
      obtain ⟨d, hd, -⟩ := Option.map_eq_some_iff.mp hd'
      exact ⟨c, hlast, hname, d, List.mem_of_find?_eq_some hd, by simpa using List.find?_some hd⟩
    · -- Some member has the name, so there is a first one, which is the one that is seen.
      rintro ⟨c, hlast, hname, d, hd, hdname⟩
      have hfound : ((c.ofKind kind).find? (·.name = name)).isSome = true :=
        List.find?_isSome.mpr ⟨d, hd, by simpa using hdname⟩
      obtain ⟨first, hfirst⟩ := Option.isSome_iff_exists.mp hfound
      have hc := (hanswers.class?_eq_some _ _).mpr ⟨c, hlast, hname, rfl⟩
      refine ⟨_, member?_eq_some.mpr
        ⟨c.promote, ClassDecl.promoteDecl c.typeParams first, hc, ?_, rfl⟩⟩
      rw [ClassDecl.find?_promote, hfirst, Option.map_some]
  · intro kind t name c d hlast hname hd hparams hlen
    have hc := (hanswers.class?_eq_some _ _).mpr ⟨c, hlast, hname, rfl⟩
    have hdname : d.name = name := by simpa using List.find?_some hd
    refine member?_eq_some.mpr ⟨c.promote, ClassDecl.promoteDecl c.typeParams d, hc, ?_, ?_⟩
    · rw [ClassDecl.find?_promote, hd, Option.map_some]
    · rw [← Ty.substitute_promote hparams hlen, ← hdname]
      rfl
  · intro d typeArgs hlast hparams hlen
    have hd := (hanswers.method?_eq_some _ _ _).mpr ⟨d, hlast, ⟨rfl, rfl⟩, rfl⟩
    -- The signature is marked when it is added and replaced when it is asked for, which is one
    -- replacement.
    have hreplace := Ty.substitute_promote hparams hlen.symm
    refine ⟨_, methodRef_eq_ok hd hlen, ?_, hreplace d.returnType⟩
    have hparameters : d.promote.params = d.params.map (Ty.promote d.typeParams) := rfl
    rw [MethodRef.parameterTypes, hparameters, List.map_map]
    exact List.map_congr_left fun t _ => hreplace t

end Catalog

namespace Sample

/-- A class of pairs with a member whose type has the type parameters in both forms, and the name of
    one of them as that of a definition. -/
def pairClass : ClassDecl where
  name := "Pair"
  typeParams := ["A", "B"]
  properties := [⟨"Swap", Ty.func [.named "B"] (.generic "A" [.param "A"]), false⟩]
  fields := []

/-- A method that turns pairs around. -/
def flipMethod : MethodDef :=
  ⟨.named "Pairs", "Flip", ["A", "B"], [.generic "Pair" [.named "A", .named "B"]],
    .generic "Pair" [.named "B", .named "A"], true⟩

/-- Pairs, of which there was another class before. -/
def pairs : Catalog :=
  ((Catalog.builtin.addClass (itemClass "Pair")).addMethod flipMethod).addClass pairClass

def pairDeclarations : List Declaration :=
  Catalog.builtinDeclarations ++ [.ofClass (itemClass "Pair")] ++ [.ofMethod flipMethod] ++
    [.ofClass pairClass]

/-- The arguments may mention the names of the type parameters. -/
theorem pairs_instantiated :
    let b := Ty.named "B"
    let queryA := Ty.query (.named "A")
    pairs.Declares pairDeclarations ∧
      Declaration.IsLast pairDeclarations (.ofClass pairClass) ∧
      Declaration.IsLast pairDeclarations (.ofMethod flipMethod) ∧
      pairs.member? .property (.generic "Pair" [b, queryA]) "Swap" =
        some ⟨.generic "Pair" [b, queryA], "Swap", .property,
          Ty.func [queryA] (.generic "A" [b]), false⟩ ∧
      ∃ m, pairs.methodRef "Pairs" "Flip" [b, queryA] = .ok m ∧
        m.parameterTypes = [.generic "Pair" [b, queryA]] ∧
        m.returnType = .generic "Pair" [queryA, b] := by
  intro b queryA
  have hdeclares : pairs.Declares pairDeclarations :=
    .addClass pairClass (.addMethod flipMethod (.addClass (itemClass "Pair") .builtin))
  have hclass : Declaration.IsLast pairDeclarations (.ofClass pairClass) := ⟨_, [], rfl, by simp⟩
  have hmethod : Declaration.IsLast pairDeclarations (.ofMethod flipMethod) :=
    ⟨_, [.ofClass pairClass], List.append_assoc .., by simp [Declaration.key]⟩
  obtain ⟨-, hmembers, hmethods⟩ := Catalog.Declares.instantiates hdeclares
  exact ⟨hdeclares, hclass, hmethod,
    hmembers .property (.generic "Pair" [b, queryA]) "Swap" pairClass _ hclass rfl rfl (by decide)
      rfl,
    hmethods flipMethod [b, queryA] hmethod (by decide) rfl⟩

end Sample

end Retarget
