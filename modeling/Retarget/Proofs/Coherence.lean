import Mathlib.Data.List.TakeWhile
import Retarget.Proofs.Failure

/-!
# Resolving and the structure of types

Resolving goes well with what else is done to types. It respects matching, so that types which
differ in their namespaces alone are resolved to types which do. And it commutes with
instantiation: to resolve a signature that was instantiated over some types is to instantiate it
over the resolved types, as long as the table matches no part of the signature but its parameters.
A method that is closed anew, or a member that is looked up on a resolved type, has the types that
the pass expects there.

## Key results

- `Ty.equalUpToNamespaces_iff`: types have the same names exactly if only namespaces tell them apart
- `Substitution.sameType_resolve`: matching types are resolved to matching types
- `Substitution.resolve_substitute`: resolving commutes with the replacement of type parameters
-/

namespace Retarget

namespace Ty

/-! ## Namespaces -/

/-- A segment in a namespace, or by itself. -/
def qualify : Option String → String → String
  | none, segment => segment
  | some ns, segment => ns ++ "." ++ segment

/-- Whether two names have the same last segment, in whatever namespaces. -/
def SameSegment (m n : String) : Prop :=
  ∃ segment, '.' ∉ segment.toList ∧ (∃ ns, m = qualify ns segment) ∧ ∃ ns, n = qualify ns segment

/-- Whether nothing but namespaces tells two types apart. The three forms of a type without
    arguments are not told apart. -/
inductive EqualUpToNamespaces : Ty → Ty → Prop where
  | intro {t u : Ty} (hname : SameSegment t.fullName u.fullName)
      (hargs : List.Forall₂ EqualUpToNamespaces t.args u.args) : EqualUpToNamespaces t u

/-- The last segment is found again in whatever namespace it was put. -/
theorem simpleName_qualify {segment : String} (h : '.' ∉ segment.toList) (ns : Option String) :
    simpleName (qualify ns segment) = segment := by
  have hall : ∀ c ∈ segment.toList.reverse, (decide (c ≠ '.')) = true := by
    intro c hc
    rw [List.mem_reverse] at hc
    exact decide_eq_true fun hdot => h (hdot ▸ hc)
  cases ns with
  | none =>
    rw [qualify, simpleName, List.takeWhile_eq_self_iff.mpr hall, List.reverse_reverse,
      String.ofList_toList]
  | some ns =>
    -- Read from the end, the segment stands before the dot, and the namespace behind it.
    have hreverse : (qualify (some ns) segment).toList.reverse =
        segment.toList.reverse ++ '.' :: ns.toList.reverse := by
      simp [qualify]
    rw [simpleName, hreverse, List.takeWhile_append_of_pos hall,
      List.takeWhile_cons_of_neg (by decide), List.append_nil, List.reverse_reverse,
      String.ofList_toList]

/-- A last segment has no dot in it. -/
theorem dot_notMem_simpleName (full : String) : '.' ∉ (simpleName full).toList := by
  intro hdot
  rw [simpleName, String.toList_ofList, List.mem_reverse] at hdot
  simpa using List.mem_takeWhile_imp hdot

/-- Every name is its last segment in some namespace. -/
theorem exists_qualify_simpleName (full : String) : ∃ ns, full = qualify ns (simpleName full) := by
  have hsplit : full.toList = (full.toList.reverse.dropWhile (· ≠ '.')).reverse ++
      (full.toList.reverse.takeWhile (· ≠ '.')).reverse := by
    rw [← List.reverse_append, List.takeWhile_append_dropWhile, List.reverse_reverse]
  cases hrest : full.toList.reverse.dropWhile (· ≠ '.') with
  | nil =>
    -- Without a dot the segment is all there is.
    refine ⟨none, String.toList_injective ?_⟩
    rw [hrest] at hsplit
    simpa [qualify, simpleName] using hsplit
  | cons c rest =>
    -- What is left of the name begins, from its end, with the dot.
    have hc : c = '.' := by
      have hfind := List.find?_not_eq_head?_dropWhile (fun c => c ≠ '.') full.toList.reverse
      rw [hrest, List.head?_cons] at hfind
      simpa using List.find?_some hfind
    refine ⟨some (String.ofList rest.reverse), String.toList_injective ?_⟩
    rw [hrest, hc] at hsplit
    simpa [qualify, simpleName] using hsplit

/-- To have the same last segment is to have the same simple name. -/
theorem sameSegment_iff {m n : String} : SameSegment m n ↔ simpleName m = simpleName n := by
  constructor
  · rintro ⟨segment, hdot, ⟨ns, rfl⟩, ns', rfl⟩
    rw [simpleName_qualify hdot, simpleName_qualify hdot]
  · intro h
    refine ⟨simpleName m, dot_notMem_simpleName m, exists_qualify_simpleName m, ?_⟩
    rw [h]
    exact exists_qualify_simpleName n

/-- Two types have the same names throughout exactly if only namespaces tell them apart. -/
theorem equalUpToNamespaces_iff {t u : Ty} : t.EqualUpToNamespaces u ↔ t.sameNames u = true := by
  -- By induction over arguments; both sides compare the heads and then the arguments in pairs.
  induction t using argsInduction generalizing u with
  | type t ih =>
    rw [sameNames_iff]
    constructor
    · rintro ⟨hname, hargs⟩
      refine ⟨sameSegment_iff.mp hname, ?_⟩
      exact ((List.forall₂_and_left _ _).mpr ⟨ih, hargs⟩).imp fun _ _ ⟨ih, hab⟩ => ih.mp hab
    · rintro ⟨hname, hargs⟩
      refine ⟨sameSegment_iff.mpr hname, ?_⟩
      exact ((List.forall₂_and_left _ _).mpr ⟨ih, hargs⟩).imp fun _ _ ⟨ih, hab⟩ => ih.mpr hab

@[simp] theorem fullName_mapArgs (f : Ty → Ty) (t : Ty) : (t.mapArgs f).fullName = t.fullName := by
  cases t <;> rfl

end Ty

/-! ## Matching types -/

namespace Substitution

variable {s : Substitution}

/-- Matching types stay so when their arguments are mapped to matching ones. -/
theorem sameType_mapArgs {f : Ty → Ty} {t u : Ty} (h : s.sameType t u = true)
    (hargs : ∀ a ∈ t.args, ∀ b, s.sameType a b = true → s.sameType (f a) (f b) = true) :
    s.sameType (t.mapArgs f) (u.mapArgs f) = true := by
  have hmapped : List.Forall₂ (fun a b => s.sameType a b = true) (t.mapArgs f).args
      (u.mapArgs f).args := by
    rw [Ty.args_mapArgs, Ty.args_mapArgs, List.forall₂_map_left_iff, List.forall₂_map_right_iff]
    exact ((List.forall₂_and_left _ _).mpr ⟨hargs, forall₂_args_of_sameType h⟩).imp
      fun _ _ ⟨hf, hab⟩ => hf _ hab
  unfold sameType at h hmapped ⊢
  -- By name the heads are untouched and the arguments match; exact matching is equality.
  cases hmode : s.mode with
  | byName =>
    rw [hmode] at h hmapped
    refine Ty.sameNames_iff.mpr ⟨?_, hmapped⟩
    rw [Ty.name, Ty.name, Ty.fullName_mapArgs, Ty.fullName_mapArgs]
    exact (Ty.sameNames_iff.mp h).1
  | exact =>
    rw [hmode] at h
    rw [of_decide_eq_true h]
    exact decide_eq_true rfl

/-- Matching types are resolved to matching types. -/
theorem sameType_resolve {t u : Ty} (h : s.sameType t u = true) :
    s.sameType (s.resolve t) (s.resolve u) = true := by
  induction t using Ty.argsInduction generalizing u with
  | type t ih =>
    -- The table matches both types or neither.
    rw [resolve_eq, resolve_eq s u, ← lookup_congr h]
    cases s.lookup t with
    | some target => exact sameType_refl s target
    | none => exact sameType_mapArgs h fun a ha b hab => ih a ha hab

/-- Resolving respects matching. A table has the same replacement, or none, for matching types, and
    these are resolved to matching types. So when types are matched by name, those that nothing but
    namespaces tells apart are resolved to such types again, and to one type where the table matches
    them. -/
theorem resolve_respects_matching (s : Substitution) (a b : Ty) :
    (s.sameType a b = true →
      s.lookup a = s.lookup b ∧ s.sameType (s.resolve a) (s.resolve b) = true) ∧
    (s.mode = .byName → a.EqualUpToNamespaces b →
      (s.resolve a).EqualUpToNamespaces (s.resolve b) ∧
        ∀ target, s.lookup a = some target → s.resolve a = target ∧ s.resolve b = target) := by
  refine ⟨fun h => ⟨lookup_congr h, sameType_resolve h⟩, fun hmode h => ?_⟩
  have hnames : ∀ t u, s.sameType t u = t.sameNames u := by
    intro t u
    rw [sameType, hmode]
  have hsame : s.sameType a b = true := by
    rw [hnames]
    exact Ty.equalUpToNamespaces_iff.mp h
  constructor
  · rw [Ty.equalUpToNamespaces_iff, ← hnames]
    exact sameType_resolve hsame
  · intro target htarget
    constructor
    · rw [resolve_eq, htarget, Option.getD_some]
    · rw [resolve_eq, ← lookup_congr hsame, htarget, Option.getD_some]

end Substitution

namespace Sample

/-- Moves an optional item of one generation to an item of the other. -/
def unwrapping : Substitution :=
  Substitution.add {} (Ty.nullable (.named "Models.Item")) (.named "Dto.Item")

/-- An optional item is replaced in whatever namespace it is, also inside another type, where the
    group stays as it was written. -/
theorem pairing_respects_matching :
    let item := Ty.nullable (.named "Models.Item")
    let item' := Ty.nullable (.named "Old.Item")
    let pairing := Ty.func [item] (.named "Models.Group")
    let pairing' := Ty.func [item'] (.param "Group")
    unwrapping.mode = .byName ∧
    (item.EqualUpToNamespaces item' ∧ unwrapping.lookup item = some (.named "Dto.Item") ∧
      unwrapping.resolve item = .named "Dto.Item" ∧
      unwrapping.resolve item' = .named "Dto.Item") ∧
    unwrapping.sameType pairing pairing' = true ∧ pairing.EqualUpToNamespaces pairing' ∧
      unwrapping.lookup pairing = unwrapping.lookup pairing' ∧
      unwrapping.sameType (unwrapping.resolve pairing) (unwrapping.resolve pairing') = true ∧
      (unwrapping.resolve pairing).EqualUpToNamespaces (unwrapping.resolve pairing') := by
  intro item item' pairing pairing'
  have hitem : item.EqualUpToNamespaces item' := Ty.equalUpToNamespaces_iff.mpr (by decide)
  have hlookup : unwrapping.lookup item = some (.named "Dto.Item") := by decide
  have hsame : unwrapping.sameType pairing pairing' = true := by decide
  have hpairing : pairing.EqualUpToNamespaces pairing' := Ty.equalUpToNamespaces_iff.mpr hsame
  obtain ⟨hmatching, hnames⟩ := unwrapping.resolve_respects_matching pairing pairing'
  exact ⟨rfl,
    ⟨hitem, hlookup,
      ((unwrapping.resolve_respects_matching item item').2 rfl hitem).2 _ hlookup⟩,
    hsame, hpairing, (hmatching hsame).1, (hmatching hsame).2, (hnames rfl hpairing).1⟩

end Sample

/-! ## Instantiation -/

namespace Ty

variable {bs : Bindings} {n : String}

/-- The parameters that are bound. One that has no argument is none of them. -/
def Bindings.names (bs : Bindings) : List String := bs.map (·.1)

/-- The bindings over mapped types. -/
def Bindings.mapTypes (bs : Bindings) (f : Ty → Ty) : Bindings := bs.map fun b => (b.1, f b.2)

/-- Mapping types keeps the parameters that are bound. -/
@[simp] theorem Bindings.names_mapTypes (bs : Bindings) (f : Ty → Ty) :
    (bs.mapTypes f).names = bs.names := by
  simp [names, mapTypes]

/-- To bind parameters to mapped arguments is to map the bindings. -/
theorem Bindings.zip_map (params : List String) (args : List Ty) (f : Ty → Ty) :
    params.zip (args.map f) = mapTypes (params.zip args) f := by
  rw [List.zip_map_right]
  rfl

/-- Of several bindings of a name, the same one counts before and after. -/
theorem Bindings.get?_mapTypes (bs : Bindings) (f : Ty → Ty) (n : String) :
    (bs.mapTypes f).get? n = (bs.get? n).map f := by
  induction bs with
  | nil => rfl
  | cons b bs ih =>
    have hcons : mapTypes (b :: bs) f = (b.1, f b.2) :: mapTypes bs f := rfl
    rw [hcons, get?, ih, get?]
    -- The last binding of a name counts, so the tail is asked first.
    cases get? bs n with
    | some u => rfl
    | none => by_cases hb : b.1 = n <;> simp [hb]

/-- Only a bound parameter has a type. -/
theorem Bindings.get?_eq_none_iff : bs.get? n = none ↔ n ∉ bs.names := by
  induction bs with
  | nil => simp [get?, names]
  | cons b bs ih =>
    have hnames : n ∈ names (b :: bs) ↔ b.1 = n ∨ n ∈ names bs := by simp [names, eq_comm]
    rw [get?, hnames, not_or, ← ih]
    cases get? bs n with
    | some u => simp
    | none => simp

/-- A bound parameter is replaced as a whole; in any other type only the arguments are changed. -/
theorem substitute_eq_mapArgs {t : Ty} (h : ∀ n ∈ bs.names, t ≠ .param n) :
    t.substitute bs = t.mapArgs (substitute bs) := by
  cases t with
  | named n => rfl
  | generic d as => rw [substitute, substituteAll_eq_map, mapArgs]
  | param n =>
    -- A parameter that is not bound stays, and it has no arguments.
    have hn : bs.get? n = none := Bindings.get?_eq_none_iff.mpr fun hn => h n hn rfl
    rw [substitute, hn, Option.getD_none, mapArgs_of_args_eq_nil rfl]

end Ty

namespace Substitution

variable {s : Substitution}

/-- Whether a table matches no part of a type, bound parameters apart, when it is instantiated. -/
def AvoidsOver (s : Substitution) (bs : Ty.Bindings) (t : Ty) : Prop :=
  ∀ u ∈ t.subterms, (∀ n ∈ bs.names, u ≠ .param n) → s.lookup (u.substitute bs) = none

/-- To resolve a type that was instantiated is to instantiate it over resolved types. -/
theorem resolve_substitute {bs : Ty.Bindings} {t : Ty} (h : s.AvoidsOver bs t) :
    s.resolve (t.substitute bs) = t.substitute (bs.mapTypes s.resolve) := by
  induction t using Ty.argsInduction with
  | type t ih =>
    -- At a bound parameter both sides give its argument, resolved. Any other part is not matched,
    -- so both sides go on with its arguments.
    by_cases hbound : ∃ n ∈ bs.names, t = .param n
    · obtain ⟨n, hn, rfl⟩ := hbound
      have hsome : bs.get? n ≠ none := fun hnone => Ty.Bindings.get?_eq_none_iff.mp hnone hn
      obtain ⟨a, ha⟩ := Option.ne_none_iff_exists'.mp hsome
      rw [Ty.substitute, Ty.substitute, Ty.Bindings.get?_mapTypes, ha, Option.map_some,
        Option.getD_some, Option.getD_some]
    · have hfree : ∀ n ∈ bs.names, t ≠ .param n := fun n hn ht => hbound ⟨n, hn, ht⟩
      have hnone : s.lookup (t.substitute bs) = none :=
        h t (Ty.mem_subterms.mpr (.inl rfl)) hfree
      have hfree' : ∀ n ∈ (bs.mapTypes s.resolve).names, t ≠ .param n := by
        rwa [Ty.Bindings.names_mapTypes]
      have hargs : ∀ a ∈ t.args, s.AvoidsOver bs a :=
        fun a ha u hu => h u (Ty.mem_subterms.mpr (.inr ⟨a, ha, hu⟩))
      rw [resolve_eq, hnone, Option.getD_none, Ty.substitute_eq_mapArgs hfree, Ty.mapArgs_mapArgs,
        Ty.substitute_eq_mapArgs hfree']
      exact Ty.mapArgs_congr fun a ha => ih a ha (hargs a ha)

/-- The bindings of a method over resolved arguments. -/
theorem bindings_rebind (s : Substitution) (m : MethodRef) :
    (s.rebind m).bindings = m.bindings.mapTypes s.resolve :=
  Ty.Bindings.zip_map ..

/-- A type that is not matched as a whole keeps its class. -/
theorem fullName_resolve {t : Ty} (h : s.lookup t = none) :
    (s.resolve t).fullName = t.fullName := by
  rw [resolve_eq, h, Option.getD_none, Ty.fullName_mapArgs]

/-- The arguments of a type that is not matched as a whole are resolved one by one. -/
theorem args_resolve {t : Ty} (h : s.lookup t = none) :
    (s.resolve t).args = t.args.map s.resolve := by
  rw [resolve_eq, h, Option.getD_none, Ty.args_mapArgs]

/-- A declaration as seen from a resolved type is what it is seen as from the type, resolved. -/
theorem instantiate_resolve {c : ClassDecl} {t : Ty} {kind : MemberKind} {d : MemberDecl}
    (ht : s.lookup t = none) (hd : s.AvoidsOver (c.typeParams.zip t.args) d.ty) :
    Catalog.instantiate c (s.resolve t) kind d =
      { Catalog.instantiate c t kind d with
        declaringType := s.resolve t
        ty := s.resolve (Catalog.instantiate c t kind d).ty } := by
  -- The bindings of the class are those of the type, with their types resolved.
  simp only [Catalog.instantiate, args_resolve ht, Ty.Bindings.zip_map, resolve_substitute hd]

end Substitution

/-- A generic method has a binding for each of its type parameters once it is closed. -/
theorem MethodRef.names_bindings {m : MethodRef} (h : m.isGeneric = true)
    (hclosed : m.isOpen = false) : m.bindings.names = m.definition.typeParams := by
  have hargs : m.typeArgs ≠ [] := by simpa [isOpen, h] using hclosed
  have hlen := m.arity.resolve_left hargs
  exact List.map_fst_zip hlen.ge

/-- Closing anew commutes with resolving. A closed generic method whose signature has no part that
    the table matches, parameters apart, can be closed over its resolved arguments, and its
    parameter types and its return type are then the resolved ones. In the same way a declaration of
    a class is found on a resolved type of the class, with the resolved type and nothing else
    changed. -/
theorem Substitution.reclosing_commutes (s : Substitution) :
    (∀ m : MethodRef, m.isGeneric = true → m.isOpen = false →
      (∀ t ∈ m.definition.returnType :: m.definition.params, ∀ u ∈ t.subterms,
        (∀ n ∈ m.definition.typeParams, u ≠ .param n) → s.lookup (u.substitute m.bindings) = none) →
      s.reclose m = .ok (s.rebind m) ∧ (s.rebind m).definition = m.definition ∧
        (s.rebind m).parameterTypes = m.parameterTypes.map s.resolve ∧
        (s.rebind m).returnType = s.resolve m.returnType) ∧
    ∀ (cat : Catalog) (kind : MemberKind) (t : Ty) (name : String) (c : ClassDecl) (d : MemberDecl),
      cat.class? t.fullName = some c → (c.ofKind kind).find? (·.name = name) = some d →
      s.lookup t = none → s.AvoidsOver (c.typeParams.zip t.args) d.ty →
      ∃ m, cat.member? kind t name = some m ∧
        cat.member? kind (s.resolve t) name =
          some { m with declaringType := s.resolve t, ty := s.resolve m.ty } := by
  constructor
  · intro m hgeneric hclosed havoids
    have hover : ∀ t ∈ m.definition.returnType :: m.definition.params,
        s.AvoidsOver m.bindings t := by
      intro t ht u hu hfree
      rw [MethodRef.names_bindings hgeneric hclosed] at hfree
      exact havoids t ht u hu hfree
    refine ⟨s.reclose_eq_ok m, rfl, ?_, ?_⟩
    · rw [MethodRef.parameterTypes, bindings_rebind, MethodRef.parameterTypes, List.map_map]
      exact List.map_congr_left fun t ht =>
        (resolve_substitute (hover t (List.mem_cons_of_mem _ ht))).symm
    · rw [MethodRef.returnType, bindings_rebind]
      exact (resolve_substitute (hover _ List.mem_cons_self)).symm
  · intro cat kind t name c d hc hd ht havoids
    refine ⟨_, Catalog.member?_eq_some.mpr ⟨c, d, hc, hd, rfl⟩, ?_⟩
    -- The class of the resolved type is found under the name that is kept.
    rw [← instantiate_resolve ht havoids]
    exact Catalog.member?_eq_some.mpr ⟨c, d, by rwa [fullName_resolve ht], hd, rfl⟩

namespace Sample

/-- The operator `Select` can be closed over the other items, and the value of an optional item is
    then an item of the other class. -/
theorem select_reclosed :
    ((select itemFrom).isGeneric = true ∧ (select itemFrom).isOpen = false ∧
      (∀ t ∈ (select itemFrom).definition.returnType :: (select itemFrom).definition.params,
        ∀ u ∈ t.subterms, (∀ n ∈ (select itemFrom).definition.typeParams, u ≠ .param n) →
          items.lookup (u.substitute (select itemFrom).bindings) = none) ∧
      items.reclose (select itemFrom) = .ok (items.rebind (select itemFrom)) ∧
        (items.rebind (select itemFrom)).definition = (select itemFrom).definition ∧
        (items.rebind (select itemFrom)).parameterTypes =
          (select itemFrom).parameterTypes.map items.resolve ∧
        (items.rebind (select itemFrom)).returnType =
          items.resolve (select itemFrom).returnType) ∧
    catalog.class? "Nullable" = some Catalog.nullableClass.promote ∧
      Catalog.nullableClass.promote.properties.find? (·.name = "Value") =
        some ⟨"Value", .param "T", false⟩ ∧
      items.lookup (Ty.nullable itemFrom) = none ∧
      items.AvoidsOver [("T", itemFrom)] (.param "T") ∧
      ∃ m, catalog.member? .property (Ty.nullable itemFrom) "Value" = some m ∧
        catalog.member? .property (Ty.nullable itemTo) "Value" =
          some { m with declaringType := Ty.nullable itemTo, ty := items.resolve m.ty } := by
  obtain ⟨hmethod, hmember⟩ := items.reclosing_commutes
  have havoids : items.AvoidsOver [("T", itemFrom)] (.param "T") := by
    intro u hu hfree
    obtain rfl : u = .param "T" := by simpa [Ty.subterms] using hu
    exact absurd rfl (hfree "T" (by simp [Ty.Bindings.names]))
  refine ⟨⟨rfl, rfl, by decide, hmethod (select itemFrom) rfl rfl (by decide)⟩, by rfl, by rfl,
    by rfl, havoids, ?_⟩
  exact hmember catalog .property (Ty.nullable itemFrom) "Value" Catalog.nullableClass.promote
    ⟨"Value", .param "T", false⟩ (by rfl) (by rfl) (by rfl) havoids

end Sample

end Retarget
