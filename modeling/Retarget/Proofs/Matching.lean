import Mathlib.Data.List.Forall2
import Retarget.Pass.Resolve
import Retarget.Proofs.Resolution

/-!
# Matching and resolving

Matching is an equivalence of types in either mode, so that a table cannot tell matching types
apart. From this follows what resolving does to a type as a whole: it removes everything that the
table matches, it is idempotent when the replacements are settled, and resolving under two tables
in turn is resolving under the joined table. A member is resolved along with its declaring type,
and the same laws hold of it.

## Key results

- `Ty.argsInduction`: induction over a type, from all its arguments to the whole
- `Substitution.sameType_trans`, `Substitution.lookup_congr`: matching types are replaced alike
- `Substitution.Avoids`: the types in which a table matches nothing
- `Substitution.PlainKeys.avoids_resolve`: nothing that is matched is left
- `Substitution.PlainKeys.resolve_resolve`: resolving twice is resolving once
- `Substitution.resolve_followedBy`: resolving in two stages
- `Substitution.Sequential.resolveMember`: members resolved in two stages
-/

namespace Retarget

namespace Ty

/-! ## Parts of types -/

/-- Arguments are smaller than the type. -/
theorem sizeOf_lt_of_mem_args {a t : Ty} (h : a ∈ t.args) : sizeOf a < sizeOf t := by
  cases t with
  | generic d as =>
    have hlt := List.sizeOf_lt_of_mem h
    simp only [args] at hlt
    simp only [generic.sizeOf_spec]
    omega
  | named n => cases h
  | param n => cases h

/-- What passes from all arguments of a type to the type holds of every type. -/
theorem argsInduction {motive : Ty → Prop}
    (type : ∀ t, (∀ a ∈ t.args, motive a) → motive t) (t : Ty) : motive t :=
  type t fun a ha =>
    have := sizeOf_lt_of_mem_args ha
    argsInduction type a
termination_by sizeOf t

mutual

/-- A type and all types inside it. -/
def subterms : Ty → List Ty
  | .named n => [.named n]
  | .generic d as => .generic d as :: subtermsList as
  | .param n => [.param n]

/-- All types of a list and all types inside them. -/
def subtermsList : List Ty → List Ty
  | [] => []
  | t :: ts => subterms t ++ subtermsList ts

end

/-- The types inside a list are those inside its members. -/
theorem mem_subtermsList {u : Ty} {ts : List Ty} :
    u ∈ subtermsList ts ↔ ∃ t ∈ ts, u ∈ t.subterms := by
  induction ts with
  | nil => simp [subtermsList]
  | cons t ts ih => simp [subtermsList, ih]

/-- Inside a type there are itself and what is inside its arguments. -/
theorem mem_subterms {u t : Ty} : u ∈ t.subterms ↔ u = t ∨ ∃ a ∈ t.args, u ∈ a.subterms := by
  cases t with
  | named n => simp [subterms, args]
  | generic d as => simp [subterms, args, mem_subtermsList]
  | param n => simp [subterms, args]

/-- A type with its arguments mapped. -/
def mapArgs (f : Ty → Ty) : Ty → Ty
  | .generic d as => .generic d (as.map f)
  | t => t

@[simp] theorem args_mapArgs (f : Ty → Ty) (t : Ty) : (t.mapArgs f).args = t.args.map f := by
  cases t <;> rfl

/-- Without arguments there is nothing to map. -/
theorem mapArgs_of_args_eq_nil {f : Ty → Ty} {t : Ty} (h : t.args = []) : t.mapArgs f = t := by
  cases t with
  | generic d as =>
    obtain rfl : as = [] := h
    rfl
  | _ => rfl

/-- Only what is done to the arguments counts. -/
theorem mapArgs_congr {f g : Ty → Ty} {t : Ty} (h : ∀ a ∈ t.args, f a = g a) :
    t.mapArgs f = t.mapArgs g := by
  cases t with
  | generic d as => exact congrArg (generic d) (List.map_congr_left h)
  | _ => rfl

/-- A type stays if its arguments do. -/
theorem mapArgs_eq_self {f : Ty → Ty} {t : Ty} (h : ∀ a ∈ t.args, f a = a) : t.mapArgs f = t := by
  rw [mapArgs_congr (g := fun a => a) h]
  cases t <;> simp [mapArgs]

/-- Mapping twice is mapping by both in turn. -/
theorem mapArgs_mapArgs (f g : Ty → Ty) (t : Ty) :
    (t.mapArgs f).mapArgs g = t.mapArgs fun a => g (f a) := by
  cases t <;> simp [mapArgs]

/-! ## Equality of names -/

/-- Lists have the same names if they have them place by place. -/
theorem sameNamesList_iff {ts us : List Ty} :
    sameNamesList ts us = true ↔ List.Forall₂ (fun t u => t.sameNames u = true) ts us := by
  induction ts generalizing us with
  | nil => cases us <;> simp [sameNamesList]
  | cons t ts ih => cases us <;> simp [sameNamesList, ih]

/-- Two types have the same names throughout exactly if they have the same name and arguments that
    have. -/
theorem sameNames_iff {t u : Ty} :
    t.sameNames u = true ↔
      t.name = u.name ∧ List.Forall₂ (fun a b => a.sameNames b = true) t.args u.args := by
  cases t with
  | generic d as =>
    rw [sameNames, Bool.and_eq_true, decide_eq_true_eq, sameNamesList_iff]
    rfl
  | named n | param n =>
    rw [sameNames, Bool.and_eq_true, decide_eq_true_eq, List.isEmpty_iff]
    show _ ↔ simpleName n = u.name ∧ List.Forall₂ _ [] u.args
    rw [List.forall₂_nil_left_iff]

/-- A type has its own names. -/
theorem sameNames_refl (t : Ty) : t.sameNames t = true := by
  induction t using argsInduction with
  | type t ih => exact sameNames_iff.mpr ⟨rfl, List.forall₂_same.mpr ih⟩

/-- Having the same names goes both ways. -/
theorem sameNames_symm {t u : Ty} (h : t.sameNames u = true) : u.sameNames t = true := by
  induction t using argsInduction generalizing u with
  | type t ih =>
    obtain ⟨hname, hargs⟩ := sameNames_iff.mp h
    refine sameNames_iff.mpr ⟨hname.symm, ?_⟩
    -- The induction hypothesis turns each pair of arguments around.
    generalize t.args = as, u.args = bs at ih hargs
    induction hargs with
    | nil => exact .nil
    | cons hab _ ihs =>
      exact .cons (ih _ List.mem_cons_self hab)
        (ihs fun x hx => ih x (List.mem_cons_of_mem _ hx))

/-- Having the same names is passed on. -/
theorem sameNames_trans {t u v : Ty} (htu : t.sameNames u = true) (huv : u.sameNames v = true) :
    t.sameNames v = true := by
  induction t using argsInduction generalizing u v with
  | type t ih =>
    obtain ⟨htu, hargs⟩ := sameNames_iff.mp htu
    obtain ⟨huv, hargs'⟩ := sameNames_iff.mp huv
    refine sameNames_iff.mpr ⟨htu.trans huv, ?_⟩
    -- The two lists of pairs share their middle, along which they are joined.
    generalize t.args = as, u.args = bs, v.args = cs at ih hargs hargs'
    induction hargs generalizing cs with
    | nil =>
      cases hargs'
      exact .nil
    | cons hab _ ihs =>
      cases hargs' with
      | cons hbc hrest =>
        exact .cons (ih _ List.mem_cons_self hab hbc)
          (ihs _ (fun x hx => ih x (List.mem_cons_of_mem _ hx)) hrest)

end Ty

namespace Substitution

variable {s : Substitution}

/-! ## Matching -/

/-- A type matches itself. -/
theorem sameType_refl (s : Substitution) (t : Ty) : s.sameType t t = true := by
  unfold sameType
  cases s.mode with
  | byName => exact t.sameNames_refl
  | exact => exact decide_eq_true rfl

/-- Matching goes both ways. -/
theorem sameType_symm {t u : Ty} (h : s.sameType t u = true) : s.sameType u t = true := by
  unfold sameType at h ⊢
  cases hmode : s.mode with
  | byName =>
    rw [hmode] at h
    exact Ty.sameNames_symm h
  | exact =>
    rw [hmode] at h
    exact decide_eq_true (of_decide_eq_true h).symm

/-- Matching is passed on, so that it is an equivalence in either mode. -/
theorem sameType_trans {t u v : Ty} (htu : s.sameType t u = true) (huv : s.sameType u v = true) :
    s.sameType t v = true := by
  unfold sameType at htu huv ⊢
  cases hmode : s.mode with
  | byName =>
    rw [hmode] at htu huv
    exact Ty.sameNames_trans htu huv
  | exact =>
    rw [hmode] at htu huv
    exact decide_eq_true ((of_decide_eq_true htu).trans (of_decide_eq_true huv))

/-- Arguments of matching types match place by place. -/
theorem forall₂_args_of_sameType {t u : Ty} (h : s.sameType t u = true) :
    List.Forall₂ (fun a b => s.sameType a b = true) t.args u.args := by
  unfold sameType at h ⊢
  cases hmode : s.mode with
  | byName =>
    rw [hmode] at h
    exact (Ty.sameNames_iff.mp h).2
  | exact =>
    rw [hmode] at h
    rw [of_decide_eq_true h]
    exact List.forall₂_same.mpr fun a _ => decide_eq_true rfl

/-- A type matches itself with its arguments mapped only if each argument matches its image. -/
theorem sameType_of_mapArgs {f : Ty → Ty} {t : Ty} (h : s.sameType (t.mapArgs f) t = true) :
    ∀ a ∈ t.args, s.sameType (f a) a = true := by
  have hargs := forall₂_args_of_sameType h
  rwa [Ty.args_mapArgs, List.forall₂_map_left_iff, List.forall₂_same] at hargs

/-- A table cannot tell matching types apart. -/
theorem lookup_congr {t u : Ty} (h : s.sameType t u = true) : s.lookup t = s.lookup u := by
  -- A source matches the one exactly if it matches the other, so that the search is the same.
  have hkeys : (fun pair : Ty × Ty => s.sameType pair.1 t) = fun pair => s.sameType pair.1 u := by
    funext pair
    rw [Bool.eq_iff_iff]
    exact ⟨fun ht => sameType_trans ht h, fun hu => sameType_trans hu (sameType_symm h)⟩
  exact congrArg (fun p => (s.pairs.find? p).map (·.2)) hkeys

/-- A replacement comes from a pair whose source matches. -/
theorem exists_pair_of_lookup {t target : Ty} (h : s.lookup t = some target) :
    ∃ pair ∈ s.pairs, s.sameType pair.1 t = true ∧ pair.2 = target := by
  obtain ⟨pair, hfind, rfl⟩ := Option.map_eq_some_iff.mp h
  exact ⟨pair, List.mem_of_find?_eq_some hfind, by simpa using List.find?_some hfind, rfl⟩

/-! ## Resolving -/

/-- Resolving replaces a type that is matched, and resolves the arguments of any other. -/
theorem resolve_eq (s : Substitution) (t : Ty) :
    s.resolve t = (s.lookup t).getD (t.mapArgs s.resolve) := by
  cases t with
  | generic d as =>
    cases h : s.lookup (.generic d as) with
    | none => rw [resolve_of_lookup_eq_none h, Option.getD_none, Ty.mapArgs]
    | some target => rw [resolve, h, Option.getD_some]
  | named n | param n => rfl

/-- Whether a table matches neither a type nor anything inside it. -/
def Avoids (s : Substitution) (t : Ty) : Prop := ∀ u ∈ t.subterms, s.lookup u = none

instance (s : Substitution) (t : Ty) : Decidable (s.Avoids t) :=
  inferInstanceAs (Decidable (∀ u ∈ t.subterms, s.lookup u = none))

/-- A table avoids a type exactly if it does not match it and avoids its arguments. -/
theorem avoids_iff {t : Ty} : s.Avoids t ↔ s.lookup t = none ∧ ∀ a ∈ t.args, s.Avoids a := by
  constructor
  · intro h
    refine ⟨h t (Ty.mem_subterms.mpr (.inl rfl)), fun a ha u hu => ?_⟩
    exact h u (Ty.mem_subterms.mpr (.inr ⟨a, ha, hu⟩))
  · intro h u hu
    obtain ⟨hself, hargs⟩ := h
    rcases Ty.mem_subterms.mp hu with rfl | ⟨a, ha, hu⟩
    · exact hself
    · exact hargs a ha u hu

/-- What the table does not match stays as it is. -/
theorem resolve_of_avoids {t : Ty} (h : s.Avoids t) : s.resolve t = t := by
  -- By induction over arguments, none of which is matched either.
  induction t using Ty.argsInduction with
  | type t ih =>
    obtain ⟨hself, hargs⟩ := avoids_iff.mp h
    rw [resolve_eq, hself, Option.getD_none]
    exact Ty.mapArgs_eq_self fun a ha => ih a ha (hargs a ha)

/-- Of two matching types, the table avoids both or neither. -/
theorem avoids_of_sameType {t u : Ty} (h : s.sameType t u = true) (ht : s.Avoids t) :
    s.Avoids u := by
  induction t using Ty.argsInduction generalizing u with
  | type t ih =>
    obtain ⟨hself, havoids⟩ := avoids_iff.mp ht
    refine avoids_iff.mpr ⟨lookup_congr h ▸ hself, ?_⟩
    have hargs := forall₂_args_of_sameType h
    intro b hb
    -- An argument of `u` matches the argument of `t` in its place.
    obtain ⟨i, hi, rfl⟩ := List.mem_iff_getElem.mp hb
    have hi' : i < t.args.length := hargs.length_eq ▸ hi
    exact ih _ (List.getElem_mem hi') (hargs.get hi' hi) (havoids _ (List.getElem_mem hi'))

namespace PlainKeys

/-- Whether a type is matched does not depend on the arguments it may have. -/
theorem lookup_mapArgs (hs : s.PlainKeys) (f : Ty → Ty) (t : Ty) :
    s.lookup (t.mapArgs f) = s.lookup t := by
  by_cases h : t.args = []
  · rw [Ty.mapArgs_of_args_eq_nil h]
  · -- A source without arguments matches only types without arguments.
    have hnone : ∀ u : Ty, u.args ≠ [] → s.lookup u = none := fun u hu =>
      lookup_eq_none fun pair hpair => sameType_of_args (hs pair hpair) hu
    rw [hnone t h, hnone _ (by simpa using h)]

/-- When nothing inside the replacements is matched, nothing inside a resolved type is. -/
theorem avoids_resolve (hs : s.PlainKeys) (htargets : ∀ pair ∈ s.pairs, s.Avoids pair.2) (t : Ty) :
    s.Avoids (s.resolve t) := by
  -- A type that is matched becomes a replacement; any other keeps its head, and its arguments are
  -- avoided by induction.
  induction t using Ty.argsInduction with
  | type t ih =>
    rw [resolve_eq]
    cases h : s.lookup t with
    | some target =>
      obtain ⟨pair, hpair, -, rfl⟩ := exists_pair_of_lookup h
      exact htargets pair hpair
    | none =>
      refine avoids_iff.mpr ⟨(hs.lookup_mapArgs _ t).trans h, ?_⟩
      intro b hb
      rw [Option.getD_none, Ty.args_mapArgs] at hb
      obtain ⟨a, ha, rfl⟩ := List.mem_map.mp hb
      exact ih a ha

/-- When the replacements are settled, every resolved type is. -/
theorem resolve_resolve (hs : s.PlainKeys) (htargets : ∀ pair ∈ s.pairs, s.resolve pair.2 = pair.2)
    (t : Ty) : s.resolve (s.resolve t) = s.resolve t := by
  induction t using Ty.argsInduction with
  | type t ih =>
    cases h : s.lookup t with
    | some target =>
      obtain ⟨pair, hpair, -, rfl⟩ := exists_pair_of_lookup h
      rw [resolve_eq s t, h, Option.getD_some, htargets pair hpair]
    | none =>
      -- The head is as little matched after as before, so that both sides go on with the arguments.
      rw [resolve_eq s t, h, Option.getD_none, resolve_eq, hs.lookup_mapArgs, h, Option.getD_none,
        Ty.mapArgs_mapArgs]
      exact Ty.mapArgs_congr ih

end PlainKeys

/-! ## Two tables in turn -/

/-- The substitution whose table goes on with that of another, to which it gives way nowhere. -/
def followedBy (s t : Substitution) : Substitution := { s with pairs := s.pairs ++ t.pairs }

section FollowedBy

variable {t : Substitution} (hmode : t.mode = s.mode)

include hmode

/-- Matching depends on the mode alone. -/
theorem sameType_of_mode (a b : Ty) : t.sameType a b = s.sameType a b := by
  rw [sameType, sameType, hmode]

/-- The joined table is asked in order, the first part before the second. -/
theorem lookup_followedBy (x : Ty) : (s.followedBy t).lookup x = (s.lookup x).or (t.lookup x) := by
  have hs : (s.followedBy t).sameType = s.sameType := rfl
  have ht : t.sameType = s.sameType := by
    funext a b
    exact sameType_of_mode hmode a b
  unfold lookup
  rw [hs, ht, followedBy, List.find?_append]
  generalize List.find? _ s.pairs = found
  cases found <;> rfl

/-- When the second table leaves the replacements of the first alone, resolving under both in turn
    is resolving under the joined table. -/
theorem resolve_followedBy (hplain : t.PlainKeys)
    (htargets : ∀ pair ∈ s.pairs, t.resolve pair.2 = pair.2) (x : Ty) :
    (s.followedBy t).resolve x = t.resolve (s.resolve x) := by
  induction x using Ty.argsInduction with
  | type x ih =>
    rw [resolve_eq, lookup_followedBy hmode, resolve_eq s x]
    cases hs : s.lookup x with
    | some target =>
      -- The first table replaces the type, and the second leaves the replacement alone.
      obtain ⟨pair, hpair, -, rfl⟩ := exists_pair_of_lookup hs
      exact (htargets pair hpair).symm
    | none =>
      -- The first table goes into the arguments and leaves the head to the second.
      rw [Option.none_or, Option.getD_none, resolve_eq t, hplain.lookup_mapArgs]
      cases ht : t.lookup x with
      | some target => rfl
      | none =>
        rw [Option.getD_none, Option.getD_none, Ty.mapArgs_mapArgs]
        exact Ty.mapArgs_congr ih

/-- What the joined table avoids, its first part avoids. -/
theorem avoids_of_followedBy {x : Ty} (h : (s.followedBy t).Avoids x) : s.Avoids x := by
  intro u hu
  have hnone := h u hu
  rw [lookup_followedBy hmode, Option.or_eq_none_iff] at hnone
  exact hnone.1

end FollowedBy

/-- When no replacement matches its source, a type that matches its resolved form has nothing in
    it that the table matches. -/
theorem avoids_of_sameType_resolve (hmoves : ∀ pair ∈ s.pairs, s.sameType pair.1 pair.2 = false)
    {t : Ty} (h : s.sameType (s.resolve t) t = true) : s.Avoids t := by
  induction t using Ty.argsInduction with
  | type t ih =>
    rw [resolve_eq] at h
    cases hlookup : s.lookup t with
    | some target =>
      -- The source matches `t`, and so would the replacement.
      obtain ⟨pair, hpair, hsource, rfl⟩ := exists_pair_of_lookup hlookup
      rw [hlookup, Option.getD_some] at h
      have hsame := sameType_trans hsource (sameType_symm h)
      rw [hmoves pair hpair] at hsame
      cases hsame
    | none =>
      rw [hlookup, Option.getD_none] at h
      exact avoids_iff.mpr ⟨hlookup, fun a ha => ih a ha (sameType_of_mapArgs h a ha)⟩

end Substitution

/-! ## Members -/

/-- A member is found exactly if its declaration is the first of its name, and it is that
    declaration as seen from the type. -/
theorem Catalog.member?_eq_some {cat : Catalog} {kind : MemberKind} {t : Ty} {name : String}
    {m : Member} :
    cat.member? kind t name = some m ↔ ∃ c d, cat.class? t.fullName = some c ∧
      (c.ofKind kind).find? (·.name = name) = some d ∧ m = instantiate c t kind d := by
  constructor
  · intro h
    obtain ⟨c, hc, hfind⟩ := Option.bind_eq_some_iff.mp h
    obtain ⟨d, hd, hm⟩ := Option.bind_eq_some_iff.mp hfind
    exact ⟨c, d, hc, hd, (Option.some.inj hm).symm⟩
  · rintro ⟨c, d, hc, hd, rfl⟩
    exact Option.bind_eq_some_iff.mpr ⟨c, hc, Option.bind_eq_some_iff.mpr ⟨d, hd, rfl⟩⟩

/-- A member that is found is declared by the type and has the name. -/
theorem Catalog.member?_spec {cat : Catalog} {kind : MemberKind} {t : Ty} {name : String}
    {m : Member} (h : cat.member? kind t name = some m) : m.declaringType = t ∧ m.name = name := by
  obtain ⟨c, d, -, hd, rfl⟩ := member?_eq_some.mp h
  have hname : d.name = name := by simpa using List.find?_some hd
  exact ⟨rfl, hname⟩

/-- The property of a name on a concrete type, or failing that the field. -/
def Catalog.named? (cat : Catalog) (t : Ty) (name : String) : Option Member :=
  (cat.property? t name).or (cat.field? t name)

/-- What is found on a type is declared by it and has the name that was asked for. -/
theorem Catalog.named?_spec {cat : Catalog} {t : Ty} {name : String} {m : Member}
    (h : cat.named? t name = some m) : m.declaringType = t ∧ m.name = name := by
  rcases Option.or_eq_some_iff.mp h with h | ⟨-, h⟩
  · exact member?_spec h
  · exact member?_spec h

namespace Substitution

variable {s : Substitution} {cat : Catalog} {m m' : Member}

/-- Without an override, a member stays where its declaring type matches its resolved form, and is
    looked up on the resolved form otherwise. -/
theorem resolveMember_eq_ok (hoverride : s.memberOverride = none) :
    s.resolveMember cat m = .ok m' ↔
      (s.sameType (s.resolve m.declaringType) m.declaringType = true ∧ m' = m) ∨
      (s.sameType (s.resolve m.declaringType) m.declaringType = false ∧
        cat.named? (s.resolve m.declaringType) m.name = some m') := by
  have hnone : s.override? m = none := by rw [override?, hoverride, Option.bind_none]
  simp only [resolveMember, hnone, Catalog.named?]
  -- Whether the resolved declaring type matches decides between keeping and looking up.
  cases s.sameType (s.resolve m.declaringType) m.declaringType with
  | true => simp [eq_comm]
  | false =>
    cases cat.property? (s.resolve m.declaringType) m.name with
    | some property => simp
    | none => cases cat.field? (s.resolve m.declaringType) m.name <;> simp

/-- A member of a type that stays is kept. -/
theorem resolveMember_of_resolve_eq (hoverride : s.memberOverride = none)
    (h : s.resolve m.declaringType = m.declaringType) : s.resolveMember cat m = .ok m := by
  refine (resolveMember_eq_ok hoverride).mpr (.inl ⟨?_, rfl⟩)
  rw [h]
  exact s.sameType_refl _

/-- When nothing inside the replacements is matched, nothing inside the declaring type of a
    resolved member is. -/
theorem PlainKeys.avoids_declaringType (hs : s.PlainKeys) (hoverride : s.memberOverride = none)
    (htargets : ∀ pair ∈ s.pairs, s.Avoids pair.2) (h : s.resolveMember cat m = .ok m') :
    s.Avoids m'.declaringType := by
  rcases (resolveMember_eq_ok hoverride).mp h with ⟨hsame, rfl⟩ | ⟨-, hfound⟩
  · -- A member that stays has a declaring type that matches a resolved one.
    exact avoids_of_sameType hsame (hs.avoids_resolve htargets _)
  · rw [(Catalog.named?_spec hfound).1]
    exact hs.avoids_resolve htargets _

/-- When the replacements are settled, a resolved member is. -/
theorem PlainKeys.resolveMember_resolved (hs : s.PlainKeys) (hoverride : s.memberOverride = none)
    (htargets : ∀ pair ∈ s.pairs, s.resolve pair.2 = pair.2)
    (h : s.resolveMember cat m = .ok m') : s.resolveMember cat m' = .ok m' := by
  rcases (resolveMember_eq_ok hoverride).mp h with ⟨-, rfl⟩ | ⟨-, hfound⟩
  · exact h
  · refine resolveMember_of_resolve_eq hoverride ?_
    rw [(Catalog.named?_spec hfound).1]
    exact hs.resolve_resolve htargets _

/-- Two substitutions that can be made one after the other: they match types in the same way, the
    second leaves the replacements of the first alone, neither replaces a type by one that matches
    it, and neither transforms constants or overrides members. -/
structure Sequential (s t : Substitution) : Prop where
  mode : t.mode = s.mode
  plain : t.PlainKeys
  settled : ∀ pair ∈ s.pairs, t.resolve pair.2 = pair.2
  moves : ∀ pair ∈ s.pairs, s.sameType pair.1 pair.2 = false
  moves' : ∀ pair ∈ t.pairs, t.sameType pair.1 pair.2 = false
  noTransform : s.constantTransform = none
  noTransform' : t.constantTransform = none
  noOverride : s.memberOverride = none
  noOverride' : t.memberOverride = none

namespace Sequential

variable {t : Substitution}

/-- Types are resolved in two stages as they are at once. -/
theorem resolve (h : s.Sequential t) (x : Ty) :
    (s.followedBy t).resolve x = t.resolve (s.resolve x) :=
  resolve_followedBy h.mode h.plain h.settled x

/-- The type arguments of methods are resolved in two stages as they are at once. -/
theorem rebind (h : s.Sequential t) (m : MethodRef) :
    (s.followedBy t).rebind m = t.rebind (s.rebind m) := by
  rw [Substitution.rebind, Substitution.rebind, Substitution.rebind,
    MethodRef.mapTypeArgs_mapTypeArgs]
  exact MethodRef.mapTypeArgs_congr fun x _ => h.resolve x

/-- No pair of the joined table replaces a type by one that matches it. -/
theorem moves_followedBy (h : s.Sequential t) :
    ∀ pair ∈ (s.followedBy t).pairs, (s.followedBy t).sameType pair.1 pair.2 = false := by
  intro pair hpair
  rcases List.mem_append.mp hpair with hpair | hpair
  · exact h.moves pair hpair
  · exact (sameType_of_mode h.mode _ _).symm.trans (h.moves' pair hpair)

/-- Members that are resolved under both tables in turn are those resolved under the joined table,
    although the joined table never sees the declaring type in between. -/
theorem resolveMember (h : s.Sequential t) {m m₁ m₂ : Member}
    (h₁ : s.resolveMember cat m = .ok m₁) (h₂ : t.resolveMember cat m₁ = .ok m₂) :
    (s.followedBy t).resolveMember cat m = .ok m₂ := by
  have hoverride : (s.followedBy t).memberOverride = none := h.noOverride
  have hsame : ∀ a b, t.sameType a b = s.sameType a b := sameType_of_mode h.mode
  rw [resolveMember_eq_ok hoverride, h.resolve]
  show (s.sameType _ _ = true ∧ _) ∨ (s.sameType _ _ = false ∧ _)
  rcases (resolveMember_eq_ok h.noOverride).mp h₁ with ⟨hkept, rfl⟩ | ⟨hmoved, hfound⟩
  · -- The first table has nothing to replace, so the second one sees what both see.
    rw [resolve_of_avoids (avoids_of_sameType_resolve h.moves hkept), ← hsame]
    exact (resolveMember_eq_ok h.noOverride').mp h₂
  · obtain ⟨hdeclaring, hname⟩ := Catalog.named?_spec hfound
    rcases (resolveMember_eq_ok h.noOverride').mp h₂ with ⟨hkept, rfl⟩ | ⟨hmoved', hfound'⟩
    · rw [hdeclaring] at hkept
      rw [resolve_of_avoids (avoids_of_sameType_resolve h.moves' hkept)]
      exact .inr ⟨hmoved, hfound⟩
    · rw [hdeclaring, hname] at hfound'
      refine .inr ⟨Bool.eq_false_iff.mpr fun hback => ?_, hfound'⟩
      -- A type that comes back to where it was is one in which nothing is replaced.
      have havoids : (s.followedBy t).Avoids m.declaringType := by
        refine avoids_of_sameType_resolve h.moves_followedBy ?_
        rwa [h.resolve]
      rw [resolve_of_avoids (avoids_of_followedBy h.mode havoids), s.sameType_refl] at hmoved
      cases hmoved

end Sequential

end Substitution

end Retarget
