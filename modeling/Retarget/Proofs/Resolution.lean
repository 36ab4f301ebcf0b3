import Retarget.Pass.Resolve
import Retarget.Proofs.Arena

/-!
# What a substitution does to types

When no source of a table has type arguments, a substitution reaches into the arguments of every
type that has some: delegate types stay delegate types, and a lambda as data stays one. When
further the types that the typing rules single out are left alone, resolving respects the implicit
conversions and the types of operators.

## Key results

- `Substitution.resolve_generic`: the arguments of a type are resolved one by one
- `Substitution.KeepsShape`: the tables that leave the types of the typing rules alone
- `Substitution.KeepsShape.assignableTo`: what converts to what still does
- `Substitution.KeepsShape.operatorType`: the type of an operator over resolved operands
- `Substitution.rebind_eq_self`: a method that is not generic stays as it is
-/

namespace Retarget

namespace Substitution

variable {s : Substitution}

/-- Whether no source of the table has type arguments. -/
def PlainKeys (s : Substitution) : Prop := ∀ pair ∈ s.pairs, pair.1.args = []

instance (s : Substitution) : Decidable s.PlainKeys :=
  inferInstanceAs (Decidable (∀ pair ∈ s.pairs, pair.1.args = []))

/-- Where no source matches, nothing is found. -/
theorem lookup_eq_none {t : Ty} (h : ∀ pair ∈ s.pairs, s.sameType pair.1 t = false) :
    s.lookup t = none := by
  simpa [lookup] using fun source target hmem => h (source, target) hmem

/-- A source without arguments matches no type that has some. -/
theorem sameType_of_args {source t : Ty} (hsource : source.args = []) (ht : t.args ≠ []) :
    s.sameType source t = false := by
  unfold sameType
  -- By name the number of arguments is compared as well; exactly matching types are equal.
  cases s.mode with
  | byName =>
    have hempty : t.args.isEmpty = false := by simpa using ht
    cases source with
    | named n => simp [Ty.sameNames, hempty]
    | param n => simp [Ty.sameNames, hempty]
    | generic d as =>
      obtain rfl : as = [] := hsource
      obtain ⟨x, xs, hxs⟩ := List.exists_cons_of_ne_nil ht
      simp [Ty.sameNames, Ty.sameNamesList, hxs]
  | exact =>
    have hne : source ≠ t := by
      rintro rfl
      exact ht hsource
    simp [hne]

/-- Where no source matches, the arguments of a type are resolved one by one. -/
theorem resolve_of_lookup_eq_none {d : String} {as : List Ty}
    (h : s.lookup (.generic d as) = none) :
    s.resolve (.generic d as) = .generic d (as.map s.resolve) := by
  rw [resolve, h, resolveAll_eq_map]

namespace PlainKeys

/-- A type with arguments is never replaced as a whole. -/
theorem resolve_generic (hs : s.PlainKeys) {d : String} {as : List Ty} (has : as ≠ []) :
    s.resolve (.generic d as) = .generic d (as.map s.resolve) :=
  resolve_of_lookup_eq_none (lookup_eq_none fun pair hpair => sameType_of_args (hs pair hpair) has)

/-- A delegate type stays one, over its resolved parameters and result. -/
theorem resolve_func (hs : s.PlainKeys) (params : List Ty) (ret : Ty) :
    s.resolve (Ty.func params ret) = Ty.func (params.map s.resolve) (s.resolve ret) := by
  rw [Ty.func, hs.resolve_generic (by simp)]
  simp [Ty.func]

/-- A lambda as data stays one, of the resolved delegate type. -/
theorem resolve_expression (hs : s.PlainKeys) (delegate : Ty) :
    s.resolve (Ty.expression delegate) = Ty.expression (s.resolve delegate) :=
  hs.resolve_generic (by simp)

end PlainKeys

/-- The types that the typing rules single out, besides those with arguments. -/
def ruleTypes : List Ty :=
  [Ty.object, Ty.bool, .generic "Query" [], .generic "Enumerable" []]

/-- The tables that keep the shape of types: no source has arguments, none matches a type that the
    typing rules single out, and nothing becomes a nullable type. -/
structure KeepsShape (s : Substitution) : Prop where
  plain : s.PlainKeys
  reserved : ∀ pair ∈ s.pairs, ∀ t ∈ ruleTypes, s.sameType pair.1 t = false
  targets : ∀ pair ∈ s.pairs, pair.2.isNullable = false

namespace KeepsShape

/-- The types that the typing rules single out stay as they are. -/
theorem resolve_of_mem_ruleTypes (hs : s.KeepsShape) {t : Ty} (ht : t ∈ ruleTypes) :
    s.resolve t = t := by
  have h : s.lookup t = none := lookup_eq_none fun pair hpair => hs.reserved pair hpair t ht
  cases t with
  | named n => rw [resolve, h, Option.getD_none]
  | param n => rw [resolve, h, Option.getD_none]
  | generic d as =>
    -- Of these types, those of generic form have no arguments.
    have has : as = [] := by
      simp [ruleTypes, Ty.object, Ty.bool] at ht
      exact ht.elim And.right And.right
    rw [resolve_of_lookup_eq_none h, has, List.map_nil]

/-- The type `object` stays, as one that the typing rules name. -/
theorem resolve_object (hs : s.KeepsShape) : s.resolve Ty.object = Ty.object :=
  hs.resolve_of_mem_ruleTypes (by simp [ruleTypes])

/-- The type of truth values stays, as one that the typing rules name. -/
theorem resolve_bool (hs : s.KeepsShape) : s.resolve Ty.bool = Ty.bool :=
  hs.resolve_of_mem_ruleTypes (by simp [ruleTypes])

/-- Queries and sequences stay such, with whatever arguments. -/
theorem resolve_sequence (hs : s.KeepsShape) {d : String} (hd : .generic d [] ∈ ruleTypes)
    (as : List Ty) : s.resolve (.generic d as) = .generic d (as.map s.resolve) := by
  by_cases has : as = []
  · rw [has, hs.resolve_of_mem_ruleTypes hd, List.map_nil]
  · exact hs.plain.resolve_generic has

/-- What converts to what still does when both are resolved. -/
theorem assignableTo (hs : s.KeepsShape) {t u : Ty} (h : t.assignableTo u = true) :
    (s.resolve t).assignableTo (s.resolve u) = true := by
  simp only [Ty.assignableTo, Bool.or_eq_true, decide_eq_true_eq, Ty.isObject] at h
  rcases h with (rfl | rfl) | h
  · exact Ty.assignableTo_refl _
  · rw [hs.resolve_object]
    exact Ty.assignableTo_object _
  · -- A query converts to the sequence over the same arguments.
    split at h
    · simp only [Bool.and_eq_true, decide_eq_true_eq] at h
      obtain ⟨⟨rfl, rfl⟩, rfl⟩ := h
      rw [hs.resolve_sequence (by simp [ruleTypes]), hs.resolve_sequence (by simp [ruleTypes])]
      simp [Ty.assignableTo]
    · cases h

/-- Exactly the nullable types become nullable. -/
theorem isNullable (hs : s.KeepsShape) (t : Ty) : (s.resolve t).isNullable = t.isNullable := by
  have htarget : ∀ u target, s.lookup u = some target → target.isNullable = false := by
    intro u target h
    obtain ⟨pair, hpair, rfl⟩ := Option.map_eq_some_iff.mp h
    exact hs.targets pair (List.mem_of_find?_eq_some hpair)
  cases t with
  | named n =>
    rw [resolve]
    cases h : s.lookup (.named n) with
    | none => rfl
    | some target => exact htarget _ _ h
  | param n =>
    rw [resolve]
    cases h : s.lookup (.param n) with
    | none => rfl
    | some target => exact htarget _ _ h
  | generic d as =>
    cases as with
    | nil =>
      cases h : s.lookup (.generic d []) with
      | none => rw [resolve_of_lookup_eq_none h]; rfl
      | some target =>
        rw [resolve, h]
        exact htarget _ _ h
    | cons x xs =>
      rw [hs.plain.resolve_generic (by simp)]
      -- Only the type itself could become or cease to be nullable, and its definition stays.
      cases xs <;> rfl

/-- An operator over resolved operands has the resolved type. -/
theorem operatorType (hs : s.KeepsShape) (op : BinaryOp) (operand : Ty) (lifted : Bool) :
    Expr.operatorType op (s.resolve operand) lifted =
      s.resolve (Expr.operatorType op operand lifted) := by
  have hnullable : s.resolve (Ty.nullable Ty.bool) = Ty.nullable Ty.bool := by
    rw [Ty.nullable, hs.plain.resolve_generic (by simp)]
    simp [hs.resolve_bool]
  unfold Expr.operatorType
  rw [hs.isNullable]
  -- A comparison has a truth value, lifted or not; any other operator has the type of its operand.
  split
  · split
    · exact hnullable.symm
    · exact hs.resolve_bool.symm
  · split
    · exact hs.resolve_bool.symm
    · rfl

end KeepsShape

end Substitution

/-! ## Methods -/

/-- The type arguments of a method decide what it becomes. -/
theorem MethodRef.mapTypeArgs_congr {f g : Ty → Ty} {m : MethodRef}
    (h : ∀ t ∈ m.typeArgs, f t = g t) : m.mapTypeArgs f = m.mapTypeArgs g := by
  simp only [mapTypeArgs, List.map_congr_left h]

/-- A method whose type arguments are kept is kept. -/
theorem MethodRef.mapTypeArgs_eq_self {f : Ty → Ty} {m : MethodRef}
    (h : ∀ t ∈ m.typeArgs, f t = t) : m.mapTypeArgs f = m := by
  rw [mapTypeArgs_congr (g := fun t => t) h]
  simp [mapTypeArgs]

/-- Type arguments that are mapped twice are mapped once by the composition. -/
theorem MethodRef.mapTypeArgs_mapTypeArgs (f g : Ty → Ty) (m : MethodRef) :
    (m.mapTypeArgs f).mapTypeArgs g = m.mapTypeArgs fun t => g (f t) := by
  simp [mapTypeArgs]

/-- A method that is not generic has no type arguments. -/
theorem MethodRef.typeArgs_eq_nil {m : MethodRef} (h : m.isGeneric = false) : m.typeArgs = [] := by
  have hparams : m.definition.typeParams = [] := by simpa [isGeneric] using h
  rcases m.arity with harity | harity
  · exact harity
  · rwa [hparams, List.length_nil, List.length_eq_zero_iff] at harity

/-- Under any substitution, a method that is not generic stays as it is. -/
theorem Substitution.rebind_eq_self (s : Substitution) {m : MethodRef} (h : m.isGeneric = false) :
    s.rebind m = m :=
  MethodRef.mapTypeArgs_eq_self (by simp [MethodRef.typeArgs_eq_nil h])

end Retarget
