import Retarget.Proofs.Compatible
import Retarget.Proofs.Matching

/-!
# No type is left behind

A pass resolves types in the nodes of an expression wherever they are given rather than derived:
the types of parameters, the targets of conversions, the type arguments of methods and the
declaring types of members. When no source of the table has type arguments and nothing inside a
replacement is matched, the result of a pass has nothing in these places that the table still
matches.

A member is the one thing that can come through a pass as it was, because its declaring type merely
matches its resolved form. Matching being an equivalence, such a type has nothing in it that is
matched either.

## Key results

- `Expr.givenTypes`: the types that are given in a node
- `Expr.Retargets.exists_part`: every part of a retargeted form comes from a part
- `Expr.Retargets.avoids_givenTypes`: what holds of one node
- `Expr.Constructed.avoids_of_run`: what holds of every node of a result
-/

namespace Retarget

namespace Expr

/-- The type that a conversion is made to. -/
def target? : Expr → Option Ty
  | .unary _ .convert _ ty _ => some ty
  | .unary _ .typeAs _ ty _ => some ty
  | _ => none

/-- The types that are given in a node and not derived from its parts: the type of a parameter, the
    target of a conversion, the type arguments of a method and the declaring type of a member. -/
def givenTypes : Expr → List Ty
  | .parameter p => [p.ty]
  | .member _ _ m => [m.declaringType]
  | e => e.target?.toList ++ e.methods.flatMap (·.typeArgs)

variable {s : Substitution} {cat : Catalog} {leaf : Expr → Expr → Prop}

/-! ## Parts of a retargeted form -/

/-- Every part of a retargeted form stands in the place of a part. -/
theorem Retargets.exists_part {e e' c' : Expr} (h : Retargets s cat leaf e e')
    (hc : c' ∈ e'.children) : ∃ c ∈ e.children, RetargetsArgument s cat leaf c c' := by
  have hoption : ∀ {o o' : Option Expr}, Option.Rel (Retargets s cat leaf) o o' → o' = some c' →
      ∃ c, o = some c ∧ RetargetsArgument s cat leaf c c' := by
    rintro o _ hrel rfl
    obtain ⟨c, rfl, hcc'⟩ := Option.exists_of_rel_some hrel
    exact ⟨c, rfl, .plain hcc'⟩
  cases h with
  | leaf he hkind _ =>
    -- What replaces a leaf is of its kind, and so has no parts.
    rw [isLeaf_iff_kind, ← hkind, ← isLeaf_iff_kind] at he
    rw [children_of_isLeaf he] at hc
    cases hc
  | call _ hreceiver hargs =>
    simp only [children, List.mem_append, Option.mem_toList] at hc ⊢
    rcases hc with hc | hc
    · obtain ⟨c, hc, h⟩ := hoption hreceiver hc
      exact ⟨c, .inl hc, h⟩
    · obtain ⟨c, hc, h⟩ := hargs.exists_of_mem_right hc
      exact ⟨c, .inr hc, .plain h⟩
  | genericCall _ hreceiver hargs =>
    simp only [children, List.mem_append, Option.mem_toList] at hc ⊢
    rcases hc with hc | hc
    · obtain ⟨c, hc, h⟩ := hoption hreceiver hc
      exact ⟨c, .inl hc, h⟩
    · obtain ⟨c, hc, h⟩ := hargs.exists_of_mem_right hc
      exact ⟨c, .inr hc, h⟩
  | lambda hparams hbody =>
    simp only [children, List.mem_append, List.mem_map, List.mem_singleton] at hc ⊢
    rcases hc with ⟨p', hp', rfl⟩ | rfl
    · obtain ⟨p, hp, h⟩ := hparams.exists_of_mem_right hp'
      exact ⟨.parameter p, .inl ⟨p, hp, rfl⟩, .plain (.leaf rfl rfl h)⟩
    · exact ⟨_, .inr rfl, .plain hbody⟩
  | member hobject _ =>
    simp only [children, Option.mem_toList] at hc ⊢
    exact hoption hobject hc
  | unary hoperand _ =>
    obtain rfl := List.mem_singleton.mp hc
    exact ⟨_, List.mem_singleton_self _, .plain hoperand⟩
  | binary hleft hright hconversion =>
    simp only [children, List.mem_cons, Option.mem_toList] at hc ⊢
    rcases hc with rfl | rfl | hc
    · exact ⟨_, .inl rfl, .plain hleft⟩
    · exact ⟨_, .inr (.inl rfl), .plain hright⟩
    · obtain ⟨c, hc, h⟩ := hoption hconversion hc
      exact ⟨c, .inr (.inr hc), h⟩

/-! ## One node -/

/-- Nothing that is matched is left in a node that a pass made. -/
theorem Retargets.avoids_givenTypes (hplain : s.PlainKeys) (hoverride : s.memberOverride = none)
    (htargets : ∀ pair ∈ s.pairs, s.Avoids pair.2) {e e' : Expr}
    (h : Retargets s cat (Replaces s) e e') : ∀ t ∈ e'.givenTypes, s.Avoids t := by
  have hresolve := hplain.avoids_resolve htargets
  have hrebind : ∀ m : MethodRef, ∀ t ∈ (s.rebind m).typeArgs, s.Avoids t := by
    intro m t ht
    obtain ⟨u, -, rfl⟩ := List.mem_map.mp ht
    exact hresolve u
  have hoverload : ∀ m : Option MethodRef,
      ∀ t ∈ ((m.map s.rebind).toList.flatMap (·.typeArgs)), s.Avoids t := by
    intro m t ht
    cases m with
    | none => cases ht
    | some m => exact hrebind m t (by simpa using ht)
  intro t ht
  -- Each kind of node gives what it has been rebuilt with: resolved types, rebound methods and
  -- resolved members.
  cases h with
  | leaf _ _ hreplaces =>
    cases hreplaces with
    | parameter p id =>
      rw [List.mem_singleton.mp ht]
      exact hresolve p.ty
    | constant id id' v => cases ht
  | call hmethod _ _ =>
    simp [givenTypes, target?, methods, MethodRef.typeArgs_eq_nil hmethod] at ht
  | genericCall _ _ _ => exact hrebind _ t (by simpa [givenTypes, target?, methods] using ht)
  | lambda _ _ => cases ht
  | member _ hmember =>
    rw [List.mem_singleton.mp ht]
    exact hplain.avoids_declaringType hoverride htargets hmember
  | unary _ hty =>
    rename_i op operand operand' ty ty' method _
    rcases List.mem_append.mp ht with ht | ht
    · -- Only the target of a conversion is given.
      cases op with
      | convert =>
        rw [List.mem_singleton.mp ht, hty (.inl rfl)]
        exact hresolve ty
      | typeAs =>
        rw [List.mem_singleton.mp ht, hty (.inr rfl)]
        exact hresolve ty
      | not | negate | quote => cases ht
    · exact hoverload method t ht
  | binary _ _ _ => exact hoverload _ t ht

/-! ## All nodes -/

/-- Nothing that is matched is left anywhere in a retargeted form. -/
theorem RetargetsArgument.avoids_of_within (hplain : s.PlainKeys)
    (hoverride : s.memberOverride = none) (htargets : ∀ pair ∈ s.pairs, s.Avoids pair.2)
    {e e' n : Expr} (h : RetargetsArgument s cat (Replaces s) e e') (hn : n.Within e') :
    ∀ t ∈ n.givenTypes, s.Avoids t := by
  -- Down from the result to the node, with the part of the input in whose place it stands.
  induction hn generalizing e with
  | self =>
    cases h with
    | plain h => exact h.avoids_givenTypes hplain hoverride htargets
    -- A quotation that was added has no types of its own.
    | quoted id he h => exact fun t ht => absurd ht List.not_mem_nil
  | part hc _ ih =>
    cases h with
    | plain h =>
      obtain ⟨c, -, hpart⟩ := h.exists_part hc
      exact ih hpart
    | quoted id he h =>
      obtain rfl := List.mem_singleton.mp hc
      exact ih (.plain h)

/-- When no source of the table has type arguments and nothing inside a replacement is matched, the
    result of a pass has no parameter, no conversion, no type argument and no member with a type in
    which the table matches anything. -/
theorem Constructed.avoids_of_run {supply : Nat} {e e' n : Expr} (h : e.Constructed supply)
    (hoverride : s.memberOverride = none) (hplain : s.PlainKeys)
    (htargets : ∀ pair ∈ s.pairs, s.Avoids pair.2)
    (hrun : (Pass.run s cat supply e).result = .ok e') (hn : n.Within e') :
    ∀ t ∈ n.givenTypes, s.Avoids t := by
  obtain ⟨a, rfl, he⟩ := h.exists_arena
  have hwalk := retarget_follows s cat a e he (.start s a) (Pass.returns_of_result hrun)
  have hretargets := hwalk.retargets _ (gives_replaces hwalk.visits.faithful)
  exact RetargetsArgument.avoids_of_within hplain hoverride htargets (.plain hretargets) hn

end Expr

/-- The member that a query accesses is one of the type that its items were moved to. -/
theorem Sample.identifier_avoids :
    renumber.PlainKeys ∧ (∀ pair ∈ renumber.pairs, renumber.Avoids pair.2) ∧
      (Pass.run renumber catalog 8 (selection itemFrom 7 0 5)).result =
        .ok (selection itemTo 8 8 15) ∧
      (identifier itemTo 8).Within (selection itemTo 8 8 15) ∧
      ∀ t ∈ (identifier itemTo 8).givenTypes, renumber.Avoids t := by
  have hwithin : (identifier itemTo 8).Within (selection itemTo 8 8 15) :=
    .part (c := quotation itemTo 8 8 15) (by simp [selection, Expr.children])
      (.part (c := selector itemTo 8 8 15) (by simp [quotation, Expr.children])
        (.part (c := comparison itemTo 8 8) (by simp [selector, Expr.children])
          (.part (by simp [comparison, Expr.children]) .self)))
  have htargets : ∀ pair ∈ renumber.pairs, renumber.Avoids pair.2 := by decide
  have hrun : (Pass.run renumber catalog 8 (selection itemFrom 7 0 5)).result =
      .ok (selection itemTo 8 8 15) := rfl
  exact ⟨by decide, htargets, hrun, hwithin,
    Expr.Constructed.avoids_of_run (selection_built.constructed List.mem_cons_self) rfl (by decide)
      htargets hrun hwithin⟩

end Retarget
