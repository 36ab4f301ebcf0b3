import Retarget.Manifest.Basic
import Retarget.Proofs.Instantiation

/-!
# What a manifest resolves to

A decoded manifest is resolved in two rounds: all of its classes are declared first, in order, so
that the last of a name counts and hides a built-in one; then the types of the substitutions are
read in the order in which they stand, and the first that cannot be read or is not declared decides
the failure. Whether a type is declared is asked of its name alone, or of that of the definition it
instantiates.

## Key results

- `Catalog.class?_foldl_addClass`: the classes of a catalog after several more
- `Manifest.declaredType_eq_ok`, `Manifest.declaredType_eq_error`: one type of a substitution
- `Manifest.declaredPairs_eq_error`: the first fault of all substitutions
- `Manifest.parse_resolves`: manifests as a whole
-/

namespace Retarget

/-! ## Declared classes

What the catalog makes of a class when it is declared, said member by member. -/

/-- How a type that was written with plain names is read in the scope of type parameters: a plain
    name that is declared as one is that parameter, and all else stays, the names of definitions
    included. -/
inductive Ty.ReadsAs (params : List String) : Ty → Ty → Prop where
  | declared {n : String} (h : n ∈ params) : ReadsAs params (.named n) (.param n)
  | named {n : String} (h : n ∉ params) : ReadsAs params (.named n) (.named n)
  | generic (d : String) {ts us : List Ty} (h : List.Forall₂ (ReadsAs params) ts us) :
      ReadsAs params (.generic d ts) (.generic d us)
  | param (n : String) : ReadsAs params (.param n) (.param n)

/-- Promotion reads a type in the scope of type parameters. -/
theorem Ty.readsAs_promote (params : List String) (t : Ty) :
    t.ReadsAs params (t.promote params) := by
  induction t using argsInduction with
  | type t ih =>
    cases t with
    | named n =>
      rw [promote]
      split
      · exact .declared ‹_›
      · exact .named ‹_›
    | generic d ts =>
      rw [promote, promoteAll_eq_map]
      exact .generic d (List.forall₂_map_right_iff.mpr (List.forall₂_same.mpr ih))
    | param n => exact .param n

/-- How a declared member is read in the scope of type parameters: under its name, static or not as
    it was declared, and with its type read there. -/
structure MemberDecl.ReadsAs (params : List String) (d d' : MemberDecl) : Prop where
  name : d'.name = d.name
  isStatic : d'.isStatic = d.isStatic
  ty : d.ty.ReadsAs params d'.ty

/-- How a declared class is read: member by member, in the scope of its own type parameters. -/
structure ClassDecl.ReadsAs (c c' : ClassDecl) : Prop where
  name : c'.name = c.name
  typeParams : c'.typeParams = c.typeParams
  members : ∀ kind, List.Forall₂ (MemberDecl.ReadsAs c.typeParams) (c.ofKind kind) (c'.ofKind kind)

/-- Registration reads a class in this way. -/
theorem ClassDecl.readsAs_promote (c : ClassDecl) : c.ReadsAs c.promote where
  name := rfl
  typeParams := rfl
  members := by
    intro kind
    rw [ofKind_promote]
    refine List.forall₂_map_right_iff.mpr (List.forall₂_same.mpr fun d _ => ?_)
    exact ⟨rfl, rfl, d.ty.readsAs_promote c.typeParams⟩

namespace Catalog

/-- Of several classes of a name the last one counts, and without one those that were there. -/
theorem class?_foldl_addClass (cat : Catalog) (classes : List ClassDecl) (name : String) :
    (classes.foldl addClass cat).class? name =
      ((classes.reverse.find? (·.name = name)).map ClassDecl.promote).or (cat.class? name) := by
  -- A class that is added later hides those before it, so the search is in reverse order.
  induction classes generalizing cat with
  | nil => rfl
  | cons c classes ih =>
    rw [List.foldl_cons, ih, class?_addClass, List.reverse_cons, List.find?_append]
    cases classes.reverse.find? (·.name = name) with
    | some last => rfl
    | none => by_cases h : c.name = name <;> simp [h]

/-- There are two built-in classes. -/
theorem isSome_class?_builtin (name : String) :
    (builtin.class? name).isSome = true ↔ name = "Nullable" ∨ name = "string" := by
  have hclasses : builtin.classes = [stringClass.promote, nullableClass.promote] := rfl
  have hstring : stringClass.promote.name = "string" := rfl
  have hnullable : nullableClass.promote.name = "Nullable" := rfl
  simp [class?, hclasses, hstring, hnullable, or_comm, @eq_comm _ name]

end Catalog

namespace Manifest

open Catalog (class?_foldl_addClass isSome_class?_builtin)

/-- Whether a type is declared by its name: by a manifest or as a built-in class. -/
def Raw.Declares (raw : Raw) (t : Ty) : Prop :=
  t.fullName = "Nullable" ∨ t.fullName = "string" ∨ ∃ c ∈ raw.classes, c.name = t.fullName

/-- The catalog of a manifest knows exactly the types that are declared by their names. -/
theorem Raw.contains_catalog {raw : Raw} {t : Ty} :
    raw.catalog.contains t = true ↔ raw.Declares t := by
  rw [Catalog.contains, Raw.catalog, class?_foldl_addClass, Option.isSome_or, Bool.or_eq_true,
    isSome_class?_builtin, Option.isSome_map, List.find?_isSome, Raw.Declares, or_comm, or_assoc]
  simp

/-! ## The types of substitutions -/

variable {cat : Catalog} {text : Located String} {e : Error}

/-- A text is read as a type that it spells and that the catalog knows. -/
theorem declaredType_eq_ok {t : Ty} :
    declaredType cat text = .ok t ↔ Ty.parse text.value = .ok t ∧ cat.contains t = true := by
  unfold declaredType
  cases Ty.parse text.value with
  | error err => simp
  | ok u =>
    by_cases h : cat.contains u = true
    · simp only [h, if_true, Except.ok.injEq]
      constructor
      · rintro rfl
        exact ⟨rfl, h⟩
      · exact And.left
    · simp only [h, if_false, Except.ok.injEq, reduceCtorEq, false_iff, not_and]
      rintro rfl
      exact h

/-- A text is refused because it spells no type, or one that the catalog does not know. -/
theorem declaredType_eq_error :
    declaredType cat text = .error e ↔
      (∃ err, Ty.parse text.value = .error err ∧
        e = .typeSyntax ⟨err.cause, err.span.shift (text.span.start + 1)⟩) ∨
      ∃ t, Ty.parse text.value = .ok t ∧ cat.contains t = false ∧
        e = .unknownType t.render text.span := by
  unfold declaredType
  cases Ty.parse text.value with
  | error err => simp [@eq_comm _ e]
  | ok u => cases h : cat.contains u <;> simp [h, @eq_comm _ e]

/-- The texts of a substitution in the order in which they are read. -/
def RawPair.texts (pair : RawPair) : List (Located String) := [pair.source, pair.target]

/-- The texts of all substitutions in the order in which they are read. -/
def Raw.texts (raw : Raw) : List (Located String) := raw.pairs.flatMap RawPair.texts

/-- Mapping a computation over a list succeeds exactly if it does so place by place. -/
theorem except_mapM_eq_ok {ε α β : Type} {f : α → Except ε β} {xs : List α} {ys : List β} :
    xs.mapM f = .ok ys ↔ List.Forall₂ (fun x y => f x = .ok y) xs ys := by
  induction xs generalizing ys with
  | nil => cases ys <;> simp [pure, Except.pure]
  | cons x xs ih =>
    rw [List.mapM_cons]
    simp only [Build.except_bind_eq_ok, ih, List.forall₂_cons_left_iff]
    constructor
    · rintro ⟨y, hy, rest, hrest, hys⟩
      exact ⟨y, rest, hy, hrest, (Except.ok.inj hys).symm⟩
    · rintro ⟨y, rest, hy, hrest, rfl⟩
      exact ⟨y, hy, rest, hrest, rfl⟩

/-- What each step of a fold preserves holds at its end. -/
theorem except_foldlM_induction {ε σ α : Type} {f : σ → α → Except ε σ} {I : σ → Prop}
    {xs : List α} {s s' : σ} (hstep : ∀ s x s', I s → x ∈ xs → f s x = .ok s' → I s')
    (hs : I s) (h : xs.foldlM f s = .ok s') : I s' := by
  induction xs generalizing s with
  | nil =>
    obtain rfl := Except.ok.inj h
    exact hs
  | cons x xs ih =>
    rw [List.foldlM_cons] at h
    obtain ⟨next, hnext, h⟩ := Build.except_bind_eq_ok.mp h
    exact ih (fun s y s' hs hy => hstep s y s' hs (List.mem_cons_of_mem _ hy))
      (hstep s x next hs List.mem_cons_self hnext) h

/-- A substitution is read side by side. -/
theorem declaredPair_eq_ok {pair : RawPair} {p : Ty × Ty} :
    declaredPair cat pair = .ok p ↔
      declaredType cat pair.source = .ok p.1 ∧ declaredType cat pair.target = .ok p.2 := by
  simp only [declaredPair, Build.except_bind_eq_ok]
  constructor
  · rintro ⟨t, ht, u, hu, hp⟩
    obtain rfl := Except.ok.inj hp
    exact ⟨ht, hu⟩
  · rintro ⟨ht, hu⟩
    exact ⟨p.1, ht, p.2, hu, rfl⟩

/-- Whether a text is the first that cannot be read, and fails so. -/
def IsFirstFault (cat : Catalog) (texts : List (Located String)) (text : Located String)
    (e : Error) : Prop :=
  ∃ before after, texts = before ++ text :: after ∧
    (∀ u ∈ before, ∃ t, declaredType cat u = .ok t) ∧ declaredType cat text = .error e

/-- A fault in front is the first. -/
theorem IsFirstFault.head {texts : List (Located String)} (h : declaredType cat text = .error e) :
    IsFirstFault cat (text :: texts) text e :=
  ⟨[], texts, rfl, by simp, h⟩

/-- A fault behind a text that can be read. -/
theorem IsFirstFault.behind {texts : List (Located String)} {first : Located String} {t : Ty}
    (hfirst : declaredType cat first = .ok t) (h : IsFirstFault cat texts text e) :
    IsFirstFault cat (first :: texts) text e := by
  obtain ⟨before, after, rfl, hbefore, htext⟩ := h
  refine ⟨first :: before, after, rfl, ?_, htext⟩
  intro u hu
  rcases List.mem_cons.mp hu with rfl | hu
  · exact ⟨t, hfirst⟩
  · exact hbefore u hu

/-- The first text that cannot be read decides how reading the substitutions fails. -/
theorem declaredPairs_eq_error {pairs : List RawPair}
    (h : pairs.mapM (declaredPair cat) = .error e) :
    ∃ text, IsFirstFault cat (pairs.flatMap RawPair.texts) text e := by
  -- Substitutions are read in order, and the first failure ends the reading.
  induction pairs with
  | nil => cases h
  | cons pair pairs ih =>
    rw [List.mapM_cons] at h
    simp only [declaredPair, bind_assoc, pure_bind] at h
    rw [List.flatMap_cons, RawPair.texts, List.cons_append, List.cons_append, List.nil_append]
    -- The source comes before the target, and both before the other substitutions.
    cases hsource : declaredType cat pair.source with
    | error err =>
      rw [hsource] at h
      obtain rfl : err = e := Except.error.inj h
      exact ⟨pair.source, .head hsource⟩
    | ok t =>
      cases htarget : declaredType cat pair.target with
      | error err =>
        rw [hsource, htarget] at h
        obtain rfl : err = e := Except.error.inj h
        exact ⟨pair.target, .behind hsource (.head htarget)⟩
      | ok u =>
        cases hrest : pairs.mapM (declaredPair cat) with
        | ok ps =>
          rw [hsource, htarget, hrest] at h
          cases h
        | error err =>
          rw [hsource, htarget, hrest] at h
          obtain rfl : err = e := Except.error.inj h
          obtain ⟨text, hfault⟩ := ih hrest
          exact ⟨text, .behind hsource (.behind htarget hfault)⟩

/-! ## Entries -/

/-- What an entry of the document changes: the mode, the classes or the substitutions. -/
theorem visit_cases {raw raw' : Raw} {entry : String × Toml.Node}
    (h : raw.visit entry = .ok raw') :
    (∃ v mode, entry = ("match_mode", v) ∧ modeOf v = .ok mode ∧ raw' = { raw with mode }) ∨
    (∃ v items classes, entry = ("type", v) ∧ itemsOf v = .ok items ∧
      (items.mapM fun item => ClassDecl.ofJson .ignored item.toJson) = .ok classes ∧
      raw' = { raw with classes }) ∨
    ∃ v items pairs, entry = ("substitute", v) ∧ itemsOf v = .ok items ∧
      items.mapM pairOf = .ok pairs ∧ raw' = { raw with pairs } := by
  -- The key decides, and no other key is known.
  unfold Raw.visit at h
  split at h
  · obtain ⟨mode, hmode, h⟩ := Build.except_bind_eq_ok.mp h
    exact .inl ⟨_, mode, rfl, hmode, (Except.ok.inj h).symm⟩
  · obtain ⟨items, hitems, h⟩ := Build.except_bind_eq_ok.mp h
    obtain ⟨classes, hclasses, h⟩ := Build.except_bind_eq_ok.mp h
    exact .inr (.inl ⟨_, items, classes, rfl, hitems, hclasses, (Except.ok.inj h).symm⟩)
  · obtain ⟨items, hitems, h⟩ := Build.except_bind_eq_ok.mp h
    obtain ⟨pairs, hpairs, h⟩ := Build.except_bind_eq_ok.mp h
    exact .inr (.inr ⟨_, items, pairs, rfl, hitems, hpairs, (Except.ok.inj h).symm⟩)
  · cases h

/-- Entries other than the matching mode leave it as it is. -/
theorem mode_of_foldlM {entries : Toml.Entries} {raw raw' : Raw}
    (h : entries.foldlM Raw.visit raw = .ok raw') (hmode : ∀ v, ("match_mode", v) ∉ entries) :
    raw'.mode = raw.mode := by
  refine except_foldlM_induction (I := fun r => r.mode = raw.mode)
    (fun r entry r' hr hentry hvisit => ?_) rfl h
  rw [← hr]
  obtain ⟨v, mode, rfl, -, -⟩ | ⟨v, items, classes, rfl, -, -, rfl⟩ |
    ⟨v, items, pairs, rfl, -, -, rfl⟩ := visit_cases hvisit
  · -- Of the three kinds of entries only the excluded one sets the mode.
    exact absurd hentry (hmode v)
  · rfl
  · rfl

/-- The mode is the one that is given, or matching by name if none is. -/
theorem mode_of_ofEntries {entries : Toml.Entries} {raw : Raw}
    (h : Raw.ofEntries entries = .ok raw) :
    (∀ before v after, entries = before ++ ("match_mode", v) :: after →
      (∀ w, ("match_mode", w) ∉ after) → modeOf v = .ok raw.mode) ∧
    ((∀ v, ("match_mode", v) ∉ entries) → raw.mode = .byName) := by
  constructor
  · rintro before v after rfl hafter
    -- What comes before the entry cannot tell, and what comes after it leaves the mode alone.
    rw [Raw.ofEntries, List.foldlM_append] at h
    obtain ⟨first, -, h⟩ := Build.except_bind_eq_ok.mp h
    rw [List.foldlM_cons] at h
    obtain ⟨next, hnext, hrest⟩ := Build.except_bind_eq_ok.mp h
    obtain ⟨mode, hmode, hnext⟩ := Build.except_bind_eq_ok.mp hnext
    obtain rfl := Except.ok.inj hnext
    rw [hmode, mode_of_foldlM hrest hafter]
  · exact mode_of_foldlM h

/-! ## Manifests -/

/-- What a decoded manifest comes to if it can be resolved. -/
structure Raw.ResolvesTo (raw : Raw) (m : Manifest) : Prop where
  /-- The table has the types of the substitutions, in order. -/
  pairs : List.Forall₂ (fun pair p => Ty.parse pair.source.value = .ok p.1 ∧
    Ty.parse pair.target.value = .ok p.2) raw.pairs m.substitution.pairs
  mode : m.substitution.mode = raw.mode
  /-- Nothing else is said about passes. -/
  plain : m.substitution.constantTransform = none ∧ m.substitution.memberOverride = none
  /-- The last class of a name is known, each member under its name, static or not as it was
      declared, with the type parameters of the class marked in its type. -/
  classes : ∀ name c, raw.classes.reverse.find? (·.name = name) = some c →
    ∃ c', m.catalog.class? name = some c' ∧ c.ReadsAs c'
  /-- The last class of a name counts, then the built-in one. -/
  class?_eq : ∀ name, m.catalog.class? name =
    ((raw.classes.reverse.find? (·.name = name)).map ClassDecl.promote).or
      (Catalog.builtin.class? name)

/-- How a text of a substitution is refused: because it spells no type, with the fault moved behind
    the opening quote, or because its type is not declared, with the place of the whole text. -/
def Raw.Refuses (raw : Raw) (text : Located String) (e : Error) : Prop :=
  (∃ err, Ty.parse text.value = .error err ∧
    e = .typeSyntax ⟨err.cause, err.span.shift (text.span.start + 1)⟩) ∨
  ∃ t, Ty.parse text.value = .ok t ∧ ¬raw.Declares t ∧ e = .unknownType t.render text.span

/-- What is resolved has the types of its texts as table, and the last class of each name. -/
theorem Raw.resolve_eq_ok {raw : Raw} {m : Manifest} (h : raw.resolve = .ok m) :
    raw.ResolvesTo m := by
  obtain ⟨ps, hps, h⟩ := Build.except_bind_eq_ok.mp h
  obtain rfl := Except.ok.inj h
  have hclass := class?_foldl_addClass Catalog.builtin raw.classes
  refine ⟨?_, rfl, ⟨rfl, rfl⟩, fun name c hc => ?_, hclass⟩
  · -- The table: each side is a type that its text spells.
    refine (except_mapM_eq_ok.mp hps).imp fun pair p hp => ?_
    obtain ⟨hsource, htarget⟩ := declaredPair_eq_ok.mp hp
    exact ⟨(declaredType_eq_ok.mp hsource).1, (declaredType_eq_ok.mp htarget).1⟩
  · -- The classes: the last of a name is found before the built-in one, and was read member by
    -- member.
    refine ⟨c.promote, (hclass name).trans ?_, c.readsAs_promote⟩
    rw [hc, Option.map_some, Option.some_or]

/-- What is not resolved has a first text that is at fault. -/
theorem Raw.resolve_eq_error {raw : Raw} {e : Error} (h : raw.resolve = .error e) :
    ∃ text, IsFirstFault raw.catalog raw.texts text e := by
  unfold Raw.resolve at h
  cases hps : raw.pairs.mapM (declaredPair raw.catalog) with
  | ok ps =>
    rw [hps] at h
    cases h
  | error err =>
    rw [hps] at h
    obtain rfl : err = e := Except.error.inj h
    exact declaredPairs_eq_error hps

/-- A decoded manifest can be resolved exactly if all its texts are types that are declared. -/
theorem Raw.exists_resolve_iff {raw : Raw} :
    (∃ m, raw.resolve = .ok m) ↔
      ∀ text ∈ raw.texts, ∃ t, Ty.parse text.value = .ok t ∧ raw.Declares t := by
  -- To be declared is to be in the catalog, so the right side says that each text can be read.
  have hdeclared : ∀ text t, declaredType raw.catalog text = .ok t ↔
      Ty.parse text.value = .ok t ∧ raw.Declares t := by
    intro text t
    rw [declaredType_eq_ok, Raw.contains_catalog]
  simp only [← hdeclared]
  constructor
  · rintro ⟨m, h⟩ text htext
    obtain ⟨ps, hps, -⟩ := Build.except_bind_eq_ok.mp h
    -- A text is one side of a substitution, and each of these was read on both sides.
    obtain ⟨pair, hpair, htext⟩ := List.mem_flatMap.mp htext
    obtain ⟨p, -, hp⟩ := (except_mapM_eq_ok.mp hps).flip.exists_of_mem_right hpair
    obtain ⟨hsource, htarget⟩ := declaredPair_eq_ok.mp hp
    simp only [RawPair.texts, List.mem_cons, List.not_mem_nil, or_false] at htext
    rcases htext with rfl | rfl
    · exact ⟨_, hsource⟩
    · exact ⟨_, htarget⟩
  · intro hall
    cases h : raw.resolve with
    | ok m => exact ⟨m, rfl⟩
    | error e =>
      -- A failure would be that of one text, all of which can be read.
      obtain ⟨text, before, after, htexts, -, hfault⟩ := Raw.resolve_eq_error h
      obtain ⟨t, ht⟩ := hall text (by simp [htexts])
      rw [ht] at hfault
      cases hfault

/-- A text that decodes is resolved as what it decodes to. -/
theorem parse_eq_resolve {text : String} {entries : Toml.Entries} {raw : Raw}
    (htext : Toml.parse? text = some entries) (hraw : Raw.ofEntries entries = .ok raw) :
    parse text = raw.resolve := by
  simp only [parse, htext, hraw]

/-- A text that decodes to a manifest spells one that can be resolved exactly if both sides of each
    substitution are types that are declared, in this manifest or as built-in classes, by their
    names alone. It then has these types as its table, and its catalog knows of each name the last
    class that was declared under it, read member by member; otherwise the first text of all that is
    not such a type decides the failure. -/
theorem parse_resolves {text : String} {entries : Toml.Entries} {raw : Raw}
    (htext : Toml.parse? text = some entries) (hraw : Raw.ofEntries entries = .ok raw) :
    ((∃ m, parse text = .ok m) ↔
      ∀ side ∈ raw.texts, ∃ t, Ty.parse side.value = .ok t ∧ raw.Declares t) ∧
    (∀ m, parse text = .ok m → raw.ResolvesTo m ∧
      (∀ before v after, entries = before ++ ("match_mode", v) :: after →
        (∀ w, ("match_mode", w) ∉ after) → modeOf v = .ok m.substitution.mode) ∧
      ((∀ v, ("match_mode", v) ∉ entries) → m.substitution.mode = .byName)) ∧
    ∀ e, parse text = .error e → ∃ before side after, raw.texts = before ++ side :: after ∧
      (∀ u ∈ before, ∃ t, Ty.parse u.value = .ok t ∧ raw.Declares t) ∧ raw.Refuses side e := by
  rw [parse_eq_resolve htext hraw]
  refine ⟨Raw.exists_resolve_iff, ?_, ?_⟩
  · intro m hm
    have hresolves := Raw.resolve_eq_ok hm
    rw [hresolves.mode]
    exact ⟨hresolves, mode_of_ofEntries hraw⟩
  · intro e he
    -- The texts before the first fault have been read, which says that they are declared.
    obtain ⟨side, before, after, htexts, hbefore, hfault⟩ := Raw.resolve_eq_error he
    refine ⟨before, side, after, htexts, ?_, ?_⟩
    · intro u hu
      obtain ⟨t, ht⟩ := hbefore u hu
      exact ⟨t, (declaredType_eq_ok.mp ht).1, Raw.contains_catalog.mp (declaredType_eq_ok.mp ht).2⟩
    · rcases declaredType_eq_error.mp hfault with hsyntax | ⟨t, ht, hcontains, rfl⟩
      · exact .inl hsyntax
      · refine .inr ⟨t, ht, ?_, rfl⟩
        rw [← Raw.contains_catalog, hcontains]
        exact Bool.false_ne_true

end Manifest

namespace Sample

open Manifest (Raw RawPair Error)

/-- A manifest that substitutes types before it declares their classes, one of which is generic, and
    one declared twice. The type of a member mentions the type parameter of its class. -/
def forward : String :=
  "[[substitute]]\nfrom = \"Query<Row>\"\nto = \"Nullable<Row>\"\n" ++
  "[[type]]\nname = \"Query\"\n" ++
  "[[type]]\nname = \"Query\"\ntype_params = [\"A\"]\n" ++
  "properties = [\x7bname = \"Empty\", type = \"Query<A>\", static = true\x7d]\n"

/-- The generic class of this manifest. What stands for its type parameter depends on who reads
    it. -/
def queryClass (a : Ty) : ClassDecl where
  name := "Query"
  typeParams := ["A"]
  properties := [⟨"Empty", .generic "Query" [a], true⟩]
  fields := []

/-- A manifest with a side that is not declared, before one that is no type. -/
def undeclared : String := "[[substitute]]\nfrom = \"Row<string>\"\nto = \"Query<\"\n"

/-- What is decided of the decoded form of a text. -/
theorem exists_raw {t : String} {P : Raw → Prop} [DecidablePred P]
    (h : ((Toml.parse? t).bind fun entries => (Raw.ofEntries entries).toOption).any
      (fun raw => decide (P raw)) = true) :
    ∃ entries raw, Toml.parse? t = some entries ∧ Raw.ofEntries entries = .ok raw ∧ P raw := by
  cases htext : Toml.parse? t with
  | none => simp [htext] at h
  | some entries =>
    cases hraw : Raw.ofEntries entries with
    | error e => simp [htext, hraw, Except.toOption] at h
    | ok raw => exact ⟨entries, raw, rfl, hraw, by simpa [htext, hraw, Except.toOption] using h⟩

instance (raw : Raw) (t : Ty) : Decidable (raw.Declares t) :=
  inferInstanceAs (Decidable (_ ∨ _ ∨ _))

/-- How a manifest fails to be resolved. -/
def failureOf (raw : Raw) : Option Error :=
  match raw.resolve with
  | .ok _ => none
  | .error e => some e

/-- A text that decodes fails as what it decodes to. -/
theorem parse_of_failureOf {t : String} {entries : Toml.Entries} {raw : Raw} {e : Error}
    (htext : Toml.parse? t = some entries) (hraw : Raw.ofEntries entries = .ok raw)
    (h : failureOf raw = some e) : Manifest.parse t = .error e := by
  rw [Manifest.parse_eq_resolve htext hraw]
  cases hresolve : raw.resolve with
  | ok m => simp [failureOf, hresolve] at h
  | error err => simpa [failureOf, hresolve] using h

/-- The classes of arguments need not be declared, but that of the definition has to be, and the
    first side counts that goes wrong. Of the class that is declared twice the second is known, with
    its type parameter marked in the type of its member. -/
theorem forward_resolves :
    (∃ entries raw m, Toml.parse? forward = some entries ∧ Raw.ofEntries entries = .ok raw ∧
      Manifest.parse forward = .ok m ∧ raw.ResolvesTo m ∧ m.substitution.mode = .byName ∧
      raw.classes = [⟨"Query", [], [], []⟩, queryClass (.named "A")] ∧
      m.catalog.class? "Query" = some (queryClass (.param "A"))) ∧
    ∃ entries raw, Toml.parse? undeclared = some entries ∧ Raw.ofEntries entries = .ok raw ∧
      ∃ side ∈ raw.texts, raw.Refuses side (.unknownType "Row<string>" ⟨22, 35⟩) := by
  constructor
  · obtain ⟨entries, raw, htext, hraw, hall, hmode, hclasses⟩ : ∃ entries raw,
        Toml.parse? forward = some entries ∧ Raw.ofEntries entries = .ok raw ∧
        (∀ side ∈ raw.texts, ∃ t ∈ (Ty.parse side.value).toOption, raw.Declares t) ∧
        raw.mode = .byName ∧ raw.classes = [⟨"Query", [], [], []⟩, queryClass (.named "A")] :=
      exists_raw (by decide +kernel)
    obtain ⟨hiff, hok, -⟩ := Manifest.parse_resolves htext hraw
    obtain ⟨m, hm⟩ := hiff.mpr fun side hside => by
      obtain ⟨t, ht, hdeclares⟩ := hall side hside
      refine ⟨t, ?_, hdeclares⟩
      cases hside : Ty.parse side.value with
      | error e => simp [hside, Except.toOption] at ht
      | ok u => simpa [hside, Except.toOption] using ht
    obtain ⟨hresolves, -⟩ := hok m hm
    have hclass : m.catalog.class? "Query" = some (queryClass (.param "A")) := by
      rw [hresolves.class?_eq, hclasses]
      rfl
    exact ⟨entries, raw, m, htext, hraw, hm, hresolves, hresolves.mode.trans hmode, hclasses,
      hclass⟩
  · obtain ⟨entries, raw, htext, hraw, hfailure⟩ : ∃ entries raw,
        Toml.parse? undeclared = some entries ∧ Raw.ofEntries entries = .ok raw ∧
        failureOf raw = some (.unknownType "Row<string>" ⟨22, 35⟩) :=
      exists_raw (by decide +kernel)
    obtain ⟨-, -, herror⟩ := Manifest.parse_resolves htext hraw
    obtain ⟨before, side, after, htexts, -, hrefuses⟩ :=
      herror _ (parse_of_failureOf htext hraw hfailure)
    exact ⟨entries, raw, htext, hraw, side, by simp [htexts], hrefuses⟩

end Sample

end Retarget
