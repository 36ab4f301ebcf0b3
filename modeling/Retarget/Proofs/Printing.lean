import Retarget.Proofs.Matching
import Retarget.Proofs.Scanning

/-!
# Printing and parsing types

A printed type is read back wherever its names are dotted and nothing is applied to no arguments,
except that a parameter cannot be told from a plain name. The types that texts spell are exactly
those that are read back as they are.

## Key results

- `Ty.Printable.spell_render`: what a printed type spells
- `Ty.Spells.printable`: what is spelled can be printed
- `Ty.parse_render_inverse`: printing and parsing are inverse
-/

namespace Retarget

instance (cs : List Char) : Decidable (Token.Dotted cs) :=
  decidable_of_iff _ Token.dotted_iff.symm

namespace Ty

/-! ## Types that can be printed -/

/-- Whether the type is a generic definition that is applied to nothing. -/
def isEmptyGeneric : Ty → Bool
  | .generic _ [] => true
  | _ => false

/-- Whether the type is a placeholder. -/
def isParam : Ty → Bool
  | .param _ => true
  | _ => false

/-- All names are dotted, and every generic definition has arguments. -/
def Printable (t : Ty) : Prop :=
  ∀ u ∈ t.subterms, Token.Dotted u.fullName.toList ∧ u.isEmptyGeneric = false

/-- No placeholder stands in the type. -/
def ParamFree (t : Ty) : Prop :=
  ∀ u ∈ t.subterms, u.isParam = false

instance (t : Ty) : Decidable t.Printable :=
  inferInstanceAs (Decidable (∀ u ∈ t.subterms, _))

instance (t : Ty) : Decidable t.ParamFree :=
  inferInstanceAs (Decidable (∀ u ∈ t.subterms, _))

/-- What holds of all types inside a type holds of itself and inside its arguments. -/
theorem forall_mem_subterms {P : Ty → Prop} {t : Ty} :
    (∀ u ∈ t.subterms, P u) ↔ P t ∧ ∀ a ∈ t.args, ∀ u ∈ a.subterms, P u := by
  simp only [mem_subterms (t := t)]
  constructor
  · intro h
    exact ⟨h t (.inl rfl), fun a ha u hu => h u (.inr ⟨a, ha, hu⟩)⟩
  · rintro ⟨ht, hargs⟩ u (rfl | ⟨a, ha, hu⟩)
    · exact ht
    · exact hargs a ha u hu

/-- A type is printable exactly if its own name is dotted, it is not applied to nothing, and its
    arguments are printable. -/
theorem printable_iff {t : Ty} :
    t.Printable ↔ (Token.Dotted t.fullName.toList ∧ t.isEmptyGeneric = false) ∧
      ∀ a ∈ t.args, a.Printable :=
  forall_mem_subterms

/-- A type has no parameters exactly if it is none and its arguments have none. -/
theorem paramFree_iff {t : Ty} :
    t.ParamFree ↔ t.isParam = false ∧ ∀ a ∈ t.args, a.ParamFree :=
  forall_mem_subterms

mutual

/-- Turns parameters into plain names. -/
def demote : Ty → Ty
  | .named n => .named n
  | .generic d as => .generic d (demoteAll as)
  | .param n => .named n

/-- The same in each type of a list. -/
def demoteAll : List Ty → List Ty
  | [] => []
  | t :: ts => demote t :: demoteAll ts

end

/-- The types of a list are turned one by one. -/
theorem demoteAll_eq_map (ts : List Ty) : demoteAll ts = ts.map demote := by
  induction ts with
  | nil => rfl
  | cons t ts ih => simp [demoteAll, ih]

/-- Without parameters there is nothing to turn. -/
theorem ParamFree.demote_eq {t : Ty} (h : t.ParamFree) : t.demote = t := by
  -- By induction over arguments, which have no parameters either.
  induction t using argsInduction with
  | type t ih =>
    obtain ⟨hparam, hargs⟩ := paramFree_iff.mp h
    cases t with
    | named n => rfl
    | generic d as =>
      have hself : as.map demote = as.map id := List.map_congr_left fun a ha => ih a ha (hargs a ha)
      rw [demote, demoteAll_eq_map, hself, List.map_id]
    | param n => cases hparam

/-! ## The tokens of a printed type -/

mutual

/-- The tokens that a type is printed with. -/
def tokens : Ty → List Token
  | .named n => [.ident n]
  | .generic d as => .ident d :: .lt :: (tokensList as ++ [.gt])
  | .param n => [.ident n]

/-- The tokens of types with commas between them. -/
def tokensList : List Ty → List Token
  | [] => []
  | t :: ts => tokens t ++ tokensRest ts

/-- The tokens of the types after the first. -/
def tokensRest : List Ty → List Token
  | [] => []
  | t :: ts => .comma :: (tokens t ++ tokensRest ts)

end

/-- The tokens of arguments are derived from those of each one. -/
theorem spellsArgs_tokensList {t : Ty} {ts : List Ty}
    (h : ∀ a ∈ t :: ts, Spells a.tokens a.demote) :
    SpellsArgs (tokensList (t :: ts)) ((t :: ts).map demote) := by
  induction ts generalizing t with
  | nil =>
    have hone : SpellsArgs t.tokens [t.demote] := .one (h t List.mem_cons_self)
    simpa [tokensList, tokensRest] using hone
  | cons u ts ih =>
    exact .more (h t List.mem_cons_self) (ih fun a ha => h a (List.mem_cons_of_mem _ ha))

/-- The tokens of a printable type derive it, with its parameters as plain names. -/
theorem Printable.spells_tokens {t : Ty} (h : t.Printable) : Spells t.tokens t.demote := by
  induction t using argsInduction with
  | type t ih =>
    obtain ⟨⟨-, hempty⟩, hargs⟩ := printable_iff.mp h
    cases t with
    | named n => exact .base (.name n)
    | generic d as =>
      -- A definition that is applied to nothing has no derivation, and is not printable.
      cases as with
      | nil => cases hempty
      | cons a as =>
        rw [demote, demoteAll_eq_map]
        exact .base (.applied d (spellsArgs_tokensList fun b hb => ih b hb (hargs b hb)))
    | param n => exact .base (.name n)

/-! ## What a printed type spells -/

/-- The text of further types begins with a comma, if there are any. -/
theorem head?_renderRest {ts : List Ty} :
    ∀ c ∈ (renderRest ts).toList.head?, Token.isNamePart c = false := by
  cases ts with
  | nil => simp [renderRest]
  | cons t ts =>
    have hhead : (renderRest (t :: ts)).toList.head? = some ',' := by
      simp [renderRest, String.toList_append]
    rw [hhead]
    rintro _ ⟨⟩
    rfl

/-- The types after the first spell a comma and their tokens each. -/
theorem spell_renderRest {ts : List Ty}
    (h : ∀ t ∈ ts, Token.spell .between t.render.toList = .ok t.tokens) :
    Token.spell .between (renderRest ts).toList = .ok (tokensRest ts) := by
  induction ts with
  | nil => rfl
  | cons t ts ih =>
    have hrest := ih fun u hu => h u (List.mem_cons_of_mem _ hu)
    have htext : (renderRest (t :: ts)).toList =
        ',' :: ' ' :: (t.render.toList ++ (renderRest ts).toList) := by
      simp [renderRest, String.toList_append]
    have hblank : Token.isBlank ' ' = true := rfl
    -- A comma and a blank; the text of the type ends where the next comma begins.
    rw [htext, Token.spell_mark .comma, Token.spell_blank hblank,
      Token.spell_append (.of_head head?_renderRest), h t List.mem_cons_self, hrest]
    rfl

/-- Types with commas between them spell their tokens. -/
theorem spell_renderList {ts : List Ty}
    (h : ∀ t ∈ ts, Token.spell .between t.render.toList = .ok t.tokens) :
    Token.spell .between (renderList ts).toList = .ok (tokensList ts) := by
  cases ts with
  | nil => rfl
  | cons t ts =>
    have hrest := spell_renderRest fun u hu => h u (List.mem_cons_of_mem t hu)
    rw [renderList, String.toList_append, Token.spell_append (.of_head head?_renderRest),
      h t List.mem_cons_self, hrest]
    rfl

/-- A dotted name spells one identifier. -/
theorem spell_name {n : String} (h : Token.Dotted n.toList) :
    Token.spell .between n.toList = .ok [.ident n] := by
  rw [Token.spell_dotted h, String.ofList_toList]

/-- A printed type spells the tokens that it was printed with. -/
theorem Printable.spell_render {t : Ty} (h : t.Printable) :
    Token.spell .between t.render.toList = .ok t.tokens := by
  -- By induction over arguments. The text is cut before the opening and the closing bracket, where
  -- no lexeme goes on.
  induction t using argsInduction with
  | type t ih =>
    obtain ⟨⟨hname, -⟩, hargs⟩ := printable_iff.mp h
    cases t with
    | named n => exact spell_name hname
    | generic d as =>
      have hname : Token.spell .between d.toList = .ok [.ident d] := spell_name hname
      have hlist : Token.spell .between (renderList as).toList = .ok (tokensList as) :=
        spell_renderList fun a ha => ih a ha (hargs a ha)
      have htext : (generic d as).render.toList =
          d.toList ++ '<' :: ((renderList as).toList ++ ['>']) := by
        simp [render, String.toList_append]
      have hgt : Token.spell .between ['>'] = .ok [.gt] := rfl
      have hopen : Token.Apart d.toList ('<' :: ((renderList as).toList ++ ['>'])) :=
        .of_head (by rintro _ ⟨⟩; rfl)
      have hclose : Token.Apart (renderList as).toList ['>'] := .of_head (by rintro _ ⟨⟩; rfl)
      rw [htext, Token.spell_append hopen, hname, Token.spell_mark .lt,
        Token.spell_append hclose, hlist, hgt]
      rfl
    | param n => exact spell_name hname

/-! ## What is spelled can be printed -/

/-- What can be printed can be printed as nullable. -/
theorem printable_nullable {t : Ty} (h : t.Printable ∧ t.ParamFree) :
    (nullable t).Printable ∧ (nullable t).ParamFree := by
  have hname : Token.Dotted "Nullable".toList := by decide
  constructor
  · exact printable_iff.mpr ⟨⟨hname, rfl⟩, by simpa [nullable, args] using h.1⟩
  · exact paramFree_iff.mpr ⟨rfl, by simpa [nullable, args] using h.2⟩

mutual

/-- A derived type is printable without parameters if the names among its tokens are dotted. -/
theorem Spells.printable {ts : List Token} {t : Ty} :
    Spells ts t → (∀ n, .ident n ∈ ts → Token.Dotted n.toList) → t.Printable ∧ t.ParamFree
  | .base h, hnames => h.printable hnames
  | .marked h, hnames =>
    printable_nullable (h.printable fun n hn => hnames n (List.mem_append_left _ hn))

/-- A type derived without a mark is printable without parameters if the names among its tokens are
    dotted; the grammar applies no definition to nothing. -/
theorem SpellsBase.printable {ts : List Token} {t : Ty} :
    SpellsBase ts t → (∀ n, .ident n ∈ ts → Token.Dotted n.toList) → t.Printable ∧ t.ParamFree
  | .name n, hnames => by
    constructor
    · exact printable_iff.mpr ⟨⟨hnames n List.mem_cons_self, rfl⟩, nofun⟩
    · exact paramFree_iff.mpr ⟨rfl, nofun⟩
  | @SpellsBase.applied n us args h, hnames => by
    have hargs := h.printable fun m hm => hnames m (by simp [hm])
    -- Arguments in the grammar are one at least.
    have hempty : (generic n args).isEmptyGeneric = false := by
      cases args with
      | nil => exact absurd rfl h.ne_nil
      | cons a as => rfl
    constructor
    · exact printable_iff.mpr ⟨⟨hnames n List.mem_cons_self, hempty⟩, fun a ha => (hargs a ha).1⟩
    · exact paramFree_iff.mpr ⟨rfl, fun a ha => (hargs a ha).2⟩

/-- Derived arguments are printable without parameters if the names among their tokens are
    dotted. -/
theorem SpellsArgs.printable {ts : List Token} {args : List Ty} :
    SpellsArgs ts args → (∀ n, .ident n ∈ ts → Token.Dotted n.toList) →
      ∀ a ∈ args, a.Printable ∧ a.ParamFree
  | .one h, hnames => by
    have hfirst := h.printable hnames
    simpa using hfirst
  | .more h hs, hnames => by
    have hfirst := h.printable fun n hn => hnames n (List.mem_append_left _ hn)
    have hrest := hs.printable fun n hn => hnames n (by simp [hn])
    exact List.forall_mem_cons.mpr ⟨hfirst, hrest⟩

end

/-- What a text spells has nothing but dotted names, all generic definitions applied, and no
    parameters. -/
theorem printable_of_parse {s : String} {t : Ty} (h : parse s = .ok t) :
    t.Printable ∧ t.ParamFree := by
  obtain ⟨ts, hts, hspells⟩ := parse_eq_ok.mp h
  exact hspells.printable fun n hn => Token.dotted_of_spell hts hn

/-- A printable type is parsed from its text, with its parameters as plain names. -/
theorem Printable.parse_render {t : Ty} (h : t.Printable) : parse t.render = .ok t.demote :=
  parse_eq_ok.mpr ⟨t.tokens, h.spell_render, h.spells_tokens⟩

/-- Printing and parsing are inverse. A printable type is read back with its parameters as plain
    names; a type is read back as it is exactly if it is printable and has no parameters; and these
    are the types that texts spell. -/
theorem parse_render_inverse :
    (∀ t : Ty, t.Printable → parse t.render = .ok t.demote) ∧
    (∀ t : Ty, parse t.render = .ok t ↔ t.Printable ∧ t.ParamFree) ∧
    ∀ (s : String) (t : Ty), parse s = .ok t →
      (t.Printable ∧ t.ParamFree) ∧ parse t.render = .ok t := by
  -- Both directions of the second part, and the third, come from this one.
  have hback : ∀ t : Ty, t.Printable ∧ t.ParamFree → parse t.render = .ok t := by
    rintro t ⟨hprintable, hfree⟩
    rw [hprintable.parse_render, hfree.demote_eq]
  refine ⟨fun t => Printable.parse_render, fun t => ⟨printable_of_parse, hback t⟩, fun s t h => ?_⟩
  have hprintable := printable_of_parse h
  exact ⟨hprintable, hback t hprintable⟩

/-- A parameter comes back as a plain name, and a nullable argument as itself. -/
theorem parse_selector :
    parse (generic "Models.Selector" [.param "T", nullable long]).render =
      .ok (.generic "Models.Selector" [.named "T", nullable long]) :=
  parse_render_inverse.1 _ (by decide)

end Ty

end Retarget
